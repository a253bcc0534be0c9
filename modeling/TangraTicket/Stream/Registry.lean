import TangraTicket.Library.Counter
import TangraTicket.Library.Machine
import TangraTicket.Stream.Hub

/-!
The hub with all its goroutines (`internal/stream/hub.go`): subscribers, readers, the loop of every
tenant, and one `Hub.Close`. A step is a section under the hub's lock or under a subscription's, a
test of a loop's context, or the end of a wait of a loop: for `XREAD`, or to try again; trimming the
stream touches nothing of the hub. A subscription and a loop are known by the number of those before
them, and never go from the lists kept here.
-/

namespace TangraTicket.Stream

open GoText KeyedTable Counting

structure Conn where
  handle : ℕ
  tenant : GoString
  sub : Subscription
  received : List Event := []

/-- `tenantSub`. -/
structure Room where
  tenant : GoString
  conns : List ℕ := []
  byUser : Counter GoString := .empty
  loop : ℕ

/-- A loop goes through the batch it has read, and tests its context at the end of it; reads, or
waits after a read that failed; or dispatches an entry to the subscriptions it found, of which one
that has stalled is to be closed. -/
inductive Dispatch
  | ranging
  | reading
  | retrying
  | pushing (conns : List ℕ) (e : Entry)
  | stalled (conn : ℕ) (conns : List ℕ) (e : Entry)
  | stopped
deriving DecidableEq

-- entries of one `XREAD`
def readCount : ℕ := 100

structure TenantLoop where
  number : ℕ
  tenant : GoString
  cancelled : Bool := false
  dispatch : Dispatch := .ranging
  batch : List Entry := []

/-- How far `Hub.Close` has come. -/
inductive Shutdown
  | idle
  | cancelled
  | closing (conns : List ℕ)
  | returned
deriving DecidableEq

structure Registry where
  tenants : Table GoString Room Room.tenant := .empty
  subs : Table ℕ Conn Conn.handle := .empty
  loops : Table ℕ TenantLoop TenantLoop.number := .empty
  shutdown : Shutdown := .idle

namespace Registry

variable (r : Registry)

/-- The hub's context is done. -/
def done : Bool := r.shutdown ≠ .idle

/-- The tenant's entry, and the registry with it: a new entry starts a loop. -/
def room (tenant : GoString) : Room × Registry :=
  match r.tenants.get? tenant with
  | some t => (t, r)
  | none =>
    let t : Room := { tenant := tenant, loop := r.loops.rows.length }
    (t, { r with tenants := r.tenants.put t, loops := r.loops.put { number := t.loop, tenant := tenant } })

/-- The locked section of `Subscribe`; `xlast` is the answer of `XLAST`, which is asked for a new entry. -/
def subscribe (cfg : Config) (tenant user : GoString) (xlast : Except Unit GoString) :
    Except StreamErr ℕ × Registry :=
  if r.done then (.error .closed, r)
  else if (r.tenants.get? tenant).isNone ∧ xlast.isOk = false then (.error .client, r)
  else
    let (t, r) := r.room tenant
    if cfg.streamsPerUser ≤ value t.byUser user ∨ cfg.streamsPerTenant ≤ t.conns.length then
      (.error .tooMany, r)
    else
      let c : Conn := { handle := r.subs.rows.length, tenant := tenant, sub := { user := user } }
      (.ok c.handle,
        { r with
          subs := r.subs.put c
          tenants := r.tenants.put
            { t with conns := t.conns ++ [c.handle], byUser := increment t.byUser user } })

/-- The body of `Subscription.Close`. -/
def closeConn (c : Conn) : Registry :=
  let subs := r.subs.put { c with sub := { c.sub with closed := true } }
  match r.tenants.get? c.tenant with
  | none => { r with subs := subs }
  | some t =>
    let conns := t.conns.filter fun n => n ≠ c.handle
    if conns = [] then
      { r with
        subs := subs
        tenants := r.tenants.keep fun t => t.tenant ≠ c.tenant
        loops := r.loops.amend (fun l => { l with cancelled := l.cancelled || l.number = t.loop })
          fun _ => rfl }
    else
      { r with
        subs := subs
        tenants := r.tenants.put { t with conns := conns, byUser := decrement t.byUser c.sub.user } }

/-- `Subscription.Close`; only the first call does anything. -/
def close (n : ℕ) : Registry :=
  match r.subs.get? n with
  | some c => if c.sub.closed then r else r.closeConn c
  | none => r

def push (n : ℕ) (ev : Event) : Bool × Registry :=
  match r.subs.get? n with
  | some c => ((c.sub.push ev).1, { r with subs := r.subs.put { c with sub := (c.sub.push ev).2 } })
  | none => (true, r)

def setDispatch (l : TenantLoop) (d : Dispatch) (batch : List Entry := l.batch) : Registry :=
  { r with loops := r.loops.put { l with dispatch := d, batch := batch } }

def found (l : TenantLoop) (e : Entry) : List ℕ :=
  match r.tenants.rows.find? fun t => t.loop = l.number with
  | some t => t.conns.filter fun n => (r.subs.get? n).any fun c => targets e.to_ c.sub.user
  | none => []

def registered : List ℕ := r.tenants.rows.flatMap Room.conns

inductive Action
  | subscribe (tenant user : GoString) (xlast : Except Unit GoString)
  | replayPush (conn : ℕ) (ev : Event)
  | receive (conn : ℕ)
  | close (conn : ℕ)
  | test (loop : ℕ)
  | read (loop : ℕ) (answer : Except Unit (List Entry))
  | retry (loop : ℕ)
  | quit (loop : ℕ)
  | dispatch (loop : ℕ)
  | livePush (loop conn : ℕ)
  | closeStalled (loop : ℕ)
  | dispatched (loop : ℕ)
  | cancel
  | collect
  | closeNext
  | return_

def next (cfg : Config) : Action → Option Registry
  | .subscribe tenant user xlast => some (r.subscribe cfg tenant user xlast).2
  | .replayPush n ev => some (r.push n ev).2
  | .receive n =>
    match r.subs.get? n with
    | some c =>
      match c.sub.ch with
      | ev :: ch =>
        some { r with
          subs := r.subs.put
            { c with sub := { c.sub with ch := ch }, received := c.received ++ [ev] } }
      | [] => none
    | none => none
  | .close n => some (r.close n)
  | .test k =>
    match r.loops.get? k with
    | some l =>
      if l.dispatch = .ranging ∧ l.batch = [] then
        some (r.setDispatch l (if l.cancelled then .stopped else .reading))
      else none
    | none => none
  | .read k answer =>
    match r.loops.get? k with
    | some l =>
      match l.dispatch, answer with
      | .reading, .ok entries =>
        if entries.length ≤ readCount then some (r.setDispatch l .ranging entries) else none
      | .reading, .error _ => some (r.setDispatch l (if l.cancelled then .stopped else .retrying))
      | _, _ => none
    | none => none
  -- the timer is up
  | .retry k =>
    match r.loops.get? k with
    | some l => if l.dispatch = .retrying then some (r.setDispatch l .ranging) else none
    | none => none
  | .quit k =>
    match r.loops.get? k with
    | some l => if l.dispatch = .retrying ∧ l.cancelled then some (r.setDispatch l .stopped) else none
    | none => none
  | .dispatch k =>
    match r.loops.get? k with
    | some l =>
      match l.dispatch, l.batch with
      | .ranging, e :: rest => some (r.setDispatch l (.pushing (r.found l e) e) rest)
      | _, _ => none
    | none => none
  | .livePush k n =>
    match r.loops.get? k with
    | some l =>
      match l.dispatch with
      | .pushing ns e =>
        if n ∈ ns then
          let rest := ns.filter fun m => m ≠ n
          let (fits, r) := r.push n e.event
          some (r.setDispatch l (if fits then .pushing rest e else .stalled n rest e))
        else none
      | _ => none
    | none => none
  | .closeStalled k =>
    match r.loops.get? k with
    | some l =>
      match l.dispatch with
      | .stalled n rest e => some ((r.setDispatch l (.pushing rest e)).close n)
      | _ => none
    | none => none
  | .dispatched k =>
    match r.loops.get? k with
    | some l =>
      match l.dispatch with
      | .pushing [] _ => some (r.setDispatch l .ranging)
      | _ => none
    | none => none
  | .cancel =>
    if r.shutdown = .idle then
      some { r with
        shutdown := .cancelled
        loops := r.loops.amend (fun l => { l with cancelled := true }) fun _ => rfl }
    else none
  | .collect => if r.shutdown = .cancelled then some { r with shutdown := .closing r.registered } else none
  | .closeNext =>
    match r.shutdown with
    | .closing (n :: rest) => some { r.close n with shutdown := .closing rest }
    | _ => none
  | .return_ =>
    if r.shutdown = .closing [] ∧ r.loops.rows.all (fun l => l.dispatch = .stopped) then
      some { r with shutdown := .returned }
    else none

end Registry

end TangraTicket.Stream
