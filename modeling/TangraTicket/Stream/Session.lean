import TangraTicket.Stream.Delivery

/-!
A browser tab over its connections: the live store (`ui/src/stores/live.ts`) with one `EventSource`,
the handler of `GET /stream` (`internal/httpapi/stream.go`), `ServeSSE` (`internal/stream/sse.go`)
and the hub behind them. After a connection ended the `EventSource` asks for the same URL again and
sends the id of the last frame in the `Last-Event-ID` header.

A connect is one step: the hub holds its lock from the lookup of the tenant to the registration, and
the handler never asks for a replay unless the query names an id.
-/

namespace TangraTicket.Stream

open GoText

structure Request where
  query : List (GoString × GoString)
  lastEventID : Option GoString

-- `STREAM_URL` has no query
def streamRequest (lastEventID : GoString) : Request :=
  ⟨[], if lastEventID = [] then none else some lastEventID⟩

/-- The id the handler resumes from: `r.URL.Query().Get("last_id")`. -/
def Request.resumeID (r : Request) : GoString := (r.query.lookup (goString "last_id")).getD []

/-- What a frame carries; line breaks are taken out of the data. -/
def Event.framed (ev : Event) : Event := { ev with data := ev.data.filter fun b => b ≠ 0x0A && b ≠ 0x0D }

def liveEvents : List GoString :=
  ["ticket.created", "ticket.assigned", "ticket.status_changed", "ticket.commented",
    "ticket.requester_replied"]

structure Connection where
  sub : Subscription
  wire : List Event := []
deriving DecidableEq

-- a stalled reader is closed; what is queued can still be written
def afterPush (sub : Subscription) (ev : Event) : Subscription :=
  if (sub.push ev).1 then (sub.push ev).2 else { (sub.push ev).2 with closed := true }

/-- `owed` lists the ticket events for the user that were published since the first connect. -/
structure Session where
  history : List Entry := []
  loop : Option Loop := none
  conn : Option Connection := none
  connected : Bool := false
  lastEventID : GoString := []
  handled : List Event := []
  reset : Bool := false
  owed : List Entry := []
deriving DecidableEq

inductive SessionAction
  | xadd (e : Entry) | otherOpens | othersClose | connect | xread | dispatch | livePush | write
  | receive | bye | finish
  | drop

namespace Session

section
variable (cfg : Config) (now : ℤ) (carriesTicket : GoString → Bool) (user : GoString)

-- the events the store has a handler for
def isTicketEvent (ev : Event) : Bool := liveEvents.contains ev.type && carriesTicket ev.data

def stream (s : Session) : List Entry := stored cfg s.history

def looped (s : Session) : Loop := s.loop.getD { last := startOf (Memory.xlast (s.stream cfg)) }

def registered (s : Session) : Bool := s.conn.any fun c => !c.sub.closed

def wants (e : Entry) : Bool := targets e.to_ user && isTicketEvent carriesTicket e.event.framed

-- `Subscribe` with the id the handler took from the request
def opened (s : Session) : Subscription :=
  let lastID := (streamRequest s.lastEventID).resumeID
  if lastID ≠ [] then replay cfg now (ranges true (s.stream cfg)) { user := user } lastID
  else { user := user }

-- a push to a subscription that is gone does nothing
def detached (s : Session) : Option Loop := s.loop.map fun l => { l with pushing := none }

def handle (s : Session) (ev : Event) : Session :=
  { s with
    lastEventID := if ev.id ≠ [] then ev.id else s.lastEventID
    handled := if isTicketEvent carriesTicket ev then s.handled ++ [ev] else s.handled
    reset := s.reset || ev.type = goString "reset" }

def next (s : Session) : SessionAction → Option Session
  | .xadd e =>
    if Ordered (s.history ++ [e]) then
      some { s with
        history := s.history ++ [e]
        owed := if s.connected && wants carriesTicket user e then s.owed ++ [e] else s.owed }
    else none
  | .otherOpens => some { s with loop := some (s.looped cfg) }
  | .othersClose => if s.registered then none else some { s with loop := none }
  | .connect =>
    if s.conn = none then
      some { s with
        loop := some (s.looped cfg), conn := some { sub := s.opened cfg now user }
        connected := true }
    else none
  | .xread =>
    match s.loop with
    | some ⟨last, [], none⟩ =>
      some { s with loop := some ⟨last, Memory.after (s.stream cfg) last 100, none⟩ }
    | _ => none
  | .dispatch =>
    match s.loop with
    | some ⟨_, e :: batch, none⟩ =>
      let pushing := if s.registered && targets e.to_ user then some e else none
      some { s with loop := some ⟨e.id, batch, pushing⟩ }
    | _ => none
  | .livePush =>
    match s.loop, s.conn with
    | some ⟨last, batch, some e⟩, some c =>
      some { s with
        loop := some ⟨last, batch, none⟩, conn := some { c with sub := afterPush c.sub e.event } }
    | _, _ => none
  | .write =>
    match s.conn with
    | some ⟨⟨u, ev :: ch, last, closed⟩, wire⟩ =>
      some { s with conn := some ⟨⟨u, ch, last, closed⟩, wire ++ [ev.framed]⟩ }
    | _ => none
  | .receive =>
    match s.conn with
    | some ⟨sub, ev :: wire⟩ => some ({ s with conn := some ⟨sub, wire⟩ }.handle carriesTicket ev)
    | _ => none
  | .bye =>
    match s.conn with
    | some ⟨sub, wire⟩ =>
      if sub.closed then none
      else some { s with loop := s.detached, conn := some ⟨{ sub with ch := [], closed := true }, wire⟩ }
    | none => none
  | .finish =>
    match s.conn with
    | some ⟨⟨_, [], _, true⟩, []⟩ => some { s with conn := none }
    | _ => none
  | .drop => if s.conn = none then none else some { s with loop := s.detached, conn := none }

/-- The tab is connected and nothing is on its way to it. -/
def Quiet (s : Session) : Prop :=
  (∃ c, s.conn = some c ∧ c.sub.closed = false ∧ c.sub.ch = [] ∧ c.wire = []) ∧
    ∃ last, s.loop = some ⟨last, [], none⟩ ∧ ∀ e ∈ s.stream cfg, less last e.id = false

end

end Session

end TangraTicket.Stream
