import TangraTicket.Stream.Client

/-!
The hub (`internal/stream/hub.go`): publishing to a tenant stream, the subscription with its bounded
queue, and the replay of what a client missed. Times and durations are nanoseconds.
-/

namespace TangraTicket.Stream

open GoText

inductive StreamErr
  | tooMany | type | payload | targets | reserved | closed | client
deriving DecidableEq

/-- The bounds of a hub, as `NewHub` leaves them. -/
structure Config where
  replayWindow : ℤ := 300000000000
  streamsPerUser : ℕ := 5
  streamsPerTenant : ℕ := 2000
  maxLen : ℕ := 10000
  maxLen_pos : 0 < maxLen := by decide

structure Event where
  id : GoString
  type : GoString
  data : GoString
deriving DecidableEq

def Entry.event (e : Entry) : Event := ⟨e.id, e.type, e.data⟩

-- what `XADD` keeps of a history
def stored (cfg : Config) (history : List Entry) : List Entry := history.foldl (Memory.xadd cfg.maxLen) []

/-- The answers of `XRANGE` over a stream, or its failure. -/
def ranges (available : Bool) (stream : List Entry) (afterID : GoString) (count : ℕ) :
    Except Unit (List Entry) :=
  if available then .ok (Memory.after stream afterID count) else .error ()

def maxPayload : ℕ := 16384

def maxTargets : ℕ := 1000

def reservedTypes : List GoString := ["issued", "renewed", "revoked", "reset", "bye"]

def isTypeByte (b : UInt8) : Bool :=
  (0x61 ≤ b && b ≤ 0x7A) || (0x30 ≤ b && b ≤ 0x39) || b == 0x2E || b == 0x5F || b == 0x2D

/-- A match of `^[a-z][a-z0-9._-]{0,63}$`, and for a module no reserved type. -/
def validateType (type : GoString) (module_ : Bool) : Except StreamErr Unit :=
  if ¬ (type.head?.any (fun b => 0x61 ≤ b && b ≤ 0x7A) ∧ type.length ≤ 64 ∧
    type.all isTypeByte) then .error .type
  else if module_ ∧ reservedTypes.contains type then .error .reserved
  else .ok ()

/-- The fields `PublishID` hands to `XADD`; `raw` is the payload as JSON. -/
def publication (jsonValid : GoString → Bool) (to_ : List GoString) (all : Bool) (type raw : GoString)
    (module_ : Bool) : Except StreamErr (GoString × GoString × GoString) := do
  validateType type module_
  if all = !to_.isEmpty ∨ maxTargets < to_.length then throw .targets
  else if maxPayload < raw.length ∨ ¬ jsonValid raw ∨ containsAny raw "\n\r" then throw .payload
  else if all then pure (goString "*", type, raw)
  else if to_.any (fun u => u = [] || containsAny u ", \n") then throw .targets
  else pure (join to_ ",", type, raw)

def targets (to_ user : GoString) : Bool := to_ = goString "*" || (split 0x2C to_).contains user

def connBuffer : ℕ := 32

structure Subscription where
  user : GoString
  ch : List Event := []
  last : GoString := []
  closed : Bool := false
deriving DecidableEq

def Subscription.refuses (s : Subscription) (ev : Event) : Bool :=
  s.closed || (ev.id ≠ [] && s.last ≠ [] && !less s.last ev.id)

/-- `false` means that the queue is full; the mark has moved all the same. -/
def Subscription.push (s : Subscription) (ev : Event) : Bool × Subscription :=
  if s.refuses ev then (true, s)
  else if s.ch.length < connBuffer then
    (true, { s with last := if ev.id ≠ [] then ev.id else s.last, ch := s.ch ++ [ev] })
  else (false, { s with last := if ev.id ≠ [] then ev.id else s.last })

def resetEvent (reason : GoString) : Event :=
  ⟨[], "reset", goString "\x7b\"reason\":\"" ++ reason ++ goString "\"\x7d"⟩

-- the answers to the pushes are not looked at
def Subscription.pushTargeted (s : Subscription) (entries : List Entry) : Subscription :=
  entries.foldl (fun s e => if targets e.to_ s.user then (s.push e.event).2 else s) s

/-- The id lies before the replay window, or is no stream id. -/
def outsideWindow (cfg : Config) (now : ℤ) (lastID : GoString) : Bool :=
  !(parseID lastID).ok || (parseID lastID).ms * 1000000 < now - cfg.replayWindow

/-- `range` is the answer of `XRANGE`; the client may fail. -/
def replay (cfg : Config) (now : ℤ) (range : GoString → ℕ → Except Unit (List Entry)) (s : Subscription)
    (lastID : GoString) : Subscription :=
  if outsideWindow cfg now lastID then (s.push (resetEvent "replay_window")).2
  else
    match range lastID cfg.maxLen with
    | .error _ => (s.push (resetEvent "replay_unavailable")).2
    | .ok entries => s.pushTargeted entries

structure TenantSub where
  users : List GoString := []
  last : GoString
deriving DecidableEq

structure Hub where
  closed : Bool := false
  tenants : List (GoString × TenantSub) := []

-- the loop starts after the current tail
def startOf (xlast : GoString) : GoString := if xlast = [] then "0-0" else xlast

def Hub.tenant (h : Hub) (tenantID : GoString) (xlast : Except Unit GoString) :
    Except StreamErr TenantSub :=
  match h.tenants.lookup tenantID with
  | some t => .ok t
  | none =>
    match xlast with
    | .ok last => .ok { last := startOf last }
    | .error _ => .error .client

def Hub.put (h : Hub) (tenantID : GoString) (t : TenantSub) : Hub :=
  { h with tenants := (tenantID, t) :: h.tenants.filter fun x => x.1 ≠ tenantID }

/-- `Hub.Subscribe`, run without interruption. -/
def subscribe (cfg : Config) (h : Hub) (now : ℤ) (xlast : Except Unit GoString)
    (range : GoString → ℕ → Except Unit (List Entry)) (tenantID user lastID : GoString) :
    Except StreamErr (Subscription × Hub) := do
  if h.closed then throw .closed
  else
    let t ← h.tenant tenantID xlast
    if cfg.streamsPerUser ≤ t.users.count user ∨ cfg.streamsPerTenant ≤ t.users.length then throw .tooMany
    else
      let h := h.put tenantID { t with users := user :: t.users }
      if lastID ≠ [] then pure (replay cfg now range { user := user } lastID, h)
      else pure ({ user := user }, h)

end TangraTicket.Stream
