import TangraTicket.Library.Machine
import TangraTicket.Stream.Hub

/-!
One `Subscribe` call beside the publishers and the loop of its tenant. The hub lock is held from the
lookup of the tenant to the registration, and `dispatch` takes its snapshot of the subscriptions
under the same lock; the range query of the replay, the reads of the loop and every push run outside
it. Other subscriptions appear only as far as they keep the loop running.
-/

namespace TangraTicket.Stream

open GoText

/-- The loop of a tenant: the entries of the last read still to dispatch, and the entry that is on
its way to the subscription. -/
structure Loop where
  last : GoString
  batch : List Entry := []
  pushing : Option Entry := none
deriving DecidableEq

inductive Phase
  | idle | locked | registered | replaying (rest : List Entry)
deriving DecidableEq

structure Delivery where
  stream : List Entry
  loop : Option Loop := none
  phase : Phase := .idle
  sub : Subscription
  received : List Event := []
deriving DecidableEq

inductive Action
  | xadd (e : Entry) | otherOpens | othersClose | lock | register | xrange | replayPush | xread
  | dispatch | livePush
  | receive

namespace Delivery

-- the loop starts after the tail that `XLAST` answered
def looped (d : Delivery) : Loop := d.loop.getD { last := startOf (Memory.xlast d.stream) }

def pushed (d : Delivery) (ev : Event) : Delivery := { d with sub := (d.sub.push ev).2 }

/-- A step, where ids increase, nothing is trimmed and a push finds room in the queue. -/
def next (cfg : Config) (now : ℤ) (lastID : GoString) (d : Delivery) : Action → Option Delivery
  | .xadd e =>
    if Ordered (d.stream ++ [e]) ∧ d.stream.length < cfg.maxLen then
      some { d with stream := Memory.xadd cfg.maxLen d.stream e }
    else none
  | .otherOpens => if d.phase = .idle then some { d with loop := some d.looped } else none
  | .othersClose => if d.phase = .idle then some { d with loop := none } else none
  | .lock => if d.phase = .idle then some { d with loop := some d.looped, phase := .locked } else none
  | .register => if d.phase = .locked then some { d with phase := .registered } else none
  | .xrange =>
    if d.phase = .registered then
      if lastID = [] then some { d with phase := .replaying [] }
      else if outsideWindow cfg now lastID then
        some ({ d with phase := .replaying [] }.pushed (resetEvent "replay_window"))
      else some { d with phase := .replaying (Memory.after d.stream lastID cfg.maxLen) }
    else none
  | .replayPush =>
    match d.phase with
    | .replaying (e :: rest) =>
      if connBuffer ≤ d.sub.ch.length then none
      else if targets e.to_ d.sub.user then some ({ d with phase := .replaying rest }.pushed e.event)
      else some { d with phase := .replaying rest }
    | _ => none
  | .xread =>
    match d.loop with
    | some ⟨last, [], none⟩ => some { d with loop := some ⟨last, Memory.after d.stream last 100, none⟩ }
    | _ => none
  | .dispatch =>
    match d.loop with
    | some ⟨_, e :: batch, none⟩ =>
      if d.phase = .locked then none
      else
        let pushing := if d.phase ≠ .idle ∧ targets e.to_ d.sub.user then some e else none
        some { d with loop := some ⟨e.id, batch, pushing⟩ }
    | _ => none
  | .livePush =>
    match d.loop with
    | some ⟨last, batch, some e⟩ =>
      if connBuffer ≤ d.sub.ch.length then none
      else some ({ d with loop := some ⟨last, batch, none⟩ }.pushed e.event)
    | _ => none
  | .receive =>
    match d.sub.ch with
    | ev :: ch => some { d with sub := { d.sub with ch := ch }, received := d.received ++ [ev] }
    | [] => none

/-- The replay is over, and the loop has pushed everything there is. -/
def Quiescent (d : Delivery) : Prop :=
  d.phase = .replaying [] ∧ d.sub.ch = [] ∧
    ∃ last, d.loop = some ⟨last, [], none⟩ ∧ ∀ e ∈ d.stream, less last e.id = false

end Delivery

end TangraTicket.Stream
