import TangraTicket.Library.Machine
import TangraTicket.Services.Audit

/-!
The audit writer at work (`internal/audit/audit.go`): any number of `Record`, `Flush` and `Close`
calls beside the goroutine that hands the rows to the store. A step is the critical section of a
call, a receive of the goroutine or the return of `AppendAudit`; a tick of the goroutine's timer
does nothing. A receive from the queue once it is closed and empty yields the zero row, which is
`none` here.
-/

namespace TangraTicket.Services.Audit

open GoText

-- a `Flush` call is known by the number of rows accepted before it
inductive Loop
  | selecting
  | writing (row : Option AuditRow) (flush : Option ℕ)
  | draining (flush : ℕ)
  | stopped

/-- The writer, its goroutine, the `Flush` calls that wait to be received, and the arguments of
`AppendAudit` so far. The rest is for the record: the rows that were queued, the number of valid
`Record` calls, the `Flush` calls that were answered. -/
structure Run where
  writer : Writer
  loop : Loop := .selecting
  waiting : List ℕ := []
  handed : List (Option AuditRow) := []
  accepted : List AuditRow := []
  recorded : ℕ := 0
  flushed : List ℕ := []

inductive Action
  | record (e : Event) (id : GoString) (now : Store.Time)
  | flush
  | giveUp (k : ℕ)
  | close
  | take
  | serve (k : ℕ)
  | write
  | drained
  | stop

/-- The goroutine between two receives, in its outer select or in the inner one of a `Flush`. -/
def Loop.idle (flush : Option ℕ) : Loop := flush.elim .selecting .draining

def Action.ofLoop : Action → Bool
  | .take | .serve _ | .write | .drained | .stop => true
  | _ => false

namespace Run

def start (room : ℕ) : Run := { writer := { room := room } }

variable [GoLibrary]

def next (s : Run) : Action → Option Run
  | .record e id now =>
    match validate e with
    | .error _ => some s
    | .ok () =>
      let w := (s.writer.record e id now).2
      some { s with
        writer := w, recorded := s.recorded + 1
        accepted := s.accepted ++ w.queue.drop s.writer.queue.length }
  | .flush => some (if s.writer.closed then s else { s with waiting := s.waiting ++ [s.accepted.length] })
  -- its context is done
  | .giveUp k => some { s with waiting := s.waiting.eraseIdx k }
  | .close => some { s with writer := { s.writer with closed := true } }
  | .take =>
    match s.loop, s.writer.queue with
    | .selecting, r :: rest =>
      some { s with writer := { s.writer with queue := rest }, loop := .writing (some r) none }
    | .draining n, r :: rest =>
      some { s with writer := { s.writer with queue := rest }, loop := .writing (some r) (some n) }
    | .draining n, [] => if s.writer.closed then some { s with loop := .writing none (some n) } else none
    | _, _ => none
  | .serve k =>
    match s.loop, s.waiting[k]? with
    | .selecting, some n => some { s with loop := .draining n, waiting := s.waiting.eraseIdx k }
    | _, _ => none
  | .write =>
    match s.loop with
    | .writing row flush => some { s with handed := s.handed ++ [row], loop := .idle flush }
    | _ => none
  | .drained =>
    match s.loop, s.writer.queue with
    | .draining n, [] => if s.writer.closed then none
        else some { s with loop := .selecting, flushed := s.flushed ++ [n] }
    | _, _ => none
  | .stop =>
    match s.loop, s.writer.queue with
    | .selecting, [] => if s.writer.closed then some { s with loop := .stopped } else none
    | _, _ => none

end Run

end TangraTicket.Services.Audit
