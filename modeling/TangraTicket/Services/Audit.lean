import TangraTicket.Library.GoText
import TangraTicket.Store.Models

/-!
Audit events (`internal/audit/audit.go`). The details of an event are redacted: every key with a
forbidden word is dropped, at any depth, and every string cut to 256 bytes. `Record` checks an event
and queues the row for it.
-/

namespace TangraTicket.Services.Audit

open GoText

/-- A detail value. The entries of a map are listed in key order. -/
inductive Detail
  | str (s : GoString)
  | other (text : GoString)
  | list (xs : List Detail)
  | map (entries : List (GoString × Detail))

def forbidden : List GoString :=
  ["body", "description", "html", "requester", "author_email", "author_name", "email", "token",
    "password", "secret", "credential"]

variable [GoLibrary]

def forbiddenKey (k : GoString) : Bool := forbidden.any fun f => contains (toLower k) f

mutual

def guardValue : Detail → Detail
  | .str s => .str (if s.length > 256 then s.take 256 else s)
  | .other text => .other text
  | .list xs => .list (guardList xs)
  | .map entries => .map (guardMap entries)

def guardList : List Detail → List Detail
  | [] => []
  | x :: xs => guardValue x :: guardList xs

def guardMap : List (GoString × Detail) → List (GoString × Detail)
  | [] => []
  | (k, v) :: entries => if forbiddenKey k then guardMap entries else (k, guardValue v) :: guardMap entries

end

/-- `Redact`, which `Record` applies to the details of every event. -/
def redact (m : List (GoString × Detail)) : List (GoString × Detail) := guardMap m

structure Event where
  tenantID : GoString
  eventType : GoString
  actorKind : GoString
  actorID : GoString := []
  subjectKind : GoString
  subjectID : GoString := []
  outcome : GoString
  reason : GoString := []
  details : List (GoString × Detail) := []

structure AuditRow where
  id : GoString
  tenantID : GoString
  createdAt : Store.Time
  actorKind : GoString
  actorID : GoString
  action : GoString
  subjectKind : GoString
  subjectID : GoString
  outcome : GoString
  reason : GoString
  detail : List (GoString × Detail)

def vocabulary : List GoString :=
  ["ticket.create", "ticket.update", "ticket.delete", "ticket.assign", "ticket.status",
    "ticket.tags", "comment.create", "comment.delete", "reply.sent", "reply.failed", "ack.sent",
    "ack.skipped", "inbound.created", "inbound.threaded", "inbound.duplicate", "inbound.dropped",
    "inbound.refused", "rule.create", "rule.update", "rule.delete", "rule.error", "tag.create",
    "tag.update", "tag.delete", "mailbox.create", "mailbox.update", "mailbox.delete",
    "backup.export", "backup.import", "access.refused"]

def actorKinds : List GoString := ["agent", "inbound", "service", "system", "rule"]

def subjectKinds : List GoString :=
  ["ticket", "comment", "attachment", "tag", "rule", "mailbox", "message", "backup", "system"]

def outcomes : List GoString := ["ok", "refused", "error"]

/-- `Validate`; an error is its text. -/
def validate (e : Event) : Except GoString Unit :=
  if e.eventType ∉ vocabulary then
    .error (goString "audit: unknown event type " ++ GoLibrary.quote e.eventType)
  else if e.tenantID = [] then .error "audit: tenant_id is required"
  else if e.actorKind ∉ actorKinds then
    .error (goString "audit: actor_kind " ++ GoLibrary.quote e.actorKind)
  else if e.subjectKind ∉ subjectKinds then
    .error (goString "audit: subject_kind " ++ GoLibrary.quote e.subjectKind)
  else if e.outcome ∉ outcomes then .error (goString "audit: outcome " ++ GoLibrary.quote e.outcome)
  else .ok ()

def truncate (s : GoString) : GoString := if s.length > 256 then s.take 256 else s

def rowOf (e : Event) (id : GoString) (now : Store.Time) : AuditRow where
  id := id
  tenantID := e.tenantID
  createdAt := now
  actorKind := e.actorKind
  actorID := e.actorID
  action := e.eventType
  subjectKind := e.subjectKind
  subjectID := e.subjectID
  outcome := e.outcome
  reason := truncate e.reason
  detail := guardMap e.details

/-- The writer between two events: what waits to be written, and how much may. -/
structure Writer where
  queue : List AuditRow := []
  room : ℕ := 10000
  closed : Bool := false
  dropped : ℕ := 0

/-- `Writer.Record`; a full queue drops the row. -/
def Writer.record (w : Writer) (e : Event) (id : GoString) (now : Store.Time) :
    Except GoString Unit × Writer :=
  match validate e with
  | .error err => (.error err, w)
  | .ok () =>
    if w.closed then (.error "audit: writer closed", { w with dropped := w.dropped + 1 })
    else if w.queue.length < w.room then (.ok (), { w with queue := w.queue ++ [rowOf e id now] })
    else (.ok (), { w with dropped := w.dropped + 1 })

end TangraTicket.Services.Audit
