import TangraTicket.Services.World

/-!
The ticket service (`internal/tickets`) with the history log it writes (`internal/history`).
-/

namespace TangraTicket.Services

open GoText Store CallProgram

def ofExcept {α : Type} (x : Except Err α) : Attempt α := ExceptT.mk (Prog.ret x)

def maxSubject : ℕ := 998
def maxDescription : ℕ := 2 ^ 20
def maxName : ℕ := 200
def maxEmail : ℕ := 320

def tenantOf (subj : Subjects) : Except Err GoString :=
  if subj.tenantID = [] then .error (.forbidden "tenant required") else .ok subj.tenantID

def invalidTicket (field msg : GoString) : Err := .validation "tickets" field msg

def hasControl (v : GoString) (allowNewlines : Bool) : Bool :=
  (runes v).any fun r => !(allowNewlines && (r = 0x0A || r = 0x0D || r = 0x09)) && isControl r

def cleanSubject (v : GoString) : Except Err GoString :=
  let v := trimSpace (v.map fun b => if b = 0x0D ∨ b = 0x0A then 0x20 else b)
  if v = [] then .error (invalidTicket "subject" "required")
  else if runeCount v > maxSubject ∨ ¬ validString v then
    .error (invalidTicket "subject" "too long or not UTF-8")
  else if hasControl v false then .error (invalidTicket "subject" "control characters")
  else .ok v

def cleanDescription (v : GoString) : Except Err GoString :=
  if v.length > maxDescription ∨ ¬ validString v ∨ hasControl v true then
    .error (invalidTicket "description" "too long or invalid characters")
  else .ok v

def cleanPriority (p : Priority) : Except Err Priority :=
  if validPriority p then .ok p else .error (invalidTicket "priority" "unknown priority")

def cleanRequester [GoLibrary] (email name : GoString) : Except Err (GoString × GoString) :=
  let email := trimSpace email
  let name := trimSpace name
  if email ≠ [] ∧ (email.length > maxEmail ∨ hasControl email false ∨
      (GoLibrary.parseAddress email).map Prod.snd ≠ some email) then
    .error (invalidTicket "requester_email" "invalid address")
  else if runeCount name > maxName ∨ hasControl name false ∨ ¬ validString name then
    .error (invalidTicket "requester_name" "too long or invalid characters")
  else .ok (email, name)

/-- `Log.Append`: unchanged values are not recorded. -/
def appendHistory (tenantID ticketID : GoString) (field : Field) (oldValue newValue : GoString)
    (actorKind : ActorKind) (actorID : GoString) : Attempt Unit :=
  if oldValue = newValue then pure ()
  else do
    let id ← newID
    let at_ ← clock
    ask (.appendHistory
      { id := id, tenantID := tenantID, ticketID := ticketID, field := field, oldValue := oldValue,
        newValue := newValue, actorKind := actorKind, actorID := actorID, createdAt := at_ }) mapErr

/-- The API projection of a ticket. -/
structure View where
  ticket : Ticket
  hasHTML : Bool
  tags : List Tag
  attachments : List Attachment := []

structure CreateInput where
  subject : GoString
  description : GoString := []
  priority : Priority := .unset
  requesterEmail : GoString := []
  requesterName : GoString := []
  assigneeID : GoString := []

structure UpdateInput where
  subject : Option GoString := none
  description : Option GoString := none
  priority : Option Priority := none

/-- The writes of the store that change a recorded field of a ticket. -/
inductive FieldWrite
  | status (s : Status)
  | assignee (id name : GoString)
  | patch (p : TicketPatch)

namespace FieldWrite

def field : FieldWrite → Field
  | .status _ => .status
  | .assignee .. => .assignee
  | .patch _ => .priority

/-- The event announcing the change; a patch is not announced. -/
def event : FieldWrite → Option EventType
  | .status _ => some .statusChanged
  | .assignee .. => some .assigned
  | .patch _ => none

def perform (tenantID id : GoString) (at_ : Time) : FieldWrite → Attempt Ticket
  | .status s => ask (.setStatus tenantID id s at_) mapErr
  | .assignee userID name => ask (.setAssignee tenantID id userID name at_) mapErr
  | .patch p => ask (.updateTicket tenantID id p at_) mapErr

end FieldWrite

namespace Tickets

variable (d : Deps) (subj : Subjects)

def resolveAssignee (tenantID userID : GoString) : Attempt User :=
  if d.agents then do
    match ← request (.lookup tenantID userID) with
    | .ok u => pure u
    | .error .unavailable => throw .directoryUnavailable
    | .error _ => throw .invalidAssignee
  else throw .directoryUnavailable

def chosenAssignee (tenantID userID : GoString) : Attempt User :=
  if userID = [] then pure ⟨[], [], []⟩ else resolveAssignee d tenantID userID

def tagsIn (tags : List (GoString × List Tag)) (ticketID : GoString) : List Tag :=
  ((tags.find? (fun p => p.1 = ticketID)).map Prod.snd).getD []

def view (t : Ticket) (full : Bool) : Attempt View := do
  let tags ← ask (.tagsForTickets t.tenantID [t.id]) .repo
  if full then
    let atts ← ask (.listAttachments t.tenantID t.id) .repo
    pure ⟨t, t.bodyHTML ≠ [], tagsIn tags t.id, atts⟩
  else pure ⟨t, t.bodyHTML ≠ [], tagsIn tags t.id, []⟩

def create [GoLibrary] (input : CreateInput) : Attempt View := do
  let tenantID ← ofExcept (tenantOf subj)
  let subject ← ofExcept (cleanSubject input.subject)
  let desc ← ofExcept (cleanDescription input.description)
  let (email, name) ← ofExcept (cleanRequester input.requesterEmail input.requesterName)
  let prio ← ofExcept (cleanPriority (if input.priority = .unset then .normal else input.priority))
  let at_ ← clock
  let id ← newID
  let u ← chosenAssignee d tenantID input.assigneeID
  let t : Ticket :=
    { id := id, tenantID := tenantID, subject := subject, description := desc, status := .open,
      priority := prio, source := .manual, requesterEmail := email, requesterName := name,
      assigneeID := u.id, assigneeName := u.displayName, createdBy := subj.actorID,
      createdAt := at_, updatedAt := at_ }
  ask (.createTicket t) .repo
  let stored ← ask (.getTicket tenantID t.id) mapErr
  emit d tenantID .created stored subj.historyActor
  view stored false

/-- The checks of `Update`, in their order. -/
def cleanPatch (input : UpdateInput) : Except Err TicketPatch := do
  let subject ← input.subject.mapM cleanSubject
  let description ← input.description.mapM cleanDescription
  let priority ← input.priority.mapM cleanPriority
  pure ⟨subject, description, priority⟩

def announce (tenantID : GoString) (w : FieldWrite) (after : Ticket) (actorKind : ActorKind) : Act Unit :=
  match w.event with
  | some type => emit d tenantID type after actorKind
  | none => pure ()

/-- Read the ticket, let `plan` decide on a write, make it, record the change, announce it and
answer the new view; without a write the ticket is answered as read. -/
def changeField (tenantID id : GoString) (actorKind : ActorKind)
    (plan : Ticket → Attempt (Option FieldWrite)) :
    Attempt View := do
  let before ← ask (.getTicket tenantID id) mapErr
  match ← plan before with
  | none => view before true
  | some w => do
    let at_ ← clock
    let after ← w.perform tenantID id at_
    appendHistory tenantID id w.field (w.field.valueOf before)
      (w.field.valueOf after) actorKind subj.actorID
    announce d tenantID w after actorKind
    view after true

def update (id : GoString) (input : UpdateInput) : Attempt View := do
  let tenantID ← ofExcept (tenantOf subj)
  let p ← ofExcept (cleanPatch input)
  changeField d subj tenantID id subj.historyActor fun _ => pure (some (.patch p))

def deleteObjects (keys : List GoString) : Act Unit :=
  keys.forM fun k => do
    let _ ← request (.deleteObject k)

def delete (id : GoString) : Attempt Unit := do
  let tenantID ← ofExcept (tenantOf subj)
  let keys ← ask (.deleteTicket tenantID id) mapErr
  if d.blobs then deleteObjects keys else pure ()

def assignAs (id assigneeID : GoString) (actorKind : ActorKind) : Attempt View := do
  let tenantID ← ofExcept (tenantOf subj)
  changeField d subj tenantID id actorKind fun before => do
    let u ← chosenAssignee d tenantID assigneeID
    -- the same assignee under a new name is written, but is no change of the field
    pure (if before.assigneeID = assigneeID ∧
      (assigneeID = [] ∨ before.assigneeName = u.displayName) then none
      else some (.assignee assigneeID u.displayName))

def assign (id assigneeID : GoString) : Attempt View := assignAs d subj id assigneeID subj.historyActor

def setStatusAs (id : GoString) (status : Status) (actorKind : ActorKind) : Attempt View := do
  let tenantID ← ofExcept (tenantOf subj)
  if validStatus status then
    changeField d subj tenantID id actorKind fun before =>
      pure (if before.status = status then none else some (.status status))
  else throw .invalidStatus

def setStatus (id : GoString) (status : Status) : Attempt View :=
  setStatusAs d subj id status subj.historyActor

def setPriorityAs (id : GoString) (priority : Priority) (actorKind : ActorKind) : Attempt View := do
  let tenantID ← ofExcept (tenantOf subj)
  let priority ← ofExcept (cleanPriority priority)
  changeField d subj tenantID id actorKind fun before =>
    pure (if before.priority = priority then none else some (.patch { priority := some priority }))

end Tickets

end TangraTicket.Services
