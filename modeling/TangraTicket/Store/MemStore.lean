import TangraTicket.Library.KeyedTable
import TangraTicket.Store.Models

/-!
The in-memory store (`internal/memstore`). Each method is a function of the clock (`now`), of its
arguments and of the store, and gives its answer with the store it leaves; a refused method leaves
the store as it was. A set of links `ticket id → tag ids` is the list of its pairs.
-/

namespace TangraTicket.Store

open GoText KeyedTable

/-- The sentinel errors of `internal/repo`, and any other failure of a store call. -/
inductive RepoErr
  | notFound | conflict | notEmpty | failure
deriving DecidableEq

structure Mem where
  tickets : Table GoString Ticket Ticket.id := .empty
  comments : Table GoString Comment Comment.id := .empty
  attachments : Table GoString Attachment Attachment.id := .empty
  tags : Table GoString Tag Tag.id := .empty
  links : List (GoString × GoString) := []
  rules : Table GoString Rule Rule.id := .empty
  mailboxes : Table GoString Mailbox Mailbox.id := .empty
  history : List History := []

def orNow (t now : Time) : Time := if t = 0 then now else t

namespace Ticket

variable (at_ : Time) (t : Ticket)

def withPatch (p : TicketPatch) : Ticket :=
  { t with
    subject := p.subject.getD t.subject
    description := p.description.getD t.description
    priority := p.priority.getD t.priority
    updatedAt := at_ }

def withAssignee (assigneeID assigneeName : GoString) : Ticket :=
  { t with
    assigneeID := assigneeID
    assigneeName := if assigneeID = [] then [] else assigneeName
    updatedAt := at_ }

/-- Entering `resolved` stamps `resolved_at` once, any other status clears it. -/
def withStatus (status : Status) : Ticket :=
  { t with
    resolvedAt :=
      if status = .resolved then
        if t.status ≠ .resolved ∨ t.resolvedAt = none then some at_ else t.resolvedAt
      else none
    status := status
    updatedAt := at_ }

def withComment (c : Comment) : Ticket :=
  { t with
    commentCount := t.commentCount + 1
    lastMessageID := if c.messageID ≠ [] ∧ c.internal = false then c.messageID else t.lastMessageID
    updatedAt := c.createdAt }

end Ticket

namespace Mem

variable (now : Time) (m : Mem)

/-- A ticket with the defaults `CreateTicket` fills in. -/
def withDefaults (t : Ticket) : Ticket :=
  { t with
    createdAt := orNow t.createdAt now
    updatedAt := orNow t.updatedAt (orNow t.createdAt now)
    status := if t.status = .unset then .open else t.status
    priority := if t.priority = .unset then .normal else t.priority
    source := if t.source = .unset then .manual else t.source }

def createTicket (t : Ticket) : Except RepoErr Unit × Mem :=
  if (m.tickets.get? t.id).isSome then (.error .conflict, m)
  else if t.externalID ≠ [] ∧
      m.tickets.rows.any (fun x => x.tenantID = t.tenantID ∧ x.externalID = t.externalID) then
    (.error .conflict, m)
  else if t.mailboxID ≠ [] ∧
      ¬ (m.mailboxes.get? t.mailboxID).any (fun mb => mb.tenantID = t.tenantID) then
    (.error .notFound, m)
  else (.ok (), { m with tickets := m.tickets.put (withDefaults now t) })

/-- The row of a ticket, seen by its own tenant only. -/
def ticket (tenantID id : GoString) : Except RepoErr Ticket :=
  match (m.tickets.get? id).filter (fun t => t.tenantID = tenantID) with
  | some t => .ok t
  | none => .error .notFound

def getTicket (tenantID id : GoString) : Except RepoErr Ticket × Mem := (m.ticket tenantID id, m)

def findTicketByExternalID (tenantID externalID : GoString) : Except RepoErr Ticket × Mem :=
  if externalID = [] then (.error .notFound, m)
  else
    match m.tickets.rows.find? (fun t => t.tenantID = tenantID ∧ t.externalID = externalID) with
    | some t => (.ok t, m)
    | none => (.error .notFound, m)

def modifyTicket (tenantID id : GoString) (f : Ticket → Ticket) : Except RepoErr Ticket × Mem :=
  match m.ticket tenantID id with
  | .error e => (.error e, m)
  | .ok t => (.ok (f t), { m with tickets := m.tickets.put (f t) })

def updateTicket (tenantID id : GoString) (p : TicketPatch) (at_ : Time) : Except RepoErr Ticket × Mem :=
  m.modifyTicket tenantID id (Ticket.withPatch (orNow at_ now) · p)

def setAssignee (tenantID id assigneeID assigneeName : GoString) (at_ : Time) :
    Except RepoErr Ticket × Mem :=
  m.modifyTicket tenantID id (Ticket.withAssignee (orNow at_ now) · assigneeID assigneeName)

def setStatus (tenantID id : GoString) (status : Status) (at_ : Time) : Except RepoErr Ticket × Mem :=
  m.modifyTicket tenantID id (Ticket.withStatus (orNow at_ now) · status)

def deleteTicket (tenantID id : GoString) : Except RepoErr (List GoString) × Mem :=
  match m.ticket tenantID id with
  | .error e => (.error e, m)
  | .ok _ =>
    (.ok (sortStrings ((m.attachments.rows.filter (fun a => a.ticketID = id)).map (·.storageKey))),
      { m with
        attachments := m.attachments.keep (fun a => a.ticketID ≠ id)
        comments := m.comments.keep (fun c => c.ticketID ≠ id)
        links := m.links.filter (fun l => l.1 ≠ id)
        history := m.history.filter (fun h => h.ticketID ≠ id)
        tickets := m.tickets.keep (fun t => t.id ≠ id) })

/-- A comment with the defaults `CreateComment` fills in. -/
def withCommentDefaults (c : Comment) : Comment :=
  { c with
    createdAt := orNow c.createdAt now
    delivery := if c.delivery = .unset then .none else c.delivery }

def createComment (c : Comment) : Except RepoErr Unit × Mem :=
  match m.ticket c.tenantID c.ticketID with
  | .error e => (.error e, m)
  | .ok t =>
    if (m.comments.get? c.id).isSome then (.error .conflict, m)
    else if c.messageID ≠ [] ∧
        m.comments.rows.any (fun x => x.tenantID = c.tenantID ∧ x.messageID = c.messageID) then
      (.error .conflict, m)
    else
      let stored := withCommentDefaults now c
      (.ok (),
        { m with
          comments := m.comments.put stored,
          tickets := m.tickets.put (t.withComment stored) })

def comment (tenantID id : GoString) : Except RepoErr Comment :=
  match (m.comments.get? id).filter (fun c => c.tenantID = tenantID) with
  | some c => .ok c
  | none => .error .notFound

def getComment (tenantID id : GoString) : Except RepoErr Comment × Mem := (m.comment tenantID id, m)

def earlier (createdAt createdAt' : Time) (id id' : GoString) : Bool :=
  if createdAt ≠ createdAt' then createdAt < createdAt' else lessString id id'

def setCommentDelivery (tenantID id : GoString) (delivery : Delivery) : Except RepoErr Unit × Mem :=
  match m.comment tenantID id with
  | .error e => (.error e, m)
  | .ok c => (.ok (), { m with comments := m.comments.put { c with delivery := delivery } })

def deleteComment (tenantID id : GoString) : Except RepoErr (List GoString) × Mem :=
  match m.comment tenantID id with
  | .error e => (.error e, m)
  | .ok c =>
    (.ok (sortStrings ((m.attachments.rows.filter (fun a => a.commentID = id)).map (·.storageKey))),
      { m with
        attachments := m.attachments.keep (fun a => a.commentID ≠ id)
        comments := m.comments.keep (fun x => x.id ≠ id)
        tickets :=
          match m.tickets.get? c.ticketID with
          | some t => if t.commentCount > 0 then
              m.tickets.put { t with commentCount := t.commentCount - 1 } else m.tickets
          | none => m.tickets })

def findCommentByMessageID (tenantID messageID : GoString) : Except RepoErr Comment × Mem :=
  if messageID = [] then (.error .notFound, m)
  else
    match m.comments.rows.find? (fun c => c.tenantID = tenantID ∧ c.messageID = messageID) with
    | some c => (.ok c, m)
    | none => (.error .notFound, m)

def createAttachment (a : Attachment) : Except RepoErr Unit × Mem :=
  match m.ticket a.tenantID a.ticketID with
  | .error e => (.error e, m)
  | .ok _ =>
    if a.commentID ≠ [] ∧
        ¬ (m.comments.get? a.commentID).any (fun c => c.tenantID = a.tenantID ∧
          c.ticketID = a.ticketID) then
      (.error .notFound, m)
    else if (m.attachments.get? a.id).isSome then (.error .conflict, m)
    else if m.attachments.rows.any (fun x => x.storageKey = a.storageKey) then (.error .conflict, m)
    else (.ok (), { m with attachments := m.attachments.put { a with createdAt := orNow a.createdAt now } })

def listAttachments (tenantID ticketID : GoString) : Except RepoErr (List Attachment) × Mem :=
  (.ok (sortSlice (fun a b => earlier a.createdAt b.createdAt a.id b.id)
    (m.attachments.rows.filter (fun a => a.tenantID = tenantID ∧ a.ticketID = ticketID))), m)

def getAttachment (tenantID ticketID id : GoString) : Except RepoErr Attachment × Mem :=
  match (m.attachments.get? id).filter (fun a => a.tenantID = tenantID ∧ a.ticketID = ticketID) with
  | some a => (.ok a, m)
  | none => (.error .notFound, m)

end Mem

end TangraTicket.Store
