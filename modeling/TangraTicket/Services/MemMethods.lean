import TangraTicket.Library.Machine
import TangraTicket.Services.Audit
import TangraTicket.Services.World

/-!
The in-memory store as a whole: its tables, the audit rows, and the failures armed by `FailNext`.
Every method first looks whether a failure is armed under its name.
-/

namespace TangraTicket.Store.Mem

open GoText KeyedTable

variable (m : Mem)

/-- The links of the ticket are replaced. -/
def setTicketTags (tenantID ticketID : GoString) (tagIDs : List GoString) : Except RepoErr Unit × Mem :=
  match m.checkTags tenantID ticketID tagIDs with
  | .error e => (.error e, m)
  | .ok () =>
    (.ok (), { m with links := addLinks ticketID tagIDs (m.links.filter fun l => l.1 ≠ ticketID) })

def deleteAttachmentsByTicket (tenantID ticketID : GoString) : Except RepoErr (List GoString) × Mem :=
  (.ok (sortStrings ((m.attachments.rows.filter fun a => a.tenantID = tenantID ∧
    a.ticketID = ticketID).map (·.storageKey))),
    { m with
      attachments := m.attachments.keep fun a =>
      ¬ (a.tenantID = tenantID ∧ a.ticketID = ticketID) })

def lastMessageID (tenantID ticketID : GoString) : Except RepoErr GoString × Mem :=
  ((m.ticket tenantID ticketID).map (·.lastMessageID), m)

end TangraTicket.Store.Mem

namespace TangraTicket.Services

open GoText Store

def Method.name : Method → GoString
  | .createTicket => "CreateTicket"
  | .getTicket => "GetTicket"
  | .findTicketByExternalID => "FindTicketByExternalID"
  | .updateTicket => "UpdateTicket"
  | .setAssignee => "SetAssignee"
  | .setStatus => "SetStatus"
  | .deleteTicket => "DeleteTicket"
  | .createComment => "CreateComment"
  | .getComment => "GetComment"
  | .setCommentDelivery => "SetCommentDelivery"
  | .deleteComment => "DeleteComment"
  | .findCommentByMessageID => "FindCommentByMessageID"
  | .createAttachment => "CreateAttachment"
  | .listAttachments => "ListAttachments"
  | .getAttachment => "GetAttachment"
  | .createTag => "CreateTag"
  | .getTag => "GetTag"
  | .listTags => "ListTags"
  | .updateTag => "UpdateTag"
  | .deleteTag => "DeleteTag"
  | .ensureTagByName => "EnsureTagByName"
  | .addTicketTags => "AddTicketTags"
  | .tagsForTickets => "TagsForTickets"
  | .createRule => "CreateRule"
  | .getRule => "GetRule"
  | .listRules => "ListRules"
  | .listEnabledRules => "ListEnabledRules"
  | .updateRule => "UpdateRule"
  | .deleteRule => "DeleteRule"
  | .createMailbox => "CreateMailbox"
  | .getMailbox => "GetMailbox"
  | .listMailboxes => "ListMailboxes"
  | .updateMailbox => "UpdateMailbox"
  | .deleteMailbox => "DeleteMailbox"
  | .routeMailbox => "RouteMailbox"
  | .appendHistory => "AppendHistory"
  | .allTickets => "AllTickets"

/-- The methods that answer with a list, a page or figures; their answers are left out. -/
inductive Listing
  | listTickets | listComments | pageTags | pageRules | pageMailboxes | listHistory | ticketStats
  | allComments | allAttachments | allTagLinks | allHistory | tenantIDs | audit | close

/-- The names under which a failure may be armed for the method. The pages are cut from the lists. -/
def Listing.methods : Listing → List GoString
  | .listTickets => ["ListTickets"]
  | .listComments => ["ListComments"]
  | .pageTags => ["PageTags", "ListTags"]
  | .pageRules => ["PageRules", "ListRules"]
  | .pageMailboxes => ["PageMailboxes", "ListMailboxes"]
  | .listHistory => ["ListHistory"]
  | .ticketStats => ["TicketStats"]
  | .allComments => ["AllComments"]
  | .allAttachments => ["AllAttachments"]
  | .allTagLinks => ["AllTagLinks"]
  | .allHistory => ["AllHistory"]
  | .tenantIDs => ["TenantIDs"]
  | .audit | .close => []

structure MemState where
  mem : Mem := {}
  audit : List Audit.AuditRow := []
  failNext : List GoString := []

inductive MemOp
  | failNext (method : GoString)
  | call (now : Time) (id : GoString) (q : StoreCall)
  | setTicketTags (tenantID ticketID : GoString) (tagIDs : List GoString)
  | deleteAttachmentsByTicket (tenantID ticketID : GoString)
  | lastMessageID (tenantID ticketID : GoString)
  | appendAudit (row : Audit.AuditRow)
  | read (r : Listing)

def MemOp.methods : MemOp → List GoString
  | .failNext _ => []
  | .call _ _ q => [q.method.name]
  | .setTicketTags .. => ["SetTicketTags"]
  | .deleteAttachmentsByTicket .. => ["DeleteAttachmentsByTicket"]
  | .lastMessageID .. => ["LastMessageID"]
  | .appendAudit _ => ["AppendAudit"]
  | .read r => r.methods

def errorOf {α : Type} : Except RepoErr α → Option RepoErr
  | .ok _ => none
  | .error e => some e

namespace MemState

variable (s : MemState)

def mutate {α : Type} (r : Except RepoErr α × Mem) : Option RepoErr × MemState :=
  (errorOf r.1, { s with mem := r.2 })

variable [GoLibrary]

def perform : MemOp → Option RepoErr × MemState
  | .failNext method => (none, { s with failNext := method :: s.failNext.filter (· ≠ method) })
  | .call now id q => s.mutate (performStore now id s.mem q)
  | .setTicketTags tenantID ticketID tagIDs => s.mutate (s.mem.setTicketTags tenantID ticketID tagIDs)
  | .deleteAttachmentsByTicket tenantID ticketID =>
    s.mutate (s.mem.deleteAttachmentsByTicket tenantID ticketID)
  | .lastMessageID tenantID ticketID => s.mutate (s.mem.lastMessageID tenantID ticketID)
  | .appendAudit row => (none, { s with audit := s.audit ++ [row] })
  | .read _ => (none, s)

/-- A method on the store: an armed failure is returned and disarmed. -/
def run (op : MemOp) : Option RepoErr × MemState :=
  match op.methods.find? (· ∈ s.failNext) with
  | some method => (some .failure, { s with failNext := s.failNext.filter (· ≠ method) })
  | none => s.perform op

end MemState

end TangraTicket.Services
