import TangraTicket.Store.MemStore

/-!
The rest of the in-memory store: tags with their links, triage rules, mailboxes, history and the
reads a full restore starts from.
-/

namespace TangraTicket.Store

open GoText KeyedTable

namespace Mem

variable (now : Time) (m : Mem)

section Tags

variable [GoLibrary]

def tagConflict (t : Tag) : Bool :=
  m.tags.rows.any fun x => x.id ≠ t.id ∧ x.tenantID = t.tenantID ∧ x.kind = t.kind ∧ equalFold x.name t.name

def createTag (t : Tag) : Except RepoErr Unit × Mem :=
  let t := { t with kind := if t.kind = .unset then .tag else t.kind }
  if (m.tags.get? t.id).isSome ∨ m.tagConflict t then (.error .conflict, m)
  else (.ok (), { m with tags := m.tags.put { t with createdAt := orNow t.createdAt now } })

def tag (tenantID id : GoString) : Except RepoErr Tag :=
  match (m.tags.get? id).filter (fun t => t.tenantID = tenantID) with
  | some t => .ok t
  | none => .error .notFound

def getTag (tenantID id : GoString) : Except RepoErr Tag × Mem := (m.tag tenantID id, m)

def sortTags (ts : List Tag) : List Tag :=
  sortSlice (fun a b =>
    if a.kind ≠ b.kind then lessString a.kind.text b.kind.text
    else if toLower a.name ≠ toLower b.name then lessString (toLower a.name) (toLower b.name)
    else lessString a.id b.id) ts

def listTags (tenantID : GoString) (kind : Kind) : Except RepoErr (List Tag) × Mem :=
  (.ok (sortTags (m.tags.rows.filter (fun t => t.tenantID = tenantID ∧
    (kind = .unset ∨ t.kind = kind)))), m)

def updateTag (t : Tag) : Except RepoErr Unit × Mem :=
  match m.tag t.tenantID t.id with
  | .error e => (.error e, m)
  | .ok cur =>
    let t := { t with kind := cur.kind, createdAt := cur.createdAt }
    if m.tagConflict t then (.error .conflict, m) else (.ok (), { m with tags := m.tags.put t })

def deleteTag (tenantID id : GoString) : Except RepoErr Unit × Mem :=
  match m.tag tenantID id with
  | .error e => (.error e, m)
  | .ok _ =>
    (.ok (),
      { m with
        tags := m.tags.keep (fun t => t.id ≠ id),
        links := m.links.filter (fun l => l.2 ≠ id) })

/-- The tag of that kind and name, created under `id` when missing. -/
def ensureTagByName (id tenantID : GoString) (kind : Kind) (name : GoString) : Except RepoErr Tag × Mem :=
  let kind := if kind = .unset then .tag else kind
  match m.tags.rows.find? (fun t => t.tenantID = tenantID ∧ t.kind = kind ∧ equalFold t.name name) with
  | some t => (.ok t, m)
  | none =>
    let t : Tag := { id := id, tenantID := tenantID, kind := kind, name := name, createdAt := now }
    ((m.createTag now t).1.map fun _ => t, (m.createTag now t).2)

def checkTags (tenantID ticketID : GoString) (tagIDs : List GoString) : Except RepoErr Unit :=
  match m.ticket tenantID ticketID with
  | .error e => .error e
  | .ok _ =>
    if tagIDs.all (fun id => (m.tags.get? id).any (fun t => t.tenantID = tenantID)) then .ok ()
    else .error .notFound

def addLinks (ticketID : GoString) (tagIDs : List GoString) (links : List (GoString × GoString)) :
    List (GoString × GoString) :=
  tagIDs.foldl (fun ls id => if (ticketID, id) ∈ ls then ls else ls ++ [(ticketID, id)]) links

def addTicketTags (tenantID ticketID : GoString) (tagIDs : List GoString) : Except RepoErr Unit × Mem :=
  match m.checkTags tenantID ticketID tagIDs with
  | .error e => (.error e, m)
  | .ok () => (.ok (), { m with links := addLinks ticketID tagIDs m.links })

def tagsOf (tenantID ticketID : GoString) : List Tag :=
  sortTags ((m.links.filter (fun l => l.1 = ticketID)).filterMap
    (fun l => (m.tags.get? l.2).filter (fun t => t.tenantID = tenantID)))

def tagsForTickets (tenantID : GoString) (ticketIDs : List GoString) :
    Except RepoErr (List (GoString × List Tag)) × Mem :=
  (.ok (ticketIDs.filterMap fun tid =>
    if (m.tickets.get? tid).any (fun t => t.tenantID = tenantID) ∧ m.tagsOf tenantID tid ≠ [] then
      some (tid, m.tagsOf tenantID tid)
    else none), m)

end Tags

def sortRules (rs : List Rule) : List Rule :=
  sortSlice (fun a b =>
    if a.sortOrder ≠ b.sortOrder then decide (a.sortOrder < b.sortOrder)
    else if a.name ≠ b.name then lessString a.name b.name
    else lessString a.id b.id) rs

def createRule (r : Rule) : Except RepoErr Unit × Mem :=
  if (m.rules.get? r.id).isSome then (.error .conflict, m)
  else
    let r :=
      { r with
        createdAt := orNow r.createdAt now
        updatedAt := orNow r.updatedAt (orNow r.createdAt now)
        version := if r.version ≤ 0 then 1 else r.version
        matchMode := if r.matchMode = .unset then .all else r.matchMode }
    (.ok (), { m with rules := m.rules.put r })

def rule (tenantID id : GoString) : Except RepoErr Rule :=
  match (m.rules.get? id).filter (fun r => r.tenantID = tenantID) with
  | some r => .ok r
  | none => .error .notFound

def getRule (tenantID id : GoString) : Except RepoErr Rule × Mem := (m.rule tenantID id, m)

def listRules (tenantID : GoString) (enabledOnly : Bool) : Except RepoErr (List Rule) × Mem :=
  (.ok (sortRules (m.rules.rows.filter (fun r => r.tenantID = tenantID ∧
    (enabledOnly = false ∨ r.enabled)))), m)

def updateRule (r : Rule) : Except RepoErr Rule × Mem :=
  match m.rule r.tenantID r.id with
  | .error e => (.error e, m)
  | .ok cur =>
    let r :=
      { r with
        createdAt := cur.createdAt
        version := cur.version + 1
        updatedAt := now
        matchMode := if r.matchMode = .unset then .all else r.matchMode }
    (.ok r, { m with rules := m.rules.put r })

def deleteRule (tenantID id : GoString) : Except RepoErr Unit × Mem :=
  match m.rule tenantID id with
  | .error e => (.error e, m)
  | .ok _ => (.ok (), { m with rules := m.rules.keep (fun r => r.id ≠ id) })

section Mailboxes

variable [GoLibrary]

def normAddr (a : GoString) : GoString := toLower (trimSpace a)

def addressTaken (id address : GoString) : Bool :=
  m.mailboxes.rows.any fun x => x.id ≠ id ∧ x.address = address

def createMailbox (mb : Mailbox) : Except RepoErr Unit × Mem :=
  if (m.mailboxes.get? mb.id).isSome ∨ m.addressTaken mb.id (normAddr mb.address) then (.error .conflict, m)
  else
    let mb :=
      { mb with
        address := normAddr mb.address
        createdAt := orNow mb.createdAt now
        updatedAt := orNow mb.updatedAt (orNow mb.createdAt now) }
    (.ok (), { m with mailboxes := m.mailboxes.put mb })

/-- The row of a mailbox, seen by its own tenant only. -/
def mailbox (tenantID id : GoString) : Except RepoErr Mailbox :=
  match (m.mailboxes.get? id).filter (fun mb => mb.tenantID = tenantID) with
  | some mb => .ok mb
  | none => .error .notFound

def getMailbox (tenantID id : GoString) : Except RepoErr Mailbox × Mem := (m.mailbox tenantID id, m)

def listMailboxes (tenantID : GoString) : Except RepoErr (List Mailbox) × Mem :=
  (.ok (sortSlice (fun a b => lessString a.address b.address)
    (m.mailboxes.rows.filter (fun mb => mb.tenantID = tenantID))), m)

def updateMailbox (mb : Mailbox) : Except RepoErr Unit × Mem :=
  match m.mailbox mb.tenantID mb.id with
  | .error e => (.error e, m)
  | .ok cur =>
    if m.addressTaken mb.id (normAddr mb.address) then (.error .conflict, m)
    else
      let mb := { mb with address := normAddr mb.address, createdAt := cur.createdAt, updatedAt := now }
      (.ok (), { m with mailboxes := m.mailboxes.put mb })

/-- Refused while tickets refer to the mailbox, unless `force` detaches them. -/
def deleteMailbox (tenantID id : GoString) (force : Bool) : Except RepoErr Unit × Mem :=
  match m.mailbox tenantID id with
  | .error e => (.error e, m)
  | .ok _ =>
    if m.tickets.rows.any (fun t => t.mailboxID = id) ∧ force = false then (.error .notEmpty, m)
    else
      (.ok (), { m with
        tickets := m.tickets.amend
          (fun t => { t with mailboxID := if t.mailboxID = id then [] else t.mailboxID })
          (fun _ => rfl)
        mailboxes := m.mailboxes.keep (fun mb => mb.id ≠ id) })

/-- The routing lookup of the inbound edge sees the mailboxes of every tenant. -/
def routeMailbox (address : GoString) : Except RepoErr MailboxRoute × Mem :=
  match m.mailboxes.rows.find? (fun mb => mb.address = normAddr address ∧ normAddr address ≠ []) with
  | some mb =>
    (.ok ⟨mb.tenantID, mb.id, mb.displayName, mb.active, mb.autoAck, mb.autoAckTemplate⟩, m)
  | none => (.error .notFound, m)

end Mailboxes

def appendHistory (h : History) : Except RepoErr Unit × Mem :=
  match m.ticket h.tenantID h.ticketID with
  | .error e => (.error e, m)
  | .ok _ => (.ok (), { m with history := m.history ++ [{ h with createdAt := orNow h.createdAt now }] })

def allTickets (tenantID : GoString) : Except RepoErr (List Ticket) × Mem :=
  (.ok (sortSlice (fun a b => lessString a.id b.id)
    (m.tickets.rows.filter (fun t => t.tenantID = tenantID))), m)

end Mem

end TangraTicket.Store
