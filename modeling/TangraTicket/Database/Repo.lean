import TangraTicket.Database.Schema
import TangraTicket.Store.MemStore

/-!
The transactions of `internal/repo/repodb/db.go` that write beside each other. Row-level security
restricts every statement to the rows of the transaction's tenant, which the conditions here spell
out; foreign keys are not subject to it. A text that is cast to a uuid and is none fails as a row
that is not found.
-/

namespace TangraTicket.Database

open GoText Store CallProgram ReadCommitted

/-- The canonical form of the uuid a text stands for. -/
class Uuids where
  parse : GoString → Option GoString
  ne_nil : ∀ s id, parse s = some id → id ≠ []

def isHex (b : UInt8) : Bool := 0x30 ≤ b ∧ b ≤ 0x39 ∨ 0x61 ≤ b ∧ b ≤ 0x66 ∨ 0x41 ≤ b ∧ b ≤ 0x46

def lowerHex (b : UInt8) : UInt8 := if 0x41 ≤ b ∧ b ≤ 0x46 then b + 0x20 else b

def groups (lengths : List ℕ) (s : GoString) : Bool :=
  match lengths with
  | [] => s = []
  | n :: ns => (s.take n).length = n ∧ (s.take n).all isHex ∧ (ns = [] ∨ (s.drop n).head? = some 0x2D) ∧
    groups ns (s.drop (if ns = [] then n else n + 1))

abbrev hyphenated : Uuids where
  parse s := if groups [8, 4, 4, 4, 12] s then some (s.map lowerHex) else none
  ne_nil s id h := by
    split_ifs at h with hs
    rintro rfl
    obtain rfl := List.map_eq_nil_iff.mp (Option.some.inj h)
    exact absurd hs (by decide)

-- the uuid whose digits are all the same
def uuid (d : UInt8) : GoString :=
  List.replicate 8 d ++ 0x2D :: (List.replicate 4 d ++ 0x2D :: (List.replicate 4 d ++ 0x2D ::
    (List.replicate 4 d ++ 0x2D :: List.replicate 12 d)))

def tenantUuid : GoString := uuid 0x31

def ticketUuid : GoString := uuid 0x32

variable {ξ α : Type}

abbrev Tx (ξ α : Type) := Sql schema ξ RepoErr α

abbrev Transaction (ξ α : Type) := Prog (Call schema ξ) Call.Answer (Except RepoErr α)

def mapErr : SqlErr → RepoErr
  | .uniqueViolation => .conflict
  | .foreignKeyViolation => .notEmpty
  | .failure => .failure

def mapWriteErr : SqlErr → RepoErr
  | .foreignKeyViolation => .notFound
  | e => mapErr e

def affected (n : ℕ) : Tx ξ Unit := if n = 0 then throw .notFound else pure ()

/-- `Store.Tx`. -/
def tx (x : ξ) (fn : Tx ξ α) : Transaction ξ α := transact (fun _ => .failure) x fn

def cast [Uuids] (s : GoString) : Tx ξ GoString :=
  match Uuids.parse s with
  | some id => pure id
  | none => throw .notFound

def castNull [Uuids] (s : GoString) : Tx ξ GoString := if s = [] then pure [] else cast s

section Conditions

variable (T id : GoString)

def mailboxes : Row → Bool
  | .mailbox m => m.tenantID = T && m.id = id
  | _ => false

def tickets : Row → Bool
  | .ticket t => t.tenantID = T && t.id = id
  | _ => false

def ticketsOfMailbox : Row → Bool
  | .ticket t => t.tenantID = T && t.mailboxID = id
  | _ => false

def comments : Row → Bool
  | .comment c => c.tenantID = T && c.id = id
  | _ => false

def commentsOf (ticketID : GoString) : Row → Bool
  | .comment c => c.tenantID = T && c.id = id && c.ticketID = ticketID
  | _ => false

def attachmentsOfTicket : Row → Bool
  | .attachment a => a.tenantID = T && a.ticketID = id
  | _ => false

def attachmentsOfComment : Row → Bool
  | .attachment a => a.tenantID = T && a.commentID = id
  | _ => false

def tagsAmong (ids : List GoString) : Row → Bool
  | .tag g => g.tenantID = T && g.id ∈ ids
  | _ => false

def linksOf : Row → Bool
  | .link l => l.tenantID = T && l.ticketID = id
  | _ => false

end Conditions

def storageKey? : Row → Option GoString
  | .attachment a => some a.storageKey
  | _ => none

def collectKeys (x : ξ) (p : Row → Bool) : Tx ξ (List GoString) := do
  return (← select mapErr x p).filterMap storageKey?

def count (x : ξ) (p : Row → Bool) : Tx ξ ℕ := do
  return (← select mapErr x p).length

def onTicket (f : Ticket → Ticket) (hf : ∀ t, (f t).id = t.id ∧ (f t).tenantID = t.tenantID ∧
    (f t).mailboxID = t.mailboxID) : schema.Change where
  apply
    | .ticket t => .ticket (f t)
    | r => r
  key_apply r := by
    cases r with
    | ticket t =>
      obtain ⟨hid, htenant, -⟩ := hf t
      change Key.ticket (f t).tenantID (f t).id = .ticket t.tenantID t.id
      rw [hid, htenant]
    | _ => rfl
  parents_apply r := by
    cases r with
    | ticket t =>
      obtain ⟨-, htenant, hmailbox⟩ := hf t
      change (Row.ticket (f t)).parents ⊆ (Row.ticket t).parents
      simp only [Row.parents, Row.cascades, Row.detaches, htenant, hmailbox, List.nil_append]
      exact List.Subset.refl _
    | _ => exact List.Subset.refl _

variable [Uuids]

def orNow (now t : Time) : Time := if t = 0 then now else t

/-- The row `CreateTicket` inserts, under the ids its texts stand for. -/
def ticketRow (now : Time) (t : Ticket) (T id mailboxID : GoString) : Ticket :=
  let created := orNow now t.createdAt
  { t with
    id := id, tenantID := T, mailboxID := mailboxID, createdAt := created
    updatedAt := if t.updatedAt = 0 then created else t.updatedAt
    status := if t.status = .unset then .open else t.status
    priority := if t.priority = .unset then .normal else t.priority
    source := if t.source = .unset then .manual else t.source }

def createTicket (x : ξ) (now : Time) (t : Ticket) : Transaction ξ Unit :=
  tx x do
    let T ← cast t.tenantID
    let id ← cast t.id
    let mailboxID ← castNull t.mailboxID
    insertInto mapWriteErr x [.ticket (ticketRow now t T id mailboxID)] false

def deleteTicket (x : ξ) (tenantID id : GoString) : Transaction ξ (List GoString) :=
  tx x do
    let T ← cast tenantID
    let id ← cast id
    let keys ← collectKeys x (attachmentsOfTicket T id)
    let n ← deleteWhere mapErr x (tickets T id)
    affected n
    return keys

def bump (at' : Time) (c : Comment) : schema.Change :=
  onTicket (fun t => { t with
    commentCount := t.commentCount + 1, updatedAt := at'
    lastMessageID := if c.messageID ≠ [] ∧ ¬ c.internal then c.messageID else t.lastMessageID })
    fun _ => ⟨rfl, rfl, rfl⟩

def commentRow (now : Time) (c : Comment) (T ticketID id : GoString) : Comment :=
  { c with
    id := id, tenantID := T, ticketID := ticketID, createdAt := orNow now c.createdAt
    delivery := if c.delivery = .unset then .none else c.delivery }

def createComment (x : ξ) (now : Time) (c : Comment) : Transaction ξ Unit :=
  tx x do
    let T ← cast c.tenantID
    let ticketID ← cast c.ticketID
    let n ← updateWhere mapErr x (tickets T ticketID) (bump (orNow now c.createdAt) c)
    affected n
    let id ← cast c.id
    insertInto mapWriteErr x [.comment (commentRow now c T ticketID id)] false

def unbump : schema.Change :=
  onTicket (fun t => { t with commentCount := t.commentCount - 1 }) fun _ => ⟨rfl, rfl, rfl⟩

def deleteComment (x : ξ) (tenantID id : GoString) : Transaction ξ (List GoString) :=
  tx x do
    let T ← cast tenantID
    let id ← cast id
    match ← select mapErr x (comments T id) with
    | .comment c :: _ =>
      let keys ← collectKeys x (attachmentsOfComment T id)
      let _ ← deleteWhere mapErr x (comments T id)
      let _ ← updateWhere mapErr x (tickets T c.ticketID) unbump
      return keys
    | _ => throw .notFound

def attachmentRow (now : Time) (a : Attachment) (T id ticketID commentID : GoString) : Attachment :=
  { a with
    id := id, tenantID := T, ticketID := ticketID, commentID := commentID
    contentType := if a.contentType = [] then goString "application/octet-stream" else a.contentType
    createdAt := orNow now a.createdAt }

def createAttachment (x : ξ) (now : Time) (a : Attachment) : Transaction ξ Unit :=
  tx x do
    let T ← cast a.tenantID
    let _ ← if a.commentID ≠ [] then do
        let commentID ← cast a.commentID
        let ticketID ← cast a.ticketID
        let n ← count x (commentsOf T commentID ticketID)
        affected n
      else pure ()
    let id ← cast a.id
    let ticketID ← cast a.ticketID
    let commentID ← castNull a.commentID
    insertInto mapWriteErr x [.attachment (attachmentRow now a T id ticketID commentID)] false

def castAll : List GoString → Tx ξ (List GoString)
  | [] => pure []
  | s :: ss => do
    let id ← cast s
    return id :: (← castAll ss)

def checkTicketAndTags (x : ξ) (T ticketID : GoString) (tagIDs : List GoString) : Tx ξ Unit := do
  let n ← count x (tickets T ticketID)
  if n = 0 then throw .notFound
  else if tagIDs.length = 0 then return
  else
    let ids ← castAll tagIDs
    let n ← count x (tagsAmong T ids)
    if n ≠ tagIDs.length then throw .notFound

def linkTags (x : ξ) (tenantID ticketID : GoString) (tagIDs : List GoString) (replace : Bool) :
    Transaction ξ Unit :=
  let tagIDs := tagIDs.eraseDups
  tx x do
    let T ← cast tenantID
    let ticketID ← cast ticketID
    checkTicketAndTags x T ticketID tagIDs
    let _ ← if replace then deleteWhere (fun _ => RepoErr.failure) x (linksOf T ticketID) else pure 0
    if tagIDs.length = 0 then return
    else
      let ids ← castAll tagIDs
      insertInto mapWriteErr x
        (ids.map fun tagID => .link { tenantID := T, ticketID := ticketID, tagID := tagID }) true

def setTicketTags (x : ξ) (tenantID ticketID : GoString) (tagIDs : List GoString) : Transaction ξ Unit :=
  linkTags x tenantID ticketID tagIDs true

def addTicketTags (x : ξ) (tenantID ticketID : GoString) (tagIDs : List GoString) : Transaction ξ Unit :=
  linkTags x tenantID ticketID tagIDs false

def deleteMailbox (x : ξ) (tenantID id : GoString) (force : Bool) : Transaction ξ Unit :=
  tx x do
    let T ← cast tenantID
    let id ← cast id
    let n ← count x (mailboxes T id)
    if n = 0 then throw .notFound
    else
      let refs ← count x (ticketsOfMailbox T id)
      if refs > 0 && !force then throw .notEmpty
      else
        let n ← deleteWhere mapErr x (mailboxes T id)
        affected n

end TangraTicket.Database
