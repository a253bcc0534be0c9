import TangraTicket.Services.Tickets

/-!
Import of a backup document (`internal/backup`): validation, fresh ids for a foreign document, the
wipe of a full restore, and the row-by-row load under the skip or overwrite policy.
-/

namespace TangraTicket.Services.Backup

open GoText Store CallProgram

def schemaVersion : ℤ := 1

def maxRows : ℕ := 200000

/-- Any text but `overwrite` is read as `skip`. -/
inductive Mode
  | skip | overwrite
deriving DecidableEq

inductive Collection
  | tags | mailboxes | rules | tickets | tagLinks | comments | history | attachments
deriving DecidableEq

def Collection.name : Collection → GoString
  | .tags => "tags"
  | .mailboxes => "mailboxes"
  | .rules => "rules"
  | .tickets => "tickets"
  | .tagLinks => "tag_links"
  | .comments => "comments"
  | .history => "history"
  | .attachments => "attachments"

structure TicketRow where
  ticket : Ticket
  bodyHTML : GoString := []

structure AttachmentRow where
  attachment : Attachment
  storageKey : GoString

structure Document where
  schemaVersion : ℤ := 1
  tenantID : GoString := []
  tags : List Tag := []
  mailboxes : List Mailbox := []
  rules : List Rule := []
  tickets : List TicketRow := []
  tagLinks : List TagLink := []
  comments : List Comment := []
  history : List History := []
  attachments : List AttachmentRow := []

structure Options where
  mode : Mode := .skip
  tenantID : GoString := []
  full : Bool := false

structure Result where
  tenantID : GoString := []
  mode : Mode := .skip
  imported : Collection → ℕ := fun _ => 0
  skipped : Collection → ℕ := fun _ => 0
  deleted : ℕ := 0

def isHex (b : UInt8) : Bool :=
  (0x30 ≤ b && b ≤ 0x39) || (0x61 ≤ b && b ≤ 0x66) || (0x41 ≤ b && b ≤ 0x46)

def isUUID (s : GoString) : Bool :=
  (split 0x2D s).map (·.length) = [8, 4, 4, 4, 12] && s.all (fun b => isHex b || b == 0x2D)

def target (subj : Subjects) (tenantID : GoString) : Except Err GoString :=
  if subj.tenantID = [] then .error (.forbidden "tenant mismatch")
  else if tenantID = [] ∨ tenantID = subj.tenantID then .ok subj.tenantID
  else if subj.isPlatformAdmin = false then .error (.forbidden "platform-admin required")
  else if isUUID tenantID then .ok tenantID
  else .error (.badSchema "tenant_id")

/-- Required ids are UUIDs, optional ones empty or UUIDs. -/
def ids (what : GoString) (required optional : List GoString) : Except Err Unit :=
  if ¬ required.all isUUID then .error (.badSchema (what ++ goString " id"))
  else if ¬ optional.all (fun v => v = [] || isUUID v) then
    .error (.badSchema (what ++ goString " reference"))
  else .ok ()

def require (c : Prop) [Decidable c] (what : GoString) : Except Err Unit :=
  if c then .ok () else .error (.badSchema what)

def sizes (b : Document) : List (Collection × ℕ) :=
  [(.tags, b.tags.length), (.mailboxes, b.mailboxes.length), (.rules, b.rules.length),
    (.tickets, b.tickets.length), (.tagLinks, b.tagLinks.length), (.comments, b.comments.length),
    (.history, b.history.length), (.attachments, b.attachments.length)]

def validate (b : Document) : Except Err Unit := do
  require (b.schemaVersion = schemaVersion) "schema version"
  (sizes b).forM fun (c, n) => if n > maxRows then .error (.tooLarge c.name n) else .ok ()
  require (b.tenantID = [] ∨ isUUID b.tenantID) "tenant_id"
  b.tags.forM fun t => do
    ids "tag" [t.id] []
    require (trimSpace t.name ≠ [] ∧ validKind t.kind) "tag name/kind"
  b.mailboxes.forM fun m => do
    ids "mailbox" [m.id] []
    require (contains m.address "@") "mailbox address"
  b.rules.forM fun r => do
    ids "rule" [r.id] []
    require (trimSpace r.name ≠ []) "rule name"
  b.tickets.forM fun t => do
    ids "ticket" [t.ticket.id] [t.ticket.mailboxID]
    require ((t.ticket.status = .unset ∨ validStatus t.ticket.status) ∧
      (t.ticket.priority = .unset ∨ validPriority t.ticket.priority)) "ticket status/priority"
  b.tagLinks.forM fun l => ids "tag link" [l.ticketID, l.tagID] []
  b.comments.forM fun c => ids "comment" [c.id, c.ticketID] []
  b.history.forM fun h => ids "history" [h.id, h.ticketID] []
  b.attachments.forM fun a => ids "attachment" [a.attachment.id, a.attachment.ticketID]
    [a.attachment.commentID]

abbrev Fresh := List (GoString × GoString)

def freshID (old : GoString) (fresh : Fresh) : Act (GoString × Fresh) :=
  if old = [] then pure ([], fresh)
  else
    match fresh.find? (fun p => p.1 = old) with
    | some p => pure (p.2, fresh)
    | none => do
      let n ← newID
      pure (n, fresh ++ [(old, n)])

def remapRows {α : Type} (f : α → Fresh → Act (α × Fresh)) : List α → Fresh → Act (List α × Fresh)
  | [], fresh => pure ([], fresh)
  | x :: xs, fresh => do
    let (y, fresh) ← f x fresh
    let (ys, fresh) ← remapRows f xs fresh
    pure (y :: ys, fresh)

def remap (b : Document) : Act Document := do
  let (tags, fresh) ← remapRows (fun (t : Tag) fr => do
    let (id, fr) ← freshID t.id fr
    pure ({ t with id := id }, fr)) b.tags []
  let (mailboxes, fresh) ← remapRows (fun (m : Mailbox) fr => do
    let (id, fr) ← freshID m.id fr
    pure ({ m with id := id }, fr)) b.mailboxes fresh
  let (rules, fresh) ← remapRows (fun (r : Rule) fr => do
    let (id, fr) ← freshID r.id fr
    pure ({ r with id := id }, fr)) b.rules fresh
  let (tickets, fresh) ← remapRows (fun (t : TicketRow) fr => do
    let (id, fr) ← freshID t.ticket.id fr
    let (mailboxID, fr) ← freshID t.ticket.mailboxID fr
    pure ({ t with ticket := { t.ticket with id := id, mailboxID := mailboxID } }, fr)) b.tickets fresh
  let (tagLinks, fresh) ← remapRows (fun (l : TagLink) fr => do
    let (ticketID, fr) ← freshID l.ticketID fr
    let (tagID, fr) ← freshID l.tagID fr
    pure ({ l with ticketID := ticketID, tagID := tagID }, fr)) b.tagLinks fresh
  let (comments, fresh) ← remapRows (fun (c : Comment) fr => do
    let (id, fr) ← freshID c.id fr
    let (ticketID, fr) ← freshID c.ticketID fr
    pure ({ c with id := id, ticketID := ticketID }, fr)) b.comments fresh
  let (history, fresh) ← remapRows (fun (h : History) fr => do
    let (id, fr) ← freshID h.id fr
    let (ticketID, fr) ← freshID h.ticketID fr
    pure ({ h with id := id, ticketID := ticketID }, fr)) b.history fresh
  let (attachments, _) ← remapRows (fun (a : AttachmentRow) fr => do
    let (id, fr) ← freshID a.attachment.id fr
    let (ticketID, fr) ← freshID a.attachment.ticketID fr
    let (commentID, fr) ← freshID a.attachment.commentID fr
    let att := { a.attachment with id := id, ticketID := ticketID, commentID := commentID }
    pure ({ a with attachment := att }, fr)) b.attachments fresh
  pure { b with
    tags := tags, mailboxes := mailboxes, rules := rules, tickets := tickets, tagLinks := tagLinks,
    comments := comments, history := history, attachments := attachments }

/-- One import's state: the result so far and the tickets it inserted. -/
structure Progress where
  res : Result
  created : List GoString := []

namespace Progress

variable (s : Progress) (c : Collection) (n : ℕ)

def imported : Progress :=
  { s with res := { s.res with imported := Function.update s.res.imported c (s.res.imported c + n) } }

def skipped : Progress :=
  { s with res := { s.res with skipped := Function.update s.res.skipped c (s.res.skipped c + n) } }

end Progress

/-- An import that fails keeps the result reached so far. -/
abbrev Loading (α : Type) := Fallible Call Answer (Err × Result) α

/-- Make a store call for its success only. -/
def done (q : StoreCall) : Act (Except RepoErr Unit) := do
  let r ← tryAsk q
  pure (r.map fun _ => ())

def settle (c : Collection) (s : Progress) : Except RepoErr Unit → Loading Progress
  | .ok () => pure (s.imported c 1)
  | .error .conflict => pure (s.skipped c 1)
  | .error .notFound => pure (s.skipped c 1)
  | .error e => throw (.repo e, s.res)

/-- The skip/overwrite policy for one row; `true` when the row was inserted. -/
def upsert (mode : Mode) (c : Collection) (present create update : Act (Except RepoErr Unit))
    (s : Progress) :
    Loading (Bool × Progress) := do
  match ← present with
  | .ok () =>
    if mode = .overwrite then do
      let s ← settle c s (← update)
      pure (false, s)
    else pure (false, s.skipped c 1)
  | .error .notFound => do
    let r ← create
    let s ← settle c s r
    pure (r.isOk, s)
  | .error e => throw (.repo e, s.res)

def child (c : Collection) (present create : Act (Except RepoErr Unit)) (s : Progress) :
    Loading Progress := do
  match ← present with
  | .ok () => pure (s.skipped c 1)
  | .error .notFound => settle c s (← create)
  | .error e => throw (.repo e, s.res)

section Load

variable (tgt : GoString) (mode : Mode)

def loadTag (s : Progress) (t : Tag) : Loading Progress := do
  let t := { t with tenantID := tgt }
  let (_, s) ← upsert mode .tags (done (.getTag tgt t.id)) (done (.createTag t)) (done (.updateTag t)) s
  pure s

def loadMailbox [GoLibrary] (s : Progress) (m : Mailbox) : Loading Progress := do
  let m := { m with tenantID := tgt, address := toLower (trimSpace m.address) }
  let (_, s) ← upsert mode .mailboxes (done (.getMailbox tgt m.id)) (done (.createMailbox m))
    (done (.updateMailbox m)) s
  pure s

def loadRule (s : Progress) (r : Rule) : Loading Progress := do
  let r := { r with tenantID := tgt }
  let (_, s) ← upsert mode .rules (done (.getRule tgt r.id)) (done (.createRule r)) (done (.updateRule r)) s
  pure s

def overwrittenAt (t : Ticket) : Act Time := if t.updatedAt = 0 then clock else pure t.updatedAt

def overwriteStatus (t : Ticket) (at_ : Time) : Act (Except RepoErr Unit) :=
  if t.status = .unset then pure (.ok ()) else done (.setStatus tgt t.id t.status at_)

def overwriteTicket (t : Ticket) : Act (Except RepoErr Unit) := do
  let at_ ← overwrittenAt t
  let priority := if t.priority = .unset then none else some t.priority
  match ← done (.updateTicket tgt t.id ⟨some t.subject, some t.description, priority⟩ at_) with
  | .error e => pure (.error e)
  | .ok () =>
    match ← overwriteStatus tgt t at_ with
    | .error e => pure (.error e)
    | .ok () => done (.setAssignee tgt t.id t.assigneeID t.assigneeName at_)

def importedTicket (known : List GoString) (row : TicketRow) : Ticket :=
  { row.ticket with
    tenantID := tgt
    bodyHTML := row.bodyHTML
    mailboxID := if row.ticket.mailboxID ∈ known then row.ticket.mailboxID else []
    subject := if trimSpace row.ticket.subject = [] then goString "(no subject)" else row.ticket.subject
    commentCount := 0
    lastMessageID := [] }

def loadTicket (known : List GoString) (s : Progress) (row : TicketRow) : Loading Progress := do
  let t := importedTicket tgt known row
  let (created, s) ← upsert mode .tickets (done (.getTicket tgt t.id)) (done (.createTicket t))
    (overwriteTicket tgt t) s
  pure (if created then { s with created := t.id :: s.created } else s)

def loadTickets (rows : List TicketRow) (s : Progress) : Loading Progress := do
  match ← tryAsk (.listMailboxes tgt) with
  | .error e => throw (.repo e, s.res)
  | .ok mbs => rows.foldlM (loadTicket tgt mode (List.map Mailbox.id mbs)) s

def newLinks (linked : List GoString) : List GoString → List GoString × ℕ
  | [] => ([], 0)
  | g :: gs =>
    if g ∈ linked then ((newLinks linked gs).1, (newLinks linked gs).2 + 1)
    else (g :: (newLinks (g :: linked) gs).1, (newLinks (g :: linked) gs).2)

def loadLinksOf (rows : List TagLink) (have_ : List (GoString × List Tag)) (s : Progress) (tid : GoString) :
    Loading Progress := do
  let wanted := (rows.filter (fun l => l.ticketID = tid)).map (·.tagID)
  let (add, known) := newLinks ((Tickets.tagsIn have_ tid).map (·.id)) wanted
  let s := s.skipped .tagLinks known
  if add = [] then pure s
  else do
    match ← tryAsk (.addTicketTags tgt tid add) with
    | .ok _ => pure (s.imported .tagLinks add.length)
    | .error .notFound => pure (s.skipped .tagLinks add.length)
    | .error .conflict => pure (s.skipped .tagLinks add.length)
    | .error e => throw (.repo e, s.res)

def linkOrder (rows : List TagLink) : List GoString :=
  rows.foldl (fun order l => if l.ticketID ∈ order then order else order ++ [l.ticketID]) []

def loadLinks (rows : List TagLink) (s : Progress) : Loading Progress :=
  if linkOrder rows = [] then pure s
  else do
    match ← tryAsk (.tagsForTickets tgt (linkOrder rows)) with
    | .error e => throw (.repo e, s.res)
    | .ok have_ => (linkOrder rows).foldlM (loadLinksOf tgt rows have_) s

def loadComment (s : Progress) (c : Comment) : Loading Progress := do
  let c := { c with tenantID := tgt }
  child .comments (done (.getComment tgt c.id)) (done (.createComment c)) s

def loadHistory (s : Progress) (h : History) : Loading Progress :=
  if h.ticketID ∈ s.created then do
    settle .history s (← done (.appendHistory { h with tenantID := tgt }))
  else pure (s.skipped .history 1)

def loadAttachment (s : Progress) (a : AttachmentRow) : Loading Progress :=
  let own := hasPrefix a.storageKey (goString "tenants/" ++ tgt ++ goString "/")
  if own = false ∨ contains a.storageKey ".." then pure (s.skipped .attachments 1)
  else do
    let row := { a.attachment with tenantID := tgt, storageKey := a.storageKey }
    child .attachments (done (.getAttachment tgt row.ticketID row.id)) (done (.createAttachment row)) s

/-- `importer.run`. -/
def load [GoLibrary] (b : Document) (s : Progress) : Loading Progress := do
  let s ← b.tags.foldlM (loadTag tgt mode) s
  let s ← b.mailboxes.foldlM (loadMailbox tgt mode) s
  let s ← b.rules.foldlM (loadRule tgt mode) s
  let s ← loadTickets tgt mode b.tickets s
  let s ← loadLinks tgt b.tagLinks s
  let s ← b.comments.foldlM (loadComment tgt) s
  let s ← b.history.foldlM (loadHistory tgt) s
  b.attachments.foldlM (loadAttachment tgt) s

end Load

section Wipe

variable (d : Deps) (tgt : GoString)

def wipeRow (q : StoreCall) (n : ℕ) : Fallible Call Answer (Err × ℕ) ℕ := do
  match ← done q with
  | .ok () => pure (n + 1)
  | .error .notFound => pure (n + 1)
  | .error e => throw (.repo e, n)

def wipeTicket (kept : List GoString) (n : ℕ) (t : Ticket) : Fallible Call Answer (Err × ℕ) ℕ := do
  match ← tryAsk (.deleteTicket tgt t.id) with
  | .ok keys => do
    if d.blobs then Tickets.deleteObjects (List.filter (fun k => k ∉ kept) keys) else pure ()
    pure (n + 1)
  | .error .notFound => pure (n + 1)
  | .error e => throw (.repo e, n)

def listing (q : StoreCall) (n : ℕ) : Fallible Call Answer (Err × ℕ) q.Value := do
  match ← tryAsk q with
  | .ok rows => pure rows
  | .error e => throw (.repo e, n)

/-- Every record of the tenant; objects the document refers to again are kept. -/
def wipe (b : Document) : Fallible Call Answer (Err × ℕ) ℕ := do
  let tks ← listing (.allTickets tgt) 0
  let n ← List.foldlM (wipeTicket d tgt (b.attachments.map (·.storageKey))) 0 tks
  let rules ← listing (.listRules tgt) n
  let n ← List.foldlM (fun n (r : Rule) => wipeRow (.deleteRule tgt r.id) n) n rules
  let tags ← listing (.listTags tgt .unset) n
  let n ← List.foldlM (fun n (t : Tag) => wipeRow (.deleteTag tgt t.id) n) n tags
  let mbs ← listing (.listMailboxes tgt) n
  List.foldlM (fun n (m : Mailbox) => wipeRow (.deleteMailbox tgt m.id true) n) n mbs

end Wipe

def localized (tgt : GoString) (b : Document) : Act Document := if b.tenantID ≠ tgt then remap b else pure b

def cleared (d : Deps) (tgt : GoString) (full : Bool) (b : Document) (res : Result) : Loading ℕ :=
  if full then ExceptT.adapt (fun (e : Err × ℕ) => (e.1, { res with deleted := e.2 }))
    (wipe d tgt b) else pure 0

/-- `Service.Import`. -/
def importDocument [GoLibrary] (d : Deps) (subj : Subjects) (b : Document) (opts : Options) :
    Loading Result := do
  match target subj opts.tenantID with
  | .error e => throw (e, {})
  | .ok tgt =>
    if opts.full ∧ subj.isPlatformAdmin = false then throw (.forbidden "platform-admin required", {})
    else
      match validate b with
      | .error e => throw (e, {})
      | .ok () => do
        let res : Result := { tenantID := tgt, mode := opts.mode }
        let b ← localized tgt b
        let deleted ← cleared d tgt opts.full b res
        let s ← load tgt opts.mode b { res := { res with deleted := deleted } }
        pure s.res

end TangraTicket.Services.Backup

namespace TangraTicket.Services

open GoText

-- the UUID whose digits are all `b`
def uniformID (b : UInt8) : GoString :=
  List.intercalate [0x2D] ([8, 4, 4, 4, 12].map fun n => List.replicate n b)

end TangraTicket.Services
