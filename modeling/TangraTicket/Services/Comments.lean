import TangraTicket.Services.Mail
import TangraTicket.Services.Tickets

/-!
The conversation of a ticket (`internal/comments`): internal notes and public replies.
-/

namespace TangraTicket.Services.Comments

open GoText Store CallProgram

def maxBody : ℕ := 2 ^ 20

def cleanBody (v : GoString) : Except Err GoString :=
  let v := trimSpace v
  if v = [] then .error (.validation "comments" "body" "required")
  else if v.length > maxBody ∨ ¬ validString v then
    .error (.validation "comments" "body" "too long or not UTF-8")
  else if hasControl v true then .error (.validation "comments" "body" "control characters")
  else .ok v

variable (d : Deps) (subj : Subjects)

def author (c : Comment) : Act Comment := do
  let c := { c with authorID := subj.actorID }
  if subj.isHuman then
    if d.agents then do
      match ← request (.lookup subj.tenantID subj.userID) with
      | .ok u => pure { c with authorKind := .agent, authorName := u.displayName }
      | .error _ => pure { c with authorKind := .agent, authorName := subj.userID }
    else pure { c with authorKind := .agent, authorName := subj.userID }
  else pure { c with authorKind := .system }

def commented (tenantID ticketID : GoString) : Act Unit := do
  match ← tryAsk (.getTicket tenantID ticketID) with
  | .ok t => emit d tenantID .commented t subj.historyActor
  | .error _ => pure ()

def addNote (ticketID body : GoString) : Attempt Comment := do
  let tenantID ← ofExcept (tenantOf subj)
  let body ← ofExcept (cleanBody body)
  let _ ← ask (.getTicket tenantID ticketID) mapErr
  let id ← newID
  let c ← author d subj
    { id := id, tenantID := tenantID, ticketID := ticketID, body := body, internal := true,
      delivery := .none }
  ask (.createComment c) mapErr
  let stored ← tryAsk (.getComment tenantID c.id)
  commented d subj tenantID ticketID
  pure (stored.toOption.getD c)

def ownMailbox (t : Ticket) : Attempt (Option Mailbox) :=
  if t.mailboxID = [] then pure none
  else do
    match ← tryAsk (.getMailbox t.tenantID t.mailboxID) with
    | .ok mb => pure (some mb)
    | .error .notFound => pure none
    | .error e => throw (.repo e)

def sender (t : Ticket) : Attempt Mailbox := do
  match ← ownMailbox t with
  | some mb => pure mb
  | none => do
    let list ← ask (.listMailboxes t.tenantID) .repo
    match list.find? (fun mb => Mailbox.active mb) with
    | some mb => pure mb
    | none => throw (.replyUnavailable "no mailbox to send from")

def withThread (t : Ticket) (out : OutMail) : OutMail :=
  { out with
    inReplyTo := if t.lastMessageID ≠ [] then t.lastMessageID else t.externalID
    references :=
      (if t.externalID ≠ [] then [t.externalID] else []) ++
        (if t.lastMessageID ≠ [] ∧ t.lastMessageID ≠ t.externalID then [t.lastMessageID] else []) }

/-- The mail of a reply to `t`, and the mailbox it leaves from. -/
def compose [GoLibrary] (t : Ticket) (body : GoString) : Attempt OutMail := do
  if t.requesterEmail = [] then throw (.replyUnavailable "the ticket has no requester address")
  else if d.mailer then do
    let mb ← sender t
    let domain := if Threading.domainOf mb.address = [] then d.mailDomain else Threading.domainOf mb.address
    let messageID ← Threading.messageID t.id domain
    let out := withThread t
      { fromAddress := mb.address, fromName := mb.displayName, toAddress := t.requesterEmail,
        toName := t.requesterName, subject := Threading.replySubject t.subject,
        text := Threading.appendReference body t.id, messageID := messageID }
    if Mailer.validate out then pure out else throw .unsafeHeader
  else throw (.replyUnavailable "outbound mail is not configured")

def reopen (t : Ticket) : Act Unit :=
  if (t.status = .resolved ∨ t.status = .closed) ∧ d.tickets then do
    let _ ← (Tickets.setStatusAs d subj t.id .open subj.historyActor).run
  else pure ()

/-- The comment is recorded before it is sent; its delivery state is set afterwards. -/
def reply [GoLibrary] (ticketID body : GoString) : Attempt Comment := do
  let tenantID ← ofExcept (tenantOf subj)
  let body ← ofExcept (cleanBody body)
  let t ← ask (.getTicket tenantID ticketID) mapErr
  let out ← compose d t body
  let id ← newID
  let c ← author d subj
    { id := id, tenantID := tenantID, ticketID := t.id, body := body, messageID := out.messageID,
      delivery := .none }
  ask (.createComment c) mapErr
  let sendErr ← request (.send out)
  let c := { c with delivery := if sendErr.isOk then .sent else .failed }
  let _ ← tryAsk (.setCommentDelivery tenantID c.id c.delivery)
  let stored ← tryAsk (.getComment tenantID c.id)
  let c := stored.toOption.getD c
  if sendErr.isOk then do
    reopen d subj t
    commented d subj tenantID t.id
    pure c
  else do
    commented d subj tenantID t.id
    throw (.deliveryFailed c)

def commentErr : RepoErr → Err
  | .notFound => .commentNotFound
  | e => .repo e

def delete (id : GoString) : Attempt Unit := do
  let tenantID ← ofExcept (tenantOf subj)
  let _ ← ask (.getComment tenantID id) commentErr
  let keys ← ask (.deleteComment tenantID id) commentErr
  if d.blobs then Tickets.deleteObjects keys else pure ()

end TangraTicket.Services.Comments
