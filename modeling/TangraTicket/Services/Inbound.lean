import TangraTicket.Services.Rules

/-!
The inbound mail edge (`internal/inbound`) from a routed message on: duplicates, threading, triage,
creation and the acknowledgement.
-/

namespace TangraTicket.Services.Inbound

open GoText Store CallProgram

inductive Outcome
  | created | threaded | duplicate | dropped
deriving DecidableEq

/-- The answer to an accepted delivery. -/
structure Receipt where
  outcome : Outcome
  ticketID : GoString
deriving DecidableEq

def createdByInbound : GoString := "inbound-mail"

def discard (staged : List Attachment) : Act Unit := Tickets.deleteObjects (staged.map (·.storageKey))

/-- Store every attachment object under the ticket; on a failure those already stored are removed again. -/
def upload (tenantID ticketID : GoString) :
    List MailAttachment → List Attachment → Attempt (List Attachment)
  | [], out => pure out
  | a :: as, out => do
    let id ← newID
    let key := attachmentKey tenantID ticketID id
    match ← request (.putObject key a.data a.contentType) with
    | .ok sum =>
      upload tenantID ticketID as (out ++ [
        { id := id, tenantID := tenantID, ticketID := ticketID, filename := a.filename,
          contentType := a.contentType, size := a.data.length, contentID := a.contentID,
          inline := a.inline, storageKey := key, checksum := sum }])
    | .error _ => do
      discard out
      throw (.retry .attachmentUpload)

/-- Write the attachment rows; a row that cannot be written takes its object with it. -/
def record (commentID : GoString) : List Attachment → Act Unit
  | [] => pure ()
  | a :: as => do
    match ← tryAsk (.createAttachment { a with commentID := commentID }) with
    | .ok _ => record commentID as
    | .error _ => do
      discard [a]
      record commentID as

def skippedLine [GoLibrary] (s : Skipped) : GoString :=
  goString "Attachment " ++ GoLibrary.quote s.filename ++ goString " (" ++ decimal s.size ++
    goString " bytes) was not stored: it exceeds the size limit.\n"

def truncatedLine : GoString :=
  "Some parts of this message were not processed: it exceeds the MIME part or nesting limit.\n"

def noteBody [GoLibrary] (msg : Message) : GoString :=
  trimSpace (msg.skipped.flatMap skippedLine ++ (if msg.truncated then truncatedLine else []))

def note [GoLibrary] (tenantID ticketID : GoString) (msg : Message) : Act Unit :=
  if msg.skipped.isEmpty ∧ msg.truncated = false then pure ()
  else do
    let id ← newID
    let _ ← tryAsk (.createComment
      { id := id, tenantID := tenantID, ticketID := ticketID, body := noteBody msg, internal := true,
        authorKind := .system, authorName := "Inbound mail", delivery := .none })

def duplicate (tenantID msgID : GoString) : Attempt (Option GoString) :=
  if msgID = [] then pure none
  else do
    match ← tryAsk (.findCommentByMessageID tenantID msgID) with
    | .ok c => pure (some (Comment.ticketID c))
    | .error .notFound => do
      match ← tryAsk (.findTicketByExternalID tenantID msgID) with
      | .ok t => pure (some (Ticket.id t))
      | .error .notFound => pure none
      | .error e => throw (.retry (.repo e))
    | .error e => throw (.retry (.repo e))

variable (d : Deps) (subj : Subjects)

def reopen (t : Ticket) : Act Ticket :=
  if (t.status = .resolved ∨ t.status = .closed) ∧ d.tickets then do
    match ← (Tickets.setStatusAs d subj t.id .open .inbound).run with
    | .ok v => pure v.ticket
    | .error _ => pure t
  else pure t

def replied [GoLibrary] (ticketID commentID : GoString) (msg : Message) (staged : List Attachment) :
    Act Unit := do
  record commentID staged
  note subj.tenantID ticketID msg
  match ← tryAsk (.getTicket subj.tenantID ticketID) with
  | .ok t => do
    let t ← reopen d subj t
    emit d subj.tenantID .requesterReplied t subj.historyActor
  | .error _ => pure ()

/-- `Handler.reply`: append a requester reply to the ticket the message was matched to. -/
def reply [GoLibrary] (ticketID : GoString) (msg : Message) : Attempt Receipt := do
  let staged ← upload subj.tenantID ticketID msg.attachments []
  let id ← newID
  let c : Comment :=
    { id := id, tenantID := subj.tenantID, ticketID := ticketID,
      body := if msg.text = [] then "(empty message)" else msg.text, authorKind := .requester,
      authorName := msg.fromName, authorEmail := msg.fromEmail, messageID := msg.messageID,
      delivery := .none }
  match ← tryAsk (.createComment c) with
  | .ok _ => do
    replied d subj ticketID c.id msg staged
    pure ⟨.threaded, ticketID⟩
  | .error e => do
    discard staged
    match e with
    | .conflict => pure ⟨.duplicate, ticketID⟩
    | .notFound => throw .ticketGone
    | e => throw (.retry (.repo e))

def ackAuthorName : GoString := "Auto-acknowledgement"

def namePlaceholder : GoString := "\x7b\x7bname\x7d\x7d"

def greetingPlaceholder : GoString := "\x7b\x7bgreeting\x7d\x7d"

def defaultAck : GoString :=
  goString "Hello" ++ greetingPlaceholder ++
    goString ",\n\nThank you for contacting support. We have received your request and our team " ++
    goString "will get back to you as soon as possible.\n\nYou can simply reply to this email to add more information."

def ackBody (template name ticketID : GoString) : GoString :=
  let name := trimSpace name
  let body :=
    if trimSpace template = [] then
      replaceAll defaultAck greetingPlaceholder (if name ≠ [] then goString " " ++ name else [])
    else replaceAll template namePlaceholder name
  if contains body (Threading.referenceLine ticketID) then body else Threading.withReference body ticketID

section Ack

variable [GoLibrary]

/-- Whether the acknowledgement of `t` is suppressed; the last check asks the store. -/
def ackSuppressed (route : MailboxRoute) (recipient : GoString) (msg : Message) (t : Ticket) : Act Bool :=
  let to_ := toLower (trimSpace t.requesterEmail)
  if route.autoAck = false ∨ d.mailer = false ∨ msg.isAuto ∨ isDaemonSender to_ ∨ ¬ contains to_ "@" ∨
      equalFold to_ recipient then pure true
  else do
    let r ← tryAsk (.routeMailbox to_)
    pure r.isOk

def ackMail (route : MailboxRoute) (recipient : GoString) (t : Ticket) (messageID : GoString) : OutMail :=
  { fromAddress := recipient, fromName := route.displayName, toAddress := trimSpace t.requesterEmail,
    toName := t.requesterName, subject := Threading.replySubject t.subject,
    text := ackBody route.autoAckTemplate t.requesterName t.id, messageID := messageID, autoReply := true,
    inReplyTo := t.externalID, references := if t.externalID ≠ [] then [t.externalID] else [] }

def withoutThread (out : OutMail) : OutMail :=
  if ¬ Mailer.validate out ∧ out.inReplyTo ≠ [] then { out with inReplyTo := [], references := [] } else out

def ackComment (t : Ticket) (out : OutMail) (id : GoString) : Comment :=
  { id := id, tenantID := t.tenantID, ticketID := t.id, body := out.text, authorKind := .system,
    authorID := subj.actorID, authorName := ackAuthorName, messageID := out.messageID, delivery := .none }

/-- The part of `acknowledge` behind the guards: the comment is recorded, then the mail is sent. -/
def sendAck (route : MailboxRoute) (recipient : GoString) (t : Ticket) : Act Unit := do
  let domain := if Threading.domainOf recipient = [] then d.mailDomain else Threading.domainOf recipient
  let messageID ← Threading.messageID t.id domain
  let out := withoutThread (ackMail route recipient t messageID)
  if Mailer.validate out then do
    let id ← newID
    match ← tryAsk (.createComment (ackComment subj t out id)) with
    | .ok _ => do
      let sent ← request (.send out)
      let _ ← tryAsk (.setCommentDelivery t.tenantID id (if sent.isOk then .sent else .failed))
    | .error _ => pure ()
  else pure ()

def acknowledge (route : MailboxRoute) (recipient : GoString) (msg : Message) (t : Ticket) : Act Unit := do
  let suppressed ← ackSuppressed d route recipient msg t
  if suppressed then pure () else sendAck d subj route recipient t

end Ack

section Create

variable [GoLibrary] (route : MailboxRoute) (recipient : GoString) (msg : Message)

def newTicket (id : GoString) : Ticket :=
  { id := id, tenantID := subj.tenantID, subject := if msg.subject = [] then noSubject else msg.subject,
    description := msg.text, bodyHTML := msg.html, status := .open, priority := .normal, source := .email,
    requesterEmail := msg.fromEmail, requesterName := msg.fromName, recipient := recipient,
    mailboxID := route.mailboxID, externalID := msg.messageID, createdBy := createdByInbound }

def applyPlan (ticketID : GoString) (plan : Rules.Plan) : Act Unit :=
  match plan.apply with
  | some dec => do
    let _ ← (Rules.apply d subj ticketID dec).run
  | none => pure ()

def opened (t : Ticket) (plan : Rules.Plan) (staged : List Attachment) : Act Unit := do
  record [] staged
  note subj.tenantID t.id msg
  applyPlan d subj t.id plan
  let r ← tryAsk (.getTicket subj.tenantID t.id)
  let created : Ticket := r.toOption.getD t
  emit d subj.tenantID .created created subj.historyActor
  acknowledge d subj route recipient msg created

def create (plan : Rules.Plan) : Attempt Receipt := do
  let id ← newID
  let t := newTicket subj route recipient msg id
  let staged ← upload subj.tenantID t.id msg.attachments []
  match ← tryAsk (.createTicket t) with
  | .ok _ => do
    opened d subj route recipient msg t plan staged
    pure ⟨.created, t.id⟩
  | .error e => do
    discard staged
    if e = .conflict ∧ t.externalID ≠ [] then do
      -- a concurrent delivery of the same message won
      match ← tryAsk (.findTicketByExternalID subj.tenantID t.externalID) with
      | .ok ex => pure ⟨.duplicate, Ticket.id ex⟩
      | .error _ => throw (.retry (.repo e))
    else throw (.retry (.repo e))

def triagePlan : Act Rules.Plan :=
  if d.triage then do
    match ← (Rules.evaluate d subj msg recipient).run with
    | .ok p => pure p
    | .error _ => pure {}
  else pure {}

def openNew : Attempt Receipt := do
  let plan ← triagePlan d subj recipient msg
  if plan.drop then pure ⟨.dropped, []⟩ else create d subj route recipient msg plan

/-- `Handler.ingest`. -/
def ingest : Attempt Receipt := do
  match ← duplicate route.tenantID msg.messageID with
  | some id => pure ⟨.duplicate, id⟩
  | none => do
    match ← outcomeOf (Threading.resolve route.tenantID msg.threadIDs msg.text msg.subject) with
    | .error e => throw (.retry e)
    | .ok none => openNew d subj route recipient msg
    | .ok (some found) =>
      if found.ticketID = [] then openNew d subj route recipient msg
      else do
        match ← outcomeOf (reply d subj found.ticketID msg) with
        -- the ticket was deleted meanwhile: the reply opens a new one
        | .error .ticketGone => openNew d subj route recipient msg
        | .error e => throw e
        | .ok receipt => pure receipt

end Create

end TangraTicket.Services.Inbound
