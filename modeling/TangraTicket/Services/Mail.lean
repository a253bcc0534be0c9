import TangraTicket.Services.World

/-!
Mail as the services see it: the parsed message (`internal/mailparse`), the header checks of outbound mail
(`internal/mailer`) and the threading texts (`internal/thread`).
-/

namespace TangraTicket.Services

open GoText Store CallProgram

structure MailAttachment where
  filename : GoString
  contentType : GoString
  contentID : GoString
  inline : Bool
  data : GoString

structure Skipped where
  filename : GoString
  size : ℕ

def maxThreadIDs : ℕ := 50

def noSubject : GoString := "(no subject)"

structure Message where
  subject : GoString := noSubject
  fromName : GoString := []
  fromEmail : GoString := []
  to_ : List GoString := []
  deliveredTo : List GoString := []
  messageID : GoString := []
  inReplyTo : List GoString := []
  references : List GoString := []
  autoSubmitted : GoString := []
  precedence : GoString := []
  spamScore : UInt64 := 0
  text : GoString := []
  html : GoString := []
  attachments : List MailAttachment := []
  skipped : List Skipped := []
  truncated : Bool := false

namespace Message

variable (m : Message)

def isAuto : Bool :=
  (m.autoSubmitted ≠ [] && m.autoSubmitted ≠ goString "no") ||
    [goString "bulk", goString "list", goString "junk", goString "auto_reply"].contains m.precedence

def threadIDs : List GoString :=
  (m.inReplyTo ++ m.references.reverse).foldl
    (fun out id => if id ≠ [] ∧ id ∉ out ∧ out.length < maxThreadIDs then out ++ [id] else out) []

end Message

def daemonWords : List GoString :=
  ["mailer-daemon", "postmaster", "no-reply", "noreply", "do-not-reply", "donotreply",
    "autoreply", "auto-reply", "bounce"]

def isDaemonSender [GoLibrary] (sender : GoString) : Bool :=
  let f := toLower (trimSpace sender)
  f = [] || daemonWords.any (fun bad => contains (f.takeWhile (· ≠ 0x40)) bad)

namespace Mailer

def maxReferences : ℕ := 100

def headerSafe (v : GoString) : Bool :=
  validString v && (runes v).all fun r =>
    !(r = 0x0D || r = 0x0A || r = 0 || (r < 0x20 && r ≠ 0x09) || r = 0x7F)

def bareAddress [GoLibrary] (v : GoString) : Bool :=
  v ≠ [] && v.length ≤ 320 && GoLibrary.parseAddress v = some ([], v)

def validID (id : GoString) : Bool :=
  id ≠ [] && id.length ≤ 998 && headerSafe id && !containsAny id "<> \t,"

/-- `mailer.Validate`: every header value on one line, message ids well formed, bare addresses. -/
def validate [GoLibrary] (m : OutMail) : Bool :=
  [m.fromAddress, m.fromName, m.toAddress, m.toName, m.subject].all headerSafe &&
    validID m.messageID && (m.inReplyTo = [] || validID m.inReplyTo) && m.references.length ≤
    maxReferences &&
    m.references.all validID && bareAddress m.fromAddress && bareAddress m.toAddress

end Mailer

namespace Threading

def defaultDomain : GoString := "tickets.local"

def token (ticketID : GoString) : GoString := goString "[#" ++ ticketID ++ goString "]"

def isTokenByte (b : UInt8) : Bool :=
  (0x30 ≤ b && b ≤ 0x39) || (0x61 ≤ b && b ≤ 0x66) || (0x41 ≤ b && b ≤ 0x46) || b == 0x2D

/-- A match of `\[#([0-9a-fA-F-]{8,64})\]` at the start of `s`. -/
def tokenAt : GoString → Option GoString
  | 0x5B :: 0x23 :: rest =>
    let id := rest.takeWhile isTokenByte
    if 8 ≤ id.length ∧ id.length ≤ 64 ∧ (rest.drop id.length).head? = some 0x5D then some id else none
  | _ => none

/-- The id of the leftmost token (empty when there is none). -/
def parseToken (s : GoString) : GoString := (s.tails.findSome? tokenAt).getD []

def referenceLine (ticketID : GoString) : GoString := goString "Ticket reference: " ++ token ticketID

def withReference (body ticketID : GoString) : GoString :=
  trimRight body "\r\n" ++ goString "\n\n--\n" ++ referenceLine ticketID ++ goString "\n"

/-- A body that already carries a token is left alone. -/
def appendReference (body ticketID : GoString) : GoString :=
  if parseToken body ≠ [] ∨ contains body (token ticketID) then body else withReference body ticketID

def hasRePrefix [GoLibrary] (s : GoString) : Bool :=
  hasPrefix (toLower s) "re:" || hasPrefix (toLower s) "re "

def replySubject [GoLibrary] (original : GoString) : GoString :=
  let s := join (fields (mapRunes (fun r => some (if isControl r then 0x20 else r)) original)) " "
  let s := if s = [] then noSubject else s
  if hasRePrefix s then s else goString "Re: " ++ s

def domainOf [GoLibrary] (addr : GoString) : GoString :=
  match afterLast 0x40 addr with
  | some rest => toLower (trimSpace rest)
  | none => []

def isDomainEnd (b : UInt8) : Bool := (0x61 ≤ b && b ≤ 0x7A) || (0x30 ≤ b && b ≤ 0x39)

/-- A match of `^[a-z0-9]([a-z0-9.-]{0,251}[a-z0-9])?$`. -/
def isDomain (s : GoString) : Bool :=
  s.length ≤ 253 && s.head?.any isDomainEnd && s.getLast?.any isDomainEnd &&
    s.all (fun b => isDomainEnd b || b == 0x2E || b == 0x2D)

def messageIDOf [GoLibrary] (ticketID domain id : GoString) : GoString :=
  let domain := toLower (trimSpace domain)
  goString "ticket." ++ ticketID ++ goString "." ++ id ++ goString "@" ++
    (if isDomain domain then domain else defaultDomain)

/-- Mint an outbound message id. -/
def messageID [GoLibrary] (ticketID domain : GoString) : Act GoString := do
  let id ← newID
  pure (messageIDOf ticketID domain id)

inductive MatchedBy
  | comment | externalID | bodyToken | subjectToken
deriving DecidableEq

structure Match where
  ticketID : GoString
  by_ : MatchedBy

def firstFound {α β : Type} (lookup : α → Act (Except RepoErr β)) : List α → Attempt (Option β)
  | [] => pure none
  | x :: xs => do
    match ← lookup x with
    | .ok b => pure (some b)
    | .error .notFound => firstFound lookup xs
    | .error e => throw (.repo e)

/-- `thread.Resolve`: a recorded comment, a ticket root, a token in the body, then one in the subject. -/
def resolve (tenantID : GoString) (messageIDs : List GoString) (text subject : GoString) :
    Attempt (Option Match) :=
  if tenantID = [] then throw .threadTenant
  else do
    match ← firstFound (fun id => tryAsk (.findCommentByMessageID tenantID id)) messageIDs with
    | some c => pure (some ⟨Comment.ticketID c, .comment⟩)
    | none => do
      match ← firstFound (fun id => tryAsk (.findTicketByExternalID tenantID id)) messageIDs with
      | some t => pure (some ⟨Ticket.id t, .externalID⟩)
      | none => do
        let tokens := [(text, MatchedBy.bodyToken), (subject, MatchedBy.subjectToken)].filter
          (fun c => parseToken c.1 ≠ [])
        firstFound (fun c => do
          let r ← tryAsk (.getTicket tenantID (parseToken c.1))
          pure (r.map fun t => (⟨Ticket.id t, c.2⟩ : Match))) tokens

end Threading

end TangraTicket.Services
