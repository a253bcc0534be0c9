import TangraTicket.Store.MemVocabulary

/-!
What the services exchange with their callers and with each other: authenticated subjects, directory users,
published events, outbound mail and errors.
-/

namespace TangraTicket.Services

open GoText Store

def actorTexts : List GoString := ["agent", "inbound", "service", "system"]

inductive Actor
  | agent | inbound | service | system
  | other (text : OtherThan actorTexts)
deriving DecidableEq

def Actor.text : Actor → GoString
  | .agent => "agent"
  | .inbound => "inbound"
  | .service => "service"
  | .system => "system"
  | .other s => s.1

structure Subjects where
  tenantID : GoString
  userID : GoString
  roles : List GoString := []
  actorKind : Actor
deriving DecidableEq

def inboundActorID : GoString := "inbound-mail"

def rolePlatformAdmin : GoString := "platform-admin"

/-- The subject the inbound edge writes under. -/
def systemFor (tenantID : GoString) : Subjects := ⟨tenantID, inboundActorID, [], .inbound⟩

namespace Subjects

variable (s : Subjects)

def actorID : GoString := if s.userID ≠ [] then s.userID else s.actorKind.text

def isHuman : Bool := s.actorKind = .agent

def isPlatformAdmin : Bool := s.actorKind = .system || s.roles.contains rolePlatformAdmin

/-- The actor vocabulary of the history (`history.ActorKind`). -/
def historyActor : ActorKind :=
  match s.actorKind with
  | .agent => .agent
  | .inbound => .inbound
  | _ => .system

end Subjects

structure User where
  id : GoString
  name : GoString := []
  email : GoString := []
deriving DecidableEq

def User.displayName (u : User) : GoString := if u.name ≠ [] then u.name else u.id

inductive DirectoryErr
  | unknownUser | notAssignable | unavailable
deriving DecidableEq

inductive EventType
  | created | assigned | statusChanged | commented | requesterReplied
deriving DecidableEq

structure Payload where
  ticketID : GoString
  subject : GoString
  status : Status
  priority : Priority
  assigneeID : GoString
  source : Source
  actorKind : ActorKind
deriving DecidableEq

def payloadOf (t : Ticket) (actorKind : ActorKind) : Payload :=
  ⟨t.id, t.subject.take 200, t.status, t.priority, t.assigneeID, t.source, actorKind⟩

structure Published where
  tenantID : GoString
  type : EventType
  payload : Payload
deriving DecidableEq

/-- One outbound message (`mailer.OutMail`). -/
structure OutMail where
  fromAddress : GoString
  fromName : GoString
  toAddress : GoString
  toName : GoString
  subject : GoString
  text : GoString
  messageID : GoString
  inReplyTo : GoString := []
  references : List GoString := []
  autoReply : Bool := false
deriving DecidableEq

/-- What a rule sees of a message (`rules.Email`); the spam score is kept as the bits of the float. -/
structure Email where
  subject : GoString
  body : GoString
  fromAddress : GoString
  fromName : GoString
  recipient : GoString
  fromDomain : GoString
  hasAttachments : Bool
  spamScore : UInt64
deriving DecidableEq

inductive Err
  | repo (e : RepoErr)
  | forbidden (why : GoString)
  | validation (package field msg : GoString)
  | ticketNotFound
  | invalidStatus
  | invalidAssignee
  | directoryUnavailable
  | commentNotFound
  | replyUnavailable (why : GoString)
  | deliveryFailed (recorded : Comment)
  | unsafeHeader
  | threadTenant
  | attachmentUpload
  | ticketGone
  | retry (e : Err)
  | rulesList (e : RepoErr)
  | joined (errs : List (GoString × Err))
  | badSchema (what : GoString)
  | tooLarge (collection : GoString) (rows : ℕ)

/-- `mapErr` of the ticket service: a missing row is a missing ticket. -/
def mapErr : RepoErr → Err
  | .notFound => .ticketNotFound
  | e => .repo e

/-- How the services are wired. -/
structure Deps where
  agents : Bool := true
  events : Bool := true
  blobs : Bool := true
  tickets : Bool := true
  triage : Bool := true
  mailer : Bool := true
  mailDomain : GoString := []
  maxRules : ℤ := 0

end TangraTicket.Services
