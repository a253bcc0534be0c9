import TangraTicket.Library.GoText

/-!
The rows of the service (`internal/store/models.go`). A field that Go keeps as one of a set of texts is an
enumeration here; `unset` is the empty text and `other` any text outside the set, which only a caller's
input or a backup document can hold. An instant is a number, `0` being the zero `time.Time`.
-/

namespace TangraTicket.Store

open GoText

abbrev Time := ℕ

/-- A text that is none of `known`. -/
abbrev OtherThan (known : List GoString) := { s : GoString // s ∉ known }

def statusTexts : List GoString := ["", "open", "in_progress", "pending", "resolved", "closed"]

inductive Status
  | unset | open | inProgress | pending | resolved | closed
  | other (text : OtherThan statusTexts)
deriving DecidableEq

def Status.text : Status → GoString
  | .unset => ""
  | .open => "open"
  | .inProgress => "in_progress"
  | .pending => "pending"
  | .resolved => "resolved"
  | .closed => "closed"
  | .other s => s.1

def priorityTexts : List GoString := ["", "low", "normal", "high", "urgent"]

inductive Priority
  | unset | low | normal | high | urgent
  | other (text : OtherThan priorityTexts)
deriving DecidableEq

def Priority.text : Priority → GoString
  | .unset => ""
  | .low => "low"
  | .normal => "normal"
  | .high => "high"
  | .urgent => "urgent"
  | .other s => s.1

def sourceTexts : List GoString := ["", "manual", "email"]

inductive Source
  | unset | manual | email
  | other (text : OtherThan sourceTexts)
deriving DecidableEq

def Source.text : Source → GoString
  | .unset => ""
  | .manual => "manual"
  | .email => "email"
  | .other s => s.1

def authorKindTexts : List GoString := ["", "agent", "requester", "system"]

inductive AuthorKind
  | unset | agent | requester | system
  | other (text : OtherThan authorKindTexts)
deriving DecidableEq

def deliveryTexts : List GoString := ["", "none", "sent", "failed"]

inductive Delivery
  | unset | none | sent | failed
  | other (text : OtherThan deliveryTexts)
deriving DecidableEq

def kindTexts : List GoString := ["", "tag", "category"]

inductive Kind
  | unset | tag | category
  | other (text : OtherThan kindTexts)
deriving DecidableEq

def Kind.text : Kind → GoString
  | .unset => ""
  | .tag => "tag"
  | .category => "category"
  | .other s => s.1

def matchModeTexts : List GoString := ["", "all", "any"]

inductive MatchMode
  | unset | all | any
  | other (text : OtherThan matchModeTexts)
deriving DecidableEq

def MatchMode.text : MatchMode → GoString
  | .unset => ""
  | .all => "all"
  | .any => "any"
  | .other s => s.1

def actionTypeTexts : List GoString := ["tag", "assign", "status", "priority", "drop"]

inductive ActionType
  | tag | assign | status | priority | drop
  | other (text : OtherThan actionTypeTexts)
deriving DecidableEq

def ActionType.text : ActionType → GoString
  | .tag => "tag"
  | .assign => "assign"
  | .status => "status"
  | .priority => "priority"
  | .drop => "drop"
  | .other s => s.1

def ActionType.ofText (s : GoString) : ActionType :=
  if h : s ∉ actionTypeTexts then .other ⟨s, h⟩
  else if s = goString "tag" then .tag
  else if s = goString "assign" then .assign
  else if s = goString "status" then .status
  else if s = goString "priority" then .priority
  else .drop

def fieldTexts : List GoString := ["status", "priority", "assignee"]

inductive Field
  | status | priority | assignee
  | other (text : OtherThan fieldTexts)
deriving DecidableEq

def actorKindTexts : List GoString := ["agent", "rule", "inbound", "system"]

inductive ActorKind
  | agent | rule | inbound | system
  | other (text : OtherThan actorKindTexts)
deriving DecidableEq

def validStatus : Status → Bool
  | .open | .inProgress | .pending | .resolved | .closed => true
  | _ => false

def validPriority : Priority → Bool
  | .low | .normal | .high | .urgent => true
  | _ => false

def validKind : Kind → Bool
  | .tag | .category => true
  | _ => false

def active (s : Status) : Bool := s ≠ .resolved && s ≠ .closed

structure Ticket where
  id : GoString := []
  tenantID : GoString := []
  subject : GoString := []
  description : GoString := []
  bodyHTML : GoString := []
  status : Status := .unset
  priority : Priority := .unset
  source : Source := .unset
  requesterEmail : GoString := []
  requesterName : GoString := []
  recipient : GoString := []
  mailboxID : GoString := []
  externalID : GoString := []
  assigneeID : GoString := []
  assigneeName : GoString := []
  commentCount : ℕ := 0
  lastMessageID : GoString := []
  createdBy : GoString := []
  createdAt : Time := 0
  updatedAt : Time := 0
  resolvedAt : Option Time := none
deriving DecidableEq

structure Comment where
  id : GoString := []
  tenantID : GoString := []
  ticketID : GoString := []
  body : GoString := []
  internal : Bool := false
  authorKind : AuthorKind := .unset
  authorID : GoString := []
  authorName : GoString := []
  authorEmail : GoString := []
  messageID : GoString := []
  delivery : Delivery := .unset
  createdAt : Time := 0
deriving DecidableEq

structure Attachment where
  id : GoString := []
  tenantID : GoString := []
  ticketID : GoString := []
  commentID : GoString := []
  filename : GoString := []
  contentType : GoString := []
  size : ℤ := 0
  contentID : GoString := []
  inline : Bool := false
  storageKey : GoString := []
  checksum : GoString := []
  createdAt : Time := 0
deriving DecidableEq

/-- The object key of an attachment, never derived from its file name. -/
def attachmentKey (tenantID ticketID attachmentID : GoString) : GoString :=
  goString "tenants/" ++ tenantID ++ goString "/tickets/" ++ ticketID ++ goString "/" ++ attachmentID

structure Tag where
  id : GoString := []
  tenantID : GoString := []
  name : GoString := []
  kind : Kind := .unset
  color : GoString := []
  description : GoString := []
  createdAt : Time := 0
deriving DecidableEq

structure TagLink where
  tenantID : GoString := []
  ticketID : GoString := []
  tagID : GoString := []
deriving DecidableEq

structure Condition where
  field : GoString
  operator : GoString
  value : GoString
deriving DecidableEq

structure Action where
  type : ActionType
  tagKind : Kind := .unset
  tagNames : List GoString := []
  assigneeID : GoString := []
  status : Status := .unset
  priority : Priority := .unset
deriving DecidableEq

structure Rule where
  id : GoString := []
  tenantID : GoString := []
  name : GoString := []
  enabled : Bool := false
  sortOrder : ℤ := 0
  matchMode : MatchMode := .unset
  conditions : List Condition := []
  expression : GoString := []
  actions : List Action := []
  version : ℤ := 0
  createdAt : Time := 0
  updatedAt : Time := 0
deriving DecidableEq

structure Mailbox where
  id : GoString := []
  tenantID : GoString := []
  address : GoString := []
  displayName : GoString := []
  active : Bool := false
  autoAck : Bool := false
  autoAckTemplate : GoString := []
  createdAt : Time := 0
  updatedAt : Time := 0
deriving DecidableEq

/-- The narrow result of the routing lookup. -/
structure MailboxRoute where
  tenantID : GoString
  mailboxID : GoString
  displayName : GoString
  active : Bool
  autoAck : Bool
  autoAckTemplate : GoString
deriving DecidableEq

structure History where
  id : GoString := []
  tenantID : GoString := []
  ticketID : GoString := []
  field : Field
  oldValue : GoString := []
  newValue : GoString := []
  actorKind : ActorKind
  actorID : GoString := []
  createdAt : Time := 0
deriving DecidableEq

/-- A partial update; `none` leaves the field unchanged. -/
structure TicketPatch where
  subject : Option GoString := none
  description : Option GoString := none
  priority : Option Priority := none
deriving DecidableEq

/-- What a history row of `f` calls the value of a ticket. -/
def Field.valueOf : Field → Ticket → GoString
  | .status, t => t.status.text
  | .priority, t => t.priority.text
  | .assignee, t => t.assigneeID
  | .other _, _ => []

end TangraTicket.Store
