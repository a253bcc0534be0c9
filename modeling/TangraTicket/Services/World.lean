import TangraTicket.Library.CallProgram
import TangraTicket.Services.Surroundings

/-!
The calls the services make, and the world that answers them: the store, the object store, the
relay, the event bus, the clock, the id source, the agent directory and the rule engine.
-/

namespace TangraTicket.Services

open GoText Store KeyedTable CallProgram

/-- The store methods the services call. -/
inductive StoreCall
  | createTicket (t : Ticket)
  | getTicket (tenantID id : GoString)
  | findTicketByExternalID (tenantID externalID : GoString)
  | updateTicket (tenantID id : GoString) (p : TicketPatch) (at_ : Time)
  | setAssignee (tenantID id assigneeID assigneeName : GoString) (at_ : Time)
  | setStatus (tenantID id : GoString) (status : Status) (at_ : Time)
  | deleteTicket (tenantID id : GoString)
  | createComment (c : Comment)
  | getComment (tenantID id : GoString)
  | setCommentDelivery (tenantID id : GoString) (delivery : Delivery)
  | deleteComment (tenantID id : GoString)
  | findCommentByMessageID (tenantID messageID : GoString)
  | createAttachment (a : Attachment)
  | listAttachments (tenantID ticketID : GoString)
  | getAttachment (tenantID ticketID id : GoString)
  | createTag (t : Tag)
  | getTag (tenantID id : GoString)
  | listTags (tenantID : GoString) (kind : Kind)
  | updateTag (t : Tag)
  | deleteTag (tenantID id : GoString)
  | ensureTagByName (tenantID : GoString) (kind : Kind) (name : GoString)
  | addTicketTags (tenantID ticketID : GoString) (tagIDs : List GoString)
  | tagsForTickets (tenantID : GoString) (ticketIDs : List GoString)
  | createRule (r : Rule)
  | getRule (tenantID id : GoString)
  | listRules (tenantID : GoString)
  | listEnabledRules (tenantID : GoString)
  | updateRule (r : Rule)
  | deleteRule (tenantID id : GoString)
  | createMailbox (mb : Mailbox)
  | getMailbox (tenantID id : GoString)
  | listMailboxes (tenantID : GoString)
  | updateMailbox (mb : Mailbox)
  | deleteMailbox (tenantID id : GoString) (force : Bool)
  | routeMailbox (address : GoString)
  | appendHistory (h : History)
  | allTickets (tenantID : GoString)

inductive Method
  | createTicket | getTicket | findTicketByExternalID | updateTicket | setAssignee | setStatus
  | deleteTicket
  | createComment | getComment | setCommentDelivery | deleteComment | findCommentByMessageID
  | createAttachment | listAttachments | getAttachment
  | createTag | getTag | listTags | updateTag | deleteTag | ensureTagByName | addTicketTags | tagsForTickets
  | createRule | getRule | listRules | listEnabledRules | updateRule | deleteRule
  | createMailbox | getMailbox | listMailboxes | updateMailbox | deleteMailbox | routeMailbox
  | appendHistory | allTickets
deriving DecidableEq

namespace StoreCall

def method : StoreCall → Method
  | createTicket .. => .createTicket
  | getTicket .. => .getTicket
  | findTicketByExternalID .. => .findTicketByExternalID
  | updateTicket .. => .updateTicket
  | setAssignee .. => .setAssignee
  | setStatus .. => .setStatus
  | deleteTicket .. => .deleteTicket
  | createComment .. => .createComment
  | getComment .. => .getComment
  | setCommentDelivery .. => .setCommentDelivery
  | deleteComment .. => .deleteComment
  | findCommentByMessageID .. => .findCommentByMessageID
  | createAttachment .. => .createAttachment
  | listAttachments .. => .listAttachments
  | getAttachment .. => .getAttachment
  | createTag .. => .createTag
  | getTag .. => .getTag
  | listTags .. => .listTags
  | updateTag .. => .updateTag
  | deleteTag .. => .deleteTag
  | ensureTagByName .. => .ensureTagByName
  | addTicketTags .. => .addTicketTags
  | tagsForTickets .. => .tagsForTickets
  | createRule .. => .createRule
  | getRule .. => .getRule
  | listRules .. => .listRules
  | listEnabledRules .. => .listEnabledRules
  | updateRule .. => .updateRule
  | deleteRule .. => .deleteRule
  | createMailbox .. => .createMailbox
  | getMailbox .. => .getMailbox
  | listMailboxes .. => .listMailboxes
  | updateMailbox .. => .updateMailbox
  | deleteMailbox .. => .deleteMailbox
  | routeMailbox .. => .routeMailbox
  | appendHistory .. => .appendHistory
  | allTickets .. => .allTickets

def Value : StoreCall → Type
  | getTicket .. | findTicketByExternalID .. | updateTicket .. | setAssignee .. | setStatus .. => Ticket
  | getComment .. | findCommentByMessageID .. => Comment
  | deleteTicket .. | deleteComment .. => List GoString
  | listAttachments .. => List Attachment
  | getAttachment .. => Attachment
  | getTag .. | ensureTagByName .. => Tag
  | listTags .. => List Tag
  | tagsForTickets .. => List (GoString × List Tag)
  | getRule .. | updateRule .. => Rule
  | listRules .. | listEnabledRules .. => List Rule
  | getMailbox .. => Mailbox
  | listMailboxes .. => List Mailbox
  | routeMailbox .. => MailboxRoute
  | allTickets .. => List Ticket
  | createTicket .. | createComment .. | setCommentDelivery .. | createAttachment .. | createTag ..
  | updateTag ..
  | deleteTag .. | addTicketTags .. | createRule .. | deleteRule .. | createMailbox .. | updateMailbox ..
  | deleteMailbox .. | appendHistory .. => Unit

end StoreCall

/-- The store's answer to a call; `id` is the id it would mint. -/
def performStore [GoLibrary] (now : Time) (id : GoString) (m : Mem) :
    (q : StoreCall) → Except RepoErr q.Value × Mem
  | .createTicket t => m.createTicket now t
  | .getTicket ten i => m.getTicket ten i
  | .findTicketByExternalID ten x => m.findTicketByExternalID ten x
  | .updateTicket ten i p at_ => m.updateTicket now ten i p at_
  | .setAssignee ten i a n at_ => m.setAssignee now ten i a n at_
  | .setStatus ten i s at_ => m.setStatus now ten i s at_
  | .deleteTicket ten i => m.deleteTicket ten i
  | .createComment c => m.createComment now c
  | .getComment ten i => m.getComment ten i
  | .setCommentDelivery ten i d => m.setCommentDelivery ten i d
  | .deleteComment ten i => m.deleteComment ten i
  | .findCommentByMessageID ten x => m.findCommentByMessageID ten x
  | .createAttachment a => m.createAttachment now a
  | .listAttachments ten tid => m.listAttachments ten tid
  | .getAttachment ten tid i => m.getAttachment ten tid i
  | .createTag t => m.createTag now t
  | .getTag ten i => m.getTag ten i
  | .listTags ten k => m.listTags ten k
  | .updateTag t => m.updateTag t
  | .deleteTag ten i => m.deleteTag ten i
  | .ensureTagByName ten k n => m.ensureTagByName now id ten k n
  | .addTicketTags ten tid ids => m.addTicketTags ten tid ids
  | .tagsForTickets ten ids => m.tagsForTickets ten ids
  | .createRule r => m.createRule now r
  | .getRule ten i => m.getRule ten i
  | .listRules ten => m.listRules ten false
  | .listEnabledRules ten => m.listRules ten true
  | .updateRule r => m.updateRule now r
  | .deleteRule ten i => m.deleteRule ten i
  | .createMailbox mb => m.createMailbox now mb
  | .getMailbox ten i => m.getMailbox ten i
  | .listMailboxes ten => m.listMailboxes ten
  | .updateMailbox mb => m.updateMailbox now mb
  | .deleteMailbox ten i force => m.deleteMailbox ten i force
  | .routeMailbox a => m.routeMailbox a
  | .appendHistory h => m.appendHistory now h
  | .allTickets ten => m.allTickets ten

inductive Call
  | store (q : StoreCall)
  | newID
  | now
  | lookup (tenantID userID : GoString)
  | putObject (key data contentType : GoString)
  | deleteObject (key : GoString)
  | send (mail : OutMail)
  | publish (event : Published)
  | evaluate (rule : Rule) (email : Email)

def Answer : Call → Type
  | .store q => Except RepoErr q.Value
  | .newID => GoString
  | .now => Time
  | .lookup .. => Except DirectoryErr User
  | .putObject .. => Except Unit GoString
  | .deleteObject .. => Except Unit Unit
  | .send .. => Except Unit Unit
  | .publish .. => Unit
  | .evaluate .. => Except Unit Bool

structure Object where
  key : GoString
  data : GoString
  contentType : GoString
deriving DecidableEq

structure World where
  mem : Mem := {}
  objects : Table GoString Object Object.key := .empty
  sent : List (OutMail × Bool) := []
  published : List Published := []

/-- What the surroundings decide at one call: failures, the clock, the id minted, the directory's
and the rule engine's answers. -/
structure Choice where
  fail : Method → Bool := fun _ => false
  now : Time := 1
  newID : GoString := []
  directory : GoString → GoString → Except DirectoryErr User := fun _ _ => .error .unknownUser
  putFails : Bool := false
  deleteFails : Bool := false
  sendFails : Bool := false
  engine : Rule → Email → Except Unit Bool := fun _ _ => .ok false

/-- No store call fails. -/
def FaultFree (c : Choice) : Prop := c.fail = fun _ => false

theorem FaultFree.not_failed {c : Choice} (hc : FaultFree c) (μ : Method) :
    c.fail μ = false := congrFun hc μ

section Step

variable [GoLibrary]

/-- A failing call has no effect; a mail handed to the relay is recorded with whether the relay took it. -/
def step (c : Choice) : (e : Call) → World → Answer e × World
  | .store q, w =>
    if c.fail q.method then (.error .failure, w)
    else ((performStore c.now c.newID w.mem q).1, { w with mem := (performStore c.now c.newID w.mem q).2 })
  | .newID, w => (c.newID, w)
  | .now, w => (c.now, w)
  | .lookup tenantID userID, w => (c.directory tenantID userID, w)
  | .putObject key data contentType, w =>
    if c.putFails then (.error (), w)
    else (.ok (GoLibrary.sha256Hex data), { w with objects := w.objects.put ⟨key, data, contentType⟩ })
  | .deleteObject key, w =>
    if c.deleteFails then (.error (), w)
    else (.ok (), { w with objects := w.objects.keep (fun o => o.key ≠ key) })
  | .send mail, w =>
    (if c.sendFails then .error () else .ok (), { w with sent := w.sent ++ [(mail, !c.sendFails)] })
  | .publish event, w => ((), { w with published := w.published ++ [event] })
  | .evaluate rule email, w => (c.engine rule email, w)

variable {c : Choice} {q : StoreCall} {w : World}

theorem step_store_failed (h : c.fail q.method = true) :
    step c (.store q) w = (.error .failure, w) := if_pos h

theorem step_store (h : c.fail q.method = false) :
    step c (.store q) w =
      ((performStore c.now c.newID w.mem q).1,
        { w with mem := (performStore c.now c.newID w.mem q).2 }) := by
  refine if_neg ?_
  rw [h]
  exact Bool.false_ne_true

theorem step_store_eq (h : c.fail q.method = false) {a : Except RepoErr q.Value} {m : Mem}
    (hq : performStore c.now c.newID w.mem q = (a, m)) :
    step c (.store q) w = (a, { w with mem := m }) := by
  rw [step_store h, hq]

theorem mem_step {e : Call} {J : Mem → Prop} (hw : J w.mem)
    (hq : ∀ q, e = .store q → c.fail q.method = false → J (performStore c.now c.newID w.mem q).2) :
    J (step c e w).2.mem := by
  cases e with
  | store q =>
    cases hf : c.fail q.method with
    | true => rwa [step_store_failed hf]
    | false =>
      rw [step_store hf]
      exact hq q rfl hf
  | putObject key data contentType =>
    simp only [step]
    split <;> exact hw
  | deleteObject key =>
    simp only [step]
    split <;> exact hw
  | _ => exact hw

end Step

/-- A service operation, and one that may stop with an error. -/
abbrev Act (α : Type) := Prog Call Answer α

abbrev Attempt (α : Type) := Fallible Call Answer Err α

abbrev Log := List (Event Call Answer)

/-- The id an answered call has minted. -/
def minted : Event Call Answer → Option GoString
  | ⟨.newID, id⟩ => some id
  | _ => none

def request (e : Call) : Act (Answer e) := Prog.perform e

/-- A store call whose error is translated by `g`. -/
def ask (q : StoreCall) (g : RepoErr → Err) : Attempt q.Value := Prog.orFail (request (.store q)) g

def tryAsk (q : StoreCall) : Act (Except RepoErr q.Value) := request (.store q)

def outcomeOf {α : Type} (x : Attempt α) : Attempt (Except Err α) := ExceptT.lift x.run

def newID : Act GoString := request .newID

def clock : Act Time := request .now

section Wp

variable {α P : Type} (h : (e : Call) → (Answer e → P) → P)

@[simp] theorem wp_request (e : Call) (Q : Answer e → P) : wp h (request e) Q = h e Q := rfl

@[simp] theorem wp_ask (q : StoreCall) (g : RepoErr → Err) (Q : Except Err q.Value → P) :
    wp h (ask q g).run Q = h (.store q) (fun r => Q (Except.mapError g r)) := rfl

@[simp] theorem wp_tryAsk (q : StoreCall) (Q : Except RepoErr q.Value → P) :
    wp h (tryAsk q) Q = h (.store q) Q := rfl

@[simp] theorem wp_outcomeOf (x : Attempt α) (Q : Except Err (Except Err α) → P) :
    wp h (outcomeOf x).run Q = wp h x.run (fun r => Q (.ok r)) := wp_lift h x.run Q

@[simp] theorem wp_newID (Q : GoString → P) : wp h newID Q = h .newID Q := rfl

@[simp] theorem wp_clock (Q : Time → P) : wp h clock Q = h .now Q := rfl

end Wp

/-- `events.Emit`: nothing is published without a publisher. -/
def emit (d : Deps) (tenantID : GoString) (type : EventType) (t : Ticket) (actorKind : ActorKind) :
    Act Unit :=
  if d.events then do
    let _ ← request (.publish ⟨tenantID, type, payloadOf t actorKind⟩)
  else pure ()

end TangraTicket.Services
