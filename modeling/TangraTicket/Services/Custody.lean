import TangraTicket.Services.Footprint
import TangraTicket.Services.Resolution

/-!
The calls that only look, the calls that touch neither attachment rows nor objects, and the services
that make no others.
-/

namespace TangraTicket.Services

open GoText Store KeyedTable CallProgram

theorem attachmentKey_suffix (T ticketID id : GoString) : 0x2F :: id <:+ attachmentKey T ticketID id := by
  have hslash : goString "/" ++ id = 0x2F :: id := by
    rw [show goString "/" = [0x2F] by decide, List.singleton_append]
  rw [attachmentKey, List.append_assoc _ (goString "/") id, hslash]
  exact List.suffix_append _ _

def Aloof : Call → Prop
  | .store (.createAttachment _) | .store (.deleteTicket ..) | .store (.deleteComment ..) | .putObject ..
  | .deleteObject .. => False
  | _ => True

/-- Rows of attachments and objects as before, and every comment still there; only a delivery state
may differ. -/
structure HandsOff (w w' : World) : Prop where
  attachments : w'.mem.attachments = w.mem.attachments
  objects : w'.objects = w.objects
  comments : ∀ x ∈ w.mem.comments.rows, ∃ dl, { x with delivery := dl } ∈ w'.mem.comments.rows

theorem HandsOff.refl (w : World) : HandsOff w w := ⟨rfl, rfl, fun x hx => ⟨x.delivery, hx⟩⟩

theorem HandsOff.trans {w w' w'' : World} (h : HandsOff w w') (h' : HandsOff w' w'') :
    HandsOff w w'' := by
  refine ⟨h'.attachments.trans h.attachments, h'.objects.trans h.objects, fun x hx => ?_⟩
  obtain ⟨dl, hdl⟩ := h.comments x hx
  obtain ⟨dl', hdl'⟩ := h'.comments { x with delivery := dl } hdl
  exact ⟨dl', hdl'⟩

theorem comments_createComment (now : Time) (m : Mem) (c : Comment) :
    ∀ x ∈ m.comments.rows, x ∈ (m.createComment now c).2.comments.rows := by
  intro x hx
  obtain ⟨e, he⟩ | ⟨t, -, -, -, hnew, -, heq⟩ := createComment_cases now m c
  · rwa [he]
  · rw [heq]
    exact Table.mem_put.mpr (.inr ⟨hx, Table.get?_eq_none.mp hnew x hx⟩)

theorem comments_setCommentDelivery (m : Mem) (ten id : GoString) (dl : Delivery) :
    ∀ x ∈ m.comments.rows, ∃ dl', { x with delivery := dl' } ∈
    (m.setCommentDelivery ten id dl).2.comments.rows := by
  intro x hx
  unfold Mem.setCommentDelivery
  cases hc : m.comment ten id with
  | error e => exact ⟨x.delivery, hx⟩
  | ok c =>
    obtain ⟨hmem, -, -⟩ := comment_ok hc
    by_cases hxc : x.id = c.id
    · obtain rfl := m.comments.eq_of_key hx hmem hxc
      exact ⟨dl, Table.mem_put.mpr (.inl rfl)⟩
    · exact ⟨x.delivery, Table.mem_put.mpr (.inr ⟨hx, hxc⟩)⟩

section Step

variable [GoLibrary]

theorem attachments_performStore (now : Time) (id : GoString) (m : Mem) {q : StoreCall}
    (hq : Aloof (.store q)) :
    (performStore now id m q).2.attachments = m.attachments := by
  cases q with
  | createAttachment | deleteTicket | deleteComment => exact hq.elim
  | updateTicket | setAssignee | setStatus =>
    simp only [performStore, Mem.updateTicket, Mem.setAssignee, Mem.setStatus, Mem.modifyTicket]
    split <;> rfl
  | createComment c =>
    obtain ⟨e, he⟩ | ⟨t, -, -, -, -, -, heq⟩ := createComment_cases now m c
    · rw [performStore, he]
    · rw [performStore, heq]
  | createTicket | findTicketByExternalID | findCommentByMessageID | getAttachment | routeMailbox
  | setCommentDelivery | createTag | updateTag | deleteTag | addTicketTags | createRule | updateRule
  | deleteRule
  | createMailbox | updateMailbox | deleteMailbox | appendHistory =>
    simp only [performStore, Mem.createTicket, Mem.findTicketByExternalID, Mem.findCommentByMessageID,
      Mem.getAttachment, Mem.routeMailbox, Mem.setCommentDelivery, Mem.createTag, Mem.updateTag,
      Mem.deleteTag, Mem.addTicketTags, Mem.createRule, Mem.updateRule, Mem.deleteRule,
      Mem.createMailbox, Mem.updateMailbox, Mem.deleteMailbox, Mem.appendHistory]
    repeat' split
    all_goals rfl
  | ensureTagByName ten k n =>
    simp only [performStore, Mem.ensureTagByName, Mem.createTag]
    repeat' split
    all_goals rfl
  | _ => rfl

theorem comments_performStore (now : Time) (id : GoString) (m : Mem) {q : StoreCall}
    (hq : Aloof (.store q)) :
    ∀ x ∈ m.comments.rows, ∃ dl, { x with delivery := dl } ∈ (performStore now id m q).2.comments.rows := by
  intro x hx
  cases q with
  | createAttachment | deleteTicket | deleteComment => exact hq.elim
  | updateTicket | setAssignee | setStatus =>
    simp only [performStore, Mem.updateTicket, Mem.setAssignee, Mem.setStatus, Mem.modifyTicket]
    split <;> exact ⟨x.delivery, hx⟩
  | createComment c => exact ⟨x.delivery, comments_createComment now m c x hx⟩
  | setCommentDelivery ten i dl => exact comments_setCommentDelivery m ten i dl x hx
  | createTicket | findTicketByExternalID | findCommentByMessageID | getAttachment | routeMailbox
  | createTag | updateTag | deleteTag | addTicketTags | createRule | updateRule | deleteRule
  | createMailbox | updateMailbox | deleteMailbox | appendHistory =>
    simp only [performStore, Mem.createTicket, Mem.findTicketByExternalID, Mem.findCommentByMessageID,
      Mem.getAttachment, Mem.routeMailbox, Mem.createTag, Mem.updateTag, Mem.deleteTag,
      Mem.addTicketTags, Mem.createRule, Mem.updateRule, Mem.deleteRule, Mem.createMailbox,
      Mem.updateMailbox, Mem.deleteMailbox, Mem.appendHistory]
    repeat' split
    all_goals exact ⟨x.delivery, hx⟩
  | ensureTagByName ten k n =>
    simp only [performStore, Mem.ensureTagByName, Mem.createTag]
    repeat' split
    all_goals exact ⟨x.delivery, hx⟩
  | _ => exact ⟨x.delivery, hx⟩

theorem aloof_step {e : Call} (he : Aloof e) (c : Choice) (w : World) : HandsOff w (step c e w).2 := by
  cases e with
  | store q =>
    cases hf : c.fail q.method with
    | true =>
      rw [step_store_failed hf]
      exact .refl w
    | false =>
      rw [step_store hf]
      exact ⟨attachments_performStore _ _ _ he, rfl, comments_performStore _ _ _ he⟩
  | putObject | deleteObject => exact he.elim
  | _ => exact ⟨rfl, rfl, fun x hx => ⟨x.delivery, hx⟩⟩

variable {α : Type} {P : Choice → Call → World → Prop} {p : Act α} {Q : α → Prop} (w : World)

theorem ensures_aloof (hp : Issues (fun _ _ => True) Aloof p (fun _ => True)) :
    EnsuresWhen step P p (fun _ w' => HandsOff w w') w := by
  have hstep : ∀ c e s, P c e s → Aloof e → HandsOff w s → HandsOff w (step c e s).2 ∧ True :=
    fun c e s _ he hs => ⟨hs.trans (aloof_step he c s), trivial⟩
  exact (Issues.ensuresWhen hstep hp (.refl w)).mono fun _ _ h => h.2

theorem peek_step {T : GoString} {e : Call} (he : Peek T e) (c : Choice) (w : World) :
    (step c e w).2 = w := by
  cases e with
  | store q =>
    cases hf : c.fail q.method with
    | true => rw [step_store_failed hf]
    | false =>
      rw [step_store hf]
      cases q with
      | getTicket ten id => simp only [performStore, getTicket_eq]
      | findTicketByExternalID ten x => simp only [performStore, findTicket_eq]
      | findCommentByMessageID ten x => simp only [performStore, findComment_eq]
      | listEnabledRules ten => rfl
      | _ => cases he
  | newID | now | lookup | evaluate => rfl
  | _ => cases he

theorem ensures_peek {T : GoString} (hp : Issues (fun _ _ => True) (Peek T) p Q) :
    EnsuresWhen step P p (fun _ w' => w = w') w := by
  have hstep : ∀ c e s, P c e s → Peek T e → w = s → w = (step c e s).2 ∧ True := by
    rintro c e s - he rfl
    exact ⟨(peek_step he c w).symm, trivial⟩
  exact (Issues.ensuresWhen hstep hp rfl).mono fun _ _ h => h.2

end Step

/-- The calls that touch neither attachments nor objects, open no ticket, send no mail, and comment
in the name of the system only. -/
def Routine : Call → Prop
  | .store (.createTicket _) | .send _ => False
  | .store (.createComment c) => c.authorKind = .system
  | e => Aloof e

theorem Routine.aloof (e : Call) (h : Routine e) : Aloof e := by
  unfold Routine at h
  split at h
  · exact h.elim
  · exact h.elim
  · trivial
  · exact h

theorem routine_of_peek {T : GoString} (e : Call) (h : Peek T e) : Routine e := by
  cases e with
  | store q => cases q <;> trivial
  | putObject | deleteObject | send => cases h
  | _ => trivial

theorem aloof_of_peek {T : GoString} (e : Call) (h : Peek T e) : Aloof e :=
  Routine.aloof e (routine_of_peek e h)

theorem aloof_ofExcept {α : Type} {A : (e : Call) → Answer e → Prop} (x : Except Err α) :
    Issues A Aloof (ofExcept x).run (fun _ => True) := trivial

section Routine

variable {A : (e : Call) → Answer e → Prop} {G : Call → Prop} (hG : ∀ e, Routine e → G e) (d : Deps)
  (subj : Subjects)

include hG

theorem issues_perform (T id : GoString) (at_ : Time) (w : FieldWrite) :
    Issues A G (w.perform T id at_).run (fun _ => True) := by
  cases w <;> exact ⟨hG _ trivial, fun _ _ => trivial⟩

theorem issues_appendHistory (T id : GoString) (f : Field) (old new : GoString) (k : ActorKind)
    (actor : GoString) :
    Issues A G (appendHistory T id f old new k actor).run (fun _ => True) := by
  unfold appendHistory
  split
  · trivial
  · refine Issues.lift ⟨hG _ trivial, fun _ _ => Issues.lift ⟨hG _ trivial, fun _ _ => ?_⟩⟩
    exact ⟨hG _ trivial, fun _ _ => trivial⟩

theorem issues_changeField (T id : GoString) (k : ActorKind) {plan : Ticket → Attempt (Option FieldWrite)}
    (hplan : ∀ t, Issues A G (plan t).run (fun _ => True)) :
    Issues A G (Tickets.changeField d subj T id k plan).run (fun _ => True) := by
  have hview (t : Ticket) : Issues A G (Tickets.view t true).run (fun _ => True) :=
    issues_view t true (hG _ trivial) (hG _ trivial)
  refine Issues.ask (hG _ trivial) (fun before _ => ?_) fun _ => trivial
  refine (hplan before).andThen ?_ fun _ => trivial
  rintro (_ | w) -
  · exact hview before
  · refine Issues.lift ⟨hG _ trivial, fun at_ _ => ?_⟩
    refine (issues_perform hG T id at_ w).andThen (fun after _ => ?_) fun _ => trivial
    refine (issues_appendHistory hG _ _ _ _ _ _ _).andThen (fun _ _ => ?_) fun _ => trivial
    exact Issues.lift ((issues_announce d (fun _ => hG _ trivial) T w after k).mono fun _ _ => hview after)

theorem issues_setStatusAs (id : GoString) (status : Status) (k : ActorKind) :
    Issues A G (Tickets.setStatusAs d subj id status k).run (fun _ => True) := by
  refine Issues.andThen (S := fun _ => True) trivial (fun T _ => ?_) fun _ => trivial
  split
  · exact issues_changeField hG d subj T id k fun _ => trivial
  · trivial

theorem issues_setPriorityAs (id : GoString) (priority : Priority) (k : ActorKind) :
    Issues A G (Tickets.setPriorityAs d subj id priority k).run (fun _ => True) := by
  refine Issues.andThen (S := fun _ => True) trivial (fun T _ => ?_) fun _ => trivial
  refine Issues.andThen (S := fun _ => True) trivial (fun p _ => ?_) fun _ => trivial
  exact issues_changeField hG d subj T id k fun _ => trivial

theorem issues_assignAs (id assigneeID : GoString) (k : ActorKind) :
    Issues A G (Tickets.assignAs d subj id assigneeID k).run (fun _ => True) := by
  refine Issues.andThen (S := fun _ => True) trivial (fun T _ => ?_) fun _ => trivial
  refine issues_changeField hG d subj T id k fun t => ?_
  exact (issues_chosenAssignee d T assigneeID (hG _ trivial)).andThen (fun _ _ => trivial) fun _ => trivial

omit hG in
theorem issues_attempted {name : GoString} {x : Attempt View} (hx : Issues A G x.run (fun _ => True)) :
    Issues A G (Rules.attempted name x) (fun _ => True) := by
  refine Issues.bind (hx.mono ?_)
  rintro (e | v) - <;> trivial

theorem issues_ensureTags (T : GoString) (refs : List Rules.TagRef) :
    Issues A G (Rules.ensureTags T refs) (fun _ => True) := by
  induction refs with
  | nil => trivial
  | cons ref refs ih =>
    refine Issues.bind ⟨hG _ trivial, fun r _ => Issues.bind (ih.mono ?_)⟩
    rintro ⟨ids, errs⟩ -
    rcases r with e | t <;> trivial

theorem issues_applyTags (ticketID : GoString) (tags : List Rules.TagRef) :
    Issues A G (Rules.applyTags subj ticketID tags) (fun _ => True) := by
  unfold Rules.applyTags
  split
  · trivial
  · refine Issues.bind ((issues_ensureTags hG _ tags).mono ?_)
    rintro ⟨ids, errs⟩ -
    dsimp only
    split
    · trivial
    · refine Issues.bind ⟨hG _ trivial, ?_⟩
      rintro (e | _) - <;> trivial

theorem issues_apply (ticketID : GoString) (dec : Rules.Decision) :
    Issues A G (Rules.apply d subj ticketID dec).run (fun _ => True) := by
  have hassign : Issues A G (Rules.applyAssignee d subj ticketID dec) (fun _ => True) := by
    unfold Rules.applyAssignee
    split
    · trivial
    · exact issues_attempted (issues_assignAs hG d subj _ _ _)
  have hstatus : Issues A G (Rules.applyStatus d subj ticketID dec) (fun _ => True) := by
    unfold Rules.applyStatus
    split
    · trivial
    · exact issues_attempted (issues_setStatusAs hG d subj _ _ _)
  have hpriority : Issues A G (Rules.applyPriority d subj ticketID dec) (fun _ => True) := by
    unfold Rules.applyPriority
    split
    · trivial
    · exact issues_attempted (issues_setPriorityAs hG d subj _ _ _)
  refine Issues.lift ((issues_applyTags hG subj ticketID dec.tags).mono fun _ _ =>
    Issues.lift (hassign.mono ?_))
  refine fun _ _ => Issues.lift (hstatus.mono fun _ _ => Issues.lift (hpriority.mono fun _ _ => ?_))
  dsimp only
  split <;> trivial

theorem issues_applyPlan (ticketID : GoString) (plan : Rules.Plan) :
    Issues A G (Inbound.applyPlan d subj ticketID plan) (fun _ => True) := by
  unfold Inbound.applyPlan
  split
  · exact Issues.bind ((issues_apply hG d subj ticketID _).mono fun _ _ => trivial)
  · trivial

theorem issues_reopen (t : Ticket) : Issues A G (Inbound.reopen d subj t) (fun _ => True) := by
  unfold Inbound.reopen
  split
  · refine Issues.bind ((issues_setStatusAs hG d subj _ _ _).mono ?_)
    rintro (e | v) - <;> trivial
  · trivial

theorem issues_note [GoLibrary] (T ticketID : GoString) (msg : Message) :
    Issues A G (Inbound.note T ticketID msg) (fun _ => True) := by
  unfold Inbound.note
  split
  · trivial
  · exact ⟨hG _ trivial, fun _ _ => ⟨hG _ rfl, fun _ _ => trivial⟩⟩

end Routine

section Programs

variable {A : (e : Call) → Answer e → Prop} (d : Deps) (subj : Subjects)

theorem aloof_note [GoLibrary] (T ticketID : GoString) (msg : Message) :
    Issues A Aloof (Inbound.note T ticketID msg) (fun _ => True) := issues_note Routine.aloof T ticketID msg

def replyTail (ticketID : GoString) : Act Unit := do
  match ← tryAsk (.getTicket subj.tenantID ticketID) with
  | .ok t => do
    let t ← Inbound.reopen d subj t
    emit d subj.tenantID .requesterReplied t subj.historyActor
  | .error _ => pure ()

def openTail [GoLibrary] (route : MailboxRoute) (recipient : GoString) (msg : Message) (t : Ticket)
    (plan : Rules.Plan) : Act Unit := do
  Inbound.applyPlan d subj t.id plan
  let r ← tryAsk (.getTicket subj.tenantID t.id)
  let created : Ticket := r.toOption.getD t
  emit d subj.tenantID .created created subj.historyActor
  Inbound.acknowledge d subj route recipient msg created

theorem replied_eq [GoLibrary] (ticketID commentID : GoString) (msg : Message) (staged : List Attachment) :
    Inbound.replied d subj ticketID commentID msg staged = (do
      Inbound.record commentID staged
      Inbound.note subj.tenantID ticketID msg
      replyTail d subj ticketID) := rfl

theorem opened_eq [GoLibrary] (route : MailboxRoute) (recipient : GoString) (msg : Message) (t : Ticket)
    (plan : Rules.Plan) (staged : List Attachment) :
    Inbound.opened d subj route recipient msg t plan staged = (do
      Inbound.record [] staged
      Inbound.note subj.tenantID t.id msg
      openTail d subj route recipient msg t plan) := rfl

theorem issues_replyTail {G : Call → Prop} (hG : ∀ e, Routine e → G e) (ticketID : GoString) :
    Issues A G (replyTail d subj ticketID) (fun _ => True) := by
  refine Issues.bind ⟨hG _ trivial, ?_⟩
  rintro (e | t) -
  · trivial
  · exact Issues.bind ((issues_reopen hG d subj t).mono fun t _ =>
      issues_emit d (fun _ => hG _ trivial) _ _ t _)

theorem aloof_replyTail (ticketID : GoString) :
    Issues A Aloof (replyTail d subj ticketID) (fun _ => True) :=
  issues_replyTail d subj Routine.aloof ticketID

theorem issues_openTail [GoLibrary] {G : Call → Prop} (hG : ∀ e, Routine e → G e)
    (hsend : ∀ out, G (.send out)) (route : MailboxRoute) (recipient : GoString) (msg : Message)
    (t : Ticket) (plan : Rules.Plan) :
    Issues A G (openTail d subj route recipient msg t plan) (fun _ => True) := by
  refine Issues.bind ((issues_applyPlan hG d subj t.id plan).mono fun _ _ => ?_)
  refine Issues.bind ⟨hG _ trivial, fun r _ => ?_⟩
  refine Issues.bind ((issues_emit d (fun _ => hG _ trivial) _ _ _ _).mono fun _ _ => ?_)
  exact issues_acknowledge d subj route recipient msg (fun _ => hG _ trivial) (hG _ trivial)
    (fun _ _ _ => hG _ rfl)
    hsend fun _ _ => hG _ trivial

theorem aloof_openTail [GoLibrary] (route : MailboxRoute) (recipient : GoString)
    (msg : Message) (t : Ticket) (plan : Rules.Plan) :
    Issues A Aloof (openTail d subj route recipient msg t plan) (fun _ => True) :=
  issues_openTail d subj Routine.aloof (fun _ => trivial) route recipient msg t plan

end Programs

end TangraTicket.Services
