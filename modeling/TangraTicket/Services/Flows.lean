import TangraTicket.Services.Footprint

/-!
The services that do more than quiet calls: they create tickets and change recorded fields. What any
program logic says of those two, and of quiet calls, it says of the whole operation.
-/

namespace TangraTicket.Services

open GoText Store CallProgram

structure Newborn (T : GoString) (F : GoString → Prop) (t : Ticket) : Prop where
  tenant : t.tenantID = T
  supply : F t.id
  opened : t.status = .open
  unresolved : t.resolvedAt = none

/-- A judgement on the operations of tenant `T` that can be carried through a program. -/
structure TicketLogic (T : GoString) (F : GoString → Prop) (M : {α : Type} → Act α → (α → Prop) → Prop) :
    Prop where
  quiet {α : Type} {p : Act α} {Q : α → Prop} : Quietly T F p Q → M p Q
  bind {α β : Type} {p : Act α} {f : α → Act β} {Q : β → Prop} : M p (fun a => M (f a) Q) → M (p >>= f) Q
  mono {α : Type} {p : Act α} {Q Q' : α → Prop} : M p Q → (∀ a, Q a → Q' a) → M p Q'
  create (t : Ticket) : Newborn T F t → M (tryAsk (.createTicket t)) (fun _ => True)
  change (d : Deps) (subj : Subjects) (id : GoString) (k : ActorKind)
    (plan : Ticket → Attempt (Option FieldWrite)) (_ : subj.tenantID = T) :
    (∀ t, t.tenantID = T → Quietly T F (plan t).run (fun _ => True)) →
      M (Tickets.changeField d subj T id k plan).run (fun _ => True)

namespace TicketLogic

variable {T : GoString} {F : GoString → Prop} {M : {α : Type} → Act α → (α → Prop) → Prop}
  (L : TicketLogic T F M) (d : Deps) {subj : Subjects} (hT : subj.tenantID = T)

include L

theorem lift {α β : Type} {p : Act α} {f : α → Attempt β} {Q : Except Err β → Prop}
    (hp : M p (fun a => M (f a).run Q)) : M (liftM p >>= f).run Q := by
  rw [run_lift_bind]
  exact L.bind hp

theorem andThen {α β : Type} {x : Attempt α} {f : α → Attempt β} {Q : Except Err β → Prop}
    {S : Except Err α → Prop} (hx : M x.run S) (hok : ∀ a, S (.ok a) → M (f a).run Q)
    (herr : ∀ e, Q (.error e)) :
    M (x >>= f).run Q := by
  rw [run_bind]
  refine L.bind (L.mono hx ?_)
  rintro (e | a) ha
  · exact L.quiet (herr e)
  · exact hok a ha

theorem ask {β : Type} {q : StoreCall} {g : RepoErr → Err} {f : q.Value → Attempt β}
    {Q : Except Err β → Prop} (hq : M (tryAsk q) (fun r => ∀ v, r = .ok v → M (f v).run Q))
    (herr : ∀ e, Q (.error e)) :
    M (Services.ask q g >>= f).run Q := by
  rw [run_bind]
  refine L.bind (L.bind (L.mono hq ?_))
  rintro (e | v) hv
  · exact L.quiet (L.quiet (herr (g e)))
  · exact L.quiet (hv v rfl)

theorem askQuiet {β : Type} {q : StoreCall} {g : RepoErr → Err} {f : q.Value → Attempt β}
    {Q : Except Err β → Prop} (hq : Quiet T F (.store q))
    (hok : ∀ v, Honest F (.store q) (.ok v) → M (f v).run Q) (herr : ∀ e, Q (.error e)) :
    M (Services.ask q g >>= f).run Q := by
  refine L.ask (L.quiet ⟨hq, ?_⟩) herr
  rintro _ hr v rfl
  exact hok v hr

theorem attempted {name : GoString} {x : Attempt View} (hx : M x.run (fun _ => True)) :
    M (Rules.attempted name x) (fun _ => True) := by
  refine L.bind (L.mono hx ?_)
  rintro (e | v) - <;> exact L.quiet trivial

include hT

theorem forTenant {β : Type} {f : GoString → Attempt β} (hf : M (f T).run (fun _ => True)) :
    M (ofExcept (tenantOf subj) >>= f).run (fun _ => True) := by
  refine L.andThen (L.quiet (quiet_tenantOf hT)) (fun ten hten => ?_) fun _ => trivial
  rw [hten ten rfl]
  exact hf

theorem setStatusAs (id : GoString) (status : Status) (k : ActorKind) :
    M (Tickets.setStatusAs d subj id status k).run (fun _ => True) := by
  refine L.forTenant hT ?_
  split
  · exact L.change d subj id k _ hT fun _ _ => trivial
  · exact L.quiet trivial

theorem setPriorityAs (id : GoString) (priority : Priority) (k : ActorKind) :
    M (Tickets.setPriorityAs d subj id priority k).run (fun _ => True) := by
  refine L.forTenant hT (L.andThen (L.quiet (quiet_ofExcept _)) (fun p _ => ?_) fun _ => trivial)
  exact L.change d subj id k _ hT fun _ _ => trivial

theorem assignAs (id assigneeID : GoString) (k : ActorKind) :
    M (Tickets.assignAs d subj id assigneeID k).run (fun _ => True) := by
  refine L.forTenant hT (L.change d subj id k _ hT fun t _ => ?_)
  exact (quiet_chosenAssignee d T assigneeID).andThen (fun _ _ => trivial) fun _ => trivial

theorem update (id : GoString) (input : UpdateInput) :
    M (Tickets.update d subj id input).run (fun _ => True) := by
  refine L.forTenant hT (L.andThen (L.quiet (quiet_ofExcept _)) (fun p _ => ?_) fun _ => trivial)
  exact L.change d subj id _ _ hT fun _ _ => trivial

theorem createManual [GoLibrary] (input : CreateInput) :
    M (Tickets.create d subj input).run (fun _ => True) := by
  refine L.forTenant hT ?_
  refine L.andThen (L.quiet (quiet_ofExcept _)) (fun subject _ => ?_) fun _ => trivial
  refine L.andThen (L.quiet (quiet_ofExcept _)) (fun desc _ => ?_) fun _ => trivial
  refine L.andThen (L.quiet (quiet_ofExcept _)) (fun requester _ => ?_) fun _ => trivial
  refine L.andThen (L.quiet (quiet_ofExcept _)) (fun prio _ => ?_) fun _ => trivial
  refine L.lift (L.quiet ⟨trivial, fun at_ _ => L.lift (L.quiet ⟨trivial, fun id hid => ?_⟩)⟩)
  refine L.andThen (L.quiet (quiet_chosenAssignee d T _)) (fun u _ => ?_) fun _ => trivial
  refine L.ask (L.mono (L.create _ ⟨rfl, hid, rfl, rfl⟩) fun _ _ _ _ => L.quiet ?_) fun _ => trivial
  refine Issues.ask rfl (fun t ht => Issues.lift ?_) fun _ => trivial
  exact (quiet_emit d _ _ _).mono fun _ _ => quiet_view ht.1 false

theorem reopenReplied (t : Ticket) : M (Comments.reopen d subj t) (fun _ => True) := by
  unfold Comments.reopen
  split
  · exact L.bind (L.mono (L.setStatusAs d hT _ _ _) fun _ _ => L.quiet trivial)
  · exact L.quiet trivial

theorem reply [GoLibrary] (ticketID body : GoString) :
    M (Comments.reply d subj ticketID body).run (fun _ => True) := by
  refine L.forTenant hT ?_
  refine L.andThen (L.quiet (quiet_ofExcept _)) (fun body _ => ?_) fun _ => trivial
  refine L.askQuiet rfl (fun t ht => ?_) fun _ => trivial
  refine L.andThen (L.quiet (quiet_compose d ht.1 body)) (fun out _ => ?_) fun _ => trivial
  refine L.lift (L.quiet ⟨trivial, fun id hid => L.lift (L.quiet ((quiet_author d subj _).mono ?_))⟩)
  rintro c ⟨hten, hcid⟩
  refine L.askQuiet ⟨hten, hcid ▸ hid⟩ (fun _ _ => ?_) fun _ => trivial
  refine L.lift (L.quiet ⟨trivial, fun sent _ => L.lift (L.quiet ⟨rfl, fun _ _ => ?_⟩)⟩)
  refine L.lift (L.quiet ⟨rfl, fun stored _ => ?_⟩)
  dsimp only
  split
  · refine L.lift (L.mono (L.reopenReplied d hT t) fun _ _ => L.lift (L.quiet ?_))
    exact (quiet_commented d subj _).mono fun _ _ => L.quiet trivial
  · exact L.lift (L.quiet ((quiet_commented d subj _).mono fun _ _ => L.quiet trivial))

theorem applyDecision (ticketID : GoString) (dec : Rules.Decision) :
    M (Rules.apply d subj ticketID dec).run (fun _ => True) := by
  have hassign : M (Rules.applyAssignee d subj ticketID dec) (fun _ => True) := by
    unfold Rules.applyAssignee
    split
    · exact L.quiet trivial
    · exact L.attempted (L.assignAs d hT _ _ _)
  have hstatus : M (Rules.applyStatus d subj ticketID dec) (fun _ => True) := by
    unfold Rules.applyStatus
    split
    · exact L.quiet trivial
    · exact L.attempted (L.setStatusAs d hT _ _ _)
  have hpriority : M (Rules.applyPriority d subj ticketID dec) (fun _ => True) := by
    unfold Rules.applyPriority
    split
    · exact L.quiet trivial
    · exact L.attempted (L.setPriorityAs d hT _ _ _)
  refine L.lift (L.mono (L.quiet (quiet_applyTags subj hT ticketID dec.tags)) fun _ _ => ?_)
  refine L.lift (L.mono hassign fun _ _ => L.lift (L.mono hstatus fun _ _ => L.lift (L.mono hpriority ?_)))
  intro _ _
  dsimp only
  split <;> exact L.quiet trivial

theorem reopenInbound (t : Ticket) : M (Inbound.reopen d subj t) (fun _ => True) := by
  unfold Inbound.reopen
  split
  · refine L.bind (L.mono (L.setStatusAs d hT _ _ _) ?_)
    rintro (e | v) - <;> exact L.quiet trivial
  · exact L.quiet trivial

theorem replied [GoLibrary] (ticketID commentID : GoString) (msg : Message) (staged : List Attachment)
    (hst : ∀ a ∈ staged, Staged T F a) :
    M (Inbound.replied d subj ticketID commentID msg staged) (fun _ => True) := by
  subst hT
  refine L.bind (L.quiet ((quiet_record commentID staged hst).mono fun _ _ => L.bind (L.quiet ?_)))
  refine (quiet_note ticketID msg).mono fun _ _ => L.bind (L.quiet ⟨rfl, ?_⟩)
  rintro (e | t) -
  · exact L.quiet trivial
  · exact L.bind (L.mono (L.reopenInbound d rfl t) fun t _ => L.quiet (quiet_emit d _ t _))

theorem inboundReply [GoLibrary] (ticketID : GoString) (msg : Message) :
    M (Inbound.reply d subj ticketID msg).run (fun _ => True) := by
  subst hT
  refine L.andThen (L.quiet (quiet_upload ticketID msg.attachments [] (by simp))) (fun staged hst => ?_)
    fun _ => trivial
  refine L.lift (L.quiet ⟨trivial, fun id hid => L.lift (L.quiet ⟨⟨rfl, hid⟩, ?_⟩)⟩)
  rintro (e | _) -
  · refine L.lift (L.quiet ((quiet_deleteObjects _).mono fun _ _ => ?_))
    cases e <;> exact L.quiet trivial
  · exact L.lift (L.mono (L.replied d rfl _ _ msg staged (hst staged rfl)) fun _ _ => L.quiet trivial)

theorem applyPlan (ticketID : GoString) (plan : Rules.Plan) :
    M (Inbound.applyPlan d subj ticketID plan) (fun _ => True) := by
  unfold Inbound.applyPlan
  split
  · exact L.bind (L.mono (L.applyDecision d hT ticketID _) fun _ _ => L.quiet trivial)
  · exact L.quiet trivial

theorem opened [GoLibrary] (route : MailboxRoute) (recipient : GoString) (msg : Message) (t : Ticket)
    (ht : t.tenantID = T) (plan : Rules.Plan) (staged : List Attachment)
    (hst : ∀ a ∈ staged, Staged T F a) :
    M (Inbound.opened d subj route recipient msg t plan staged) (fun _ => True) := by
  subst hT
  refine L.bind (L.quiet ((quiet_record [] staged hst).mono fun _ _ => L.bind (L.quiet ?_)))
  refine (quiet_note t.id msg).mono fun _ _ =>
    L.bind (L.mono (L.applyPlan d rfl t.id plan) fun _ _ => L.quiet ?_)
  refine Issues.bind ⟨rfl, fun r hr => Issues.bind ((quiet_emit d _ _ _).mono fun _ _ => ?_)⟩
  refine quiet_acknowledge d subj route recipient msg ?_
  rcases r with e | t'
  · exact ht
  · exact hr.1

theorem createInbound [GoLibrary] (route : MailboxRoute) (recipient : GoString) (msg : Message)
    (plan : Rules.Plan) : M (Inbound.create d subj route recipient msg plan).run (fun _ => True) := by
  subst hT
  refine L.lift (L.quiet ⟨trivial, fun id hid => ?_⟩)
  refine L.andThen (L.quiet (quiet_upload id msg.attachments [] (by simp))) (fun staged hst => ?_)
    fun _ => trivial
  refine L.lift (L.mono (L.create _ ⟨rfl, hid, rfl, rfl⟩) ?_)
  rintro (e | _) -
  · refine L.lift (L.quiet ((quiet_deleteObjects _).mono fun _ _ => L.quiet ?_))
    split
    · refine Issues.lift ⟨rfl, ?_⟩
      rintro (e | ex) - <;> trivial
    · trivial
  · exact L.lift (L.mono (L.opened d rfl route recipient msg _ rfl plan staged (hst staged rfl))
      fun _ _ => L.quiet trivial)

theorem openNew [GoLibrary] (route : MailboxRoute) (recipient : GoString) (msg : Message) :
    M (Inbound.openNew d subj route recipient msg).run (fun _ => True) := by
  refine L.lift (L.quiet ((quiet_triagePlan d subj hT recipient msg).mono fun plan _ => ?_))
  split
  · exact L.quiet trivial
  · exact L.createInbound d hT route recipient msg plan

theorem ingest [GoLibrary] (route : MailboxRoute) (hroute : route.tenantID = T) (recipient : GoString)
    (msg : Message) : M (Inbound.ingest d subj route recipient msg).run (fun _ => True) := by
  have hnew := L.openNew d hT route recipient msg
  unfold Inbound.ingest
  rw [hroute]
  refine L.andThen (L.quiet (quiet_duplicate msg.messageID)) ?_ fun _ => trivial
  rintro (_ | id) -
  · refine L.lift (L.quiet ((quiet_resolve _ _ _).mono ?_))
    rintro (e | _ | found) -
    · exact L.quiet trivial
    · exact hnew
    · dsimp only
      split
      · exact hnew
      · refine L.lift (L.mono (L.inboundReply d hT found.ticketID msg) ?_)
        rintro (e | receipt) -
        · cases e <;> first | exact hnew | exact L.quiet trivial
        · exact L.quiet trivial
  · exact L.quiet trivial

end TicketLogic

end TangraTicket.Services
