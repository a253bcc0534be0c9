import TangraTicket.Properties.ExactlyOnce
import TangraTicket.Services.Custody
import TangraTicket.Services.Operations

/-!
Acknowledgements of deliveries that run side by side. A delivery sends its one mail after its own
ticket row went in, and the store takes one row for a message id of a tenant.
-/

namespace TangraTicket.Services

open GoText Store KeyedTable CallProgram

def Mute : Call → Prop
  | .send _ | .store (.createTicket _) => False
  | _ => True

/-- The mail a thread has handed to the relay. -/
def mailed (log : Log) : List OutMail :=
  log.filterMap fun x =>
    match x.call with
    | .send mail => some mail
    | _ => none

def Opens (T msgID : GoString) : (e : Call) → Answer e → Prop
  | .store (.createTicket t), .ok _ => (t.tenantID, t.externalID) = (T, msgID)
  | _, _ => False

def Opened (T msgID : GoString) (log : Log) : Prop := ∃ x ∈ log, Opens T msgID x.call x.answer

def Acks (T msgID : GoString) (log : Log) : Call → Prop
  | .send _ => Opened T msgID log ∧ mailed log = []
  | .store (.createTicket t) => (t.tenantID, t.externalID) = (T, msgID)
  | _ => True

theorem mailed_append (log l : Log) : mailed (log ++ l) = mailed log ++ mailed l := List.filterMap_append

theorem mailed_mute {l : Log} (h : ∀ x ∈ l, Mute x.call) : mailed l = [] := by
  refine List.filterMap_eq_nil_iff.mpr fun x hx => ?_
  have hm := h x hx
  split
  · rename_i mail hsend
    rw [hsend] at hm
    exact hm.elim
  · rfl

theorem Mute.acks {T msgID : GoString} {log : Log} {e : Call} (h : Mute e) : Acks T msgID log e := by
  unfold Acks
  split
  · exact h.elim
  · exact h.elim
  · trivial

def SingleMail (T msgID : GoString) (log : Log) : Prop :=
  mailed log ≠ [] → (mailed log).length = 1 ∧ Opened T msgID log

theorem Opened.append {T msgID : GoString} {log : Log} (h : Opened T msgID log) (l : Log) :
    Opened T msgID (log ++ l) := by
  obtain ⟨x, hx, ho⟩ := h
  exact ⟨x, List.mem_append_left l hx, ho⟩

theorem SingleMail.snoc {T msgID : GoString} {log : Log} {e : Call} (h : SingleMail T msgID log)
    (he : Acks T msgID log e) (r : Answer e) : SingleMail T msgID (log ++ [⟨e, r⟩]) := by
  unfold SingleMail
  rw [mailed_append]
  cases e with
  | send mail =>
    obtain ⟨hopen, hnone⟩ := he
    rw [hnone]
    exact fun _ => ⟨rfl, hopen.append _⟩
  | _ =>
    rw [show mailed [_] = [] from rfl, List.append_nil]
    exact fun hsent => ⟨(h hsent).1, (h hsent).2.append _⟩

theorem Routine.mute (e : Call) (h : Routine e) : Mute e := by
  cases e with
  | store q => cases q <;> trivial
  | _ => trivial

section Mute

variable {A : (e : Call) → Answer e → Prop} (d : Deps) (subj : Subjects)

theorem mute_deleteObjects (keys : List GoString) :
    Issues A Mute (Tickets.deleteObjects keys) (fun _ => True) :=
  issues_deleteObjects fun _ _ => trivial

theorem mute_upload (T ticketID : GoString) (atts : List MailAttachment) (out : List Attachment) :
    Issues A Mute (Inbound.upload T ticketID atts out).run (fun _ => True) :=
  issues_upload trivial (fun _ _ _ => trivial) (fun _ => trivial) T ticketID atts out

theorem mute_record (commentID : GoString) (st : List Attachment) :
    Issues A Mute (Inbound.record commentID st) (fun _ => True) :=
  issues_record (fun _ => trivial) (fun _ => trivial) commentID st

theorem mute_reply [GoLibrary] (ticketID : GoString) (msg : Message) :
    Issues A Mute (Inbound.reply d subj ticketID msg).run (fun _ => True) := by
  refine (mute_upload _ ticketID msg.attachments []).andThen (fun staged _ => ?_) fun _ => trivial
  refine Issues.lift ⟨trivial, fun id _ => Issues.lift ⟨trivial, ?_⟩⟩
  rintro (e | _) -
  · refine Issues.lift ((mute_deleteObjects _).mono fun _ _ => ?_)
    cases e <;> trivial
  · rw [replied_eq]
    refine Issues.lift (Issues.bind ((mute_record _ staged).mono fun _ _ => Issues.bind ?_))
    refine (issues_note Routine.mute _ ticketID msg).mono fun _ _ => ?_
    exact (issues_replyTail d subj Routine.mute ticketID).mono fun _ _ => trivial

end Mute

section Walk

variable {A : (e : Call) → Answer e → Prop} {Φ : Log → Call → Prop} {log : Log}
  (hmute : ∀ l e, Mute e → Φ l e)

include hmute

theorem obeys_mute {α : Type} {p : Act α} {Q : α → Prop} (hp : Issues A Mute p Q) (log : Log) :
    Obeys A Φ (fun l a => Q a ∧ ∃ l', l = log ++ l' ∧ ∀ x ∈ l', Mute x.call) log p :=
  hp.obeys fun _ _ _ => hmute _ _

variable [GoLibrary] (d : Deps) (subj : Subjects) (route : MailboxRoute) (recipient : GoString)
  (msg : Message)

theorem obeys_acknowledge (t : Ticket)
    (hsend : ∀ (l : Log) out id, (∀ x ∈ l, Mute x.call) →
      Φ (log ++ (l ++ ([⟨.store (.createComment (Inbound.ackComment subj t out id)), .ok ()⟩] : Log)))
        (.send out)) :
    Obeys A Φ (fun _ _ => True) log (Inbound.acknowledge d subj route recipient msg t) := by
  have hsuppressed := issues_ackSuppressed (A := A) (G := Mute) d (fun _ => trivial) route recipient msg t
  refine Obeys.bind (Obeys.mono (obeys_mute hmute hsuppressed log) ?_)
  rintro _ suppressed ⟨-, l, rfl, hl⟩
  split
  · trivial
  · refine Obeys.bind (Obeys.mono (obeys_mute hmute (issues_messageID trivial _ _) _) ?_)
    rintro _ messageID ⟨-, l', rfl, hl'⟩
    dsimp only
    split
    · refine ⟨hmute _ _ trivial, fun id _ => ⟨hmute _ _ trivial, ?_⟩⟩
      rintro (e | _) -
      · trivial
      · refine ⟨?_, fun _ _ => ⟨hmute _ _ trivial, fun _ _ => trivial⟩⟩
        have hmuted : ∀ x ∈ l ++ (l' ++ [(⟨.newID, id⟩ : Event Call Answer)]), Mute x.call := by
          simp only [List.forall_mem_append, List.forall_mem_singleton]
          exact ⟨hl, hl', trivial⟩
        have hnext :=
          hsend _ (Inbound.withoutThread (Inbound.ackMail route recipient t messageID)) id hmuted
        simp only [List.append_assoc] at hnext ⊢
        exact hnext
    · trivial

def Allows (A : (e : Call) → Answer e → Prop) (Φ : Log → Call → Prop) (log : Log) : Prop :=
  ∀ l t, (∀ x ∈ l, Mute x.call) → t.tenantID = subj.tenantID → t.externalID = msg.messageID →
    Φ (log ++ l) (.store (.createTicket t)) ∧
      ∀ l' t', (∀ x ∈ l', Mute x.call) → t'.tenantID = t.tenantID → t'.id = t.id →
        Obeys A Φ (fun _ _ => True) (log ++ l ++ ⟨.store (.createTicket t), .ok ()⟩ :: l')
          (Inbound.acknowledge d subj route recipient msg t')

omit hmute in
theorem Allows.append {l : Log} (h : Allows d subj route recipient msg A Φ log)
    (hl : ∀ x ∈ l, Mute x.call) :
    Allows d subj route recipient msg A Φ (log ++ l) := by
  intro l' t hl' hT hid
  rw [List.append_assoc]
  exact h (l ++ l') t (List.forall_mem_append.mpr ⟨hl, hl'⟩) hT hid

variable (hA : ∀ ten id t, A (.store (.getTicket ten id)) (.ok t) → Ticket.tenantID t = ten ∧
  Ticket.id t = id)

include hA

theorem obeys_create (hallows : Allows d subj route recipient msg A Φ log) (plan : Rules.Plan) :
    Obeys A Φ (fun _ _ => True) log (Inbound.create d subj route recipient msg plan).run := by
  refine Obeys.lift ⟨hmute _ _ trivial, fun id _ => ?_⟩
  refine Obeys.andThen (obeys_mute hmute (mute_upload _ _ msg.attachments []) _) ?_ fun _ _ _ => trivial
  rintro _ staged ⟨-, l, rfl, hl⟩
  let t := Inbound.newTicket subj route recipient msg id
  have hstart : ∀ x ∈ (⟨.newID, id⟩ : Event Call Answer) :: l, Mute x.call :=
    List.forall_mem_cons.mpr ⟨trivial, hl⟩
  obtain ⟨hinsert, hack⟩ := hallows (⟨.newID, id⟩ :: l) t hstart rfl rfl
  rw [List.append_cons] at hinsert hack
  refine Obeys.lift ⟨hinsert, ?_⟩
  rintro (e | u) -
  · refine Obeys.lift (Obeys.mono (obeys_mute hmute (mute_deleteObjects _) _) fun l' _ _ => ?_)
    split
    · refine Obeys.lift ⟨hmute _ _ trivial, ?_⟩
      rintro (_ | t) - <;> trivial
    · trivial
  · -- the row is in; all that follows is silent up to the acknowledgement
    rw [opened_eq]
    refine Obeys.lift (Obeys.bind (Obeys.mono (obeys_mute hmute (mute_record [] staged) _) ?_))
    rintro _ _ ⟨-, l₁, rfl, h₁⟩
    refine Obeys.bind (Obeys.mono (obeys_mute hmute (issues_note Routine.mute _ _ msg) _) ?_)
    rintro _ _ ⟨-, l₂, rfl, h₂⟩
    refine Obeys.bind (Obeys.mono (obeys_mute hmute (issues_applyPlan Routine.mute d subj _ plan) _) ?_)
    rintro _ _ ⟨-, l₃, rfl, h₃⟩
    refine Obeys.bind ⟨hmute _ _ trivial, fun r hr => ?_⟩
    have hread : (r.toOption.getD t).tenantID = t.tenantID ∧ (r.toOption.getD t).id = t.id := by
      cases r with
      | error e => exact ⟨rfl, rfl⟩
      | ok t' => exact hA _ _ _ hr
    refine Obeys.bind (Obeys.mono (obeys_mute hmute (issues_emit d (fun _ => trivial) _ _ _ _) _) ?_)
    rintro _ _ ⟨-, l₅, rfl, h₅⟩
    have hrest : ∀ x ∈ l₁ ++ (l₂ ++ (l₃ ++ (⟨.store (.getTicket subj.tenantID t.id), r⟩ :: l₅))),
        Mute x.call := by
      simp only [List.forall_mem_append, List.forall_mem_cons]
      exact ⟨h₁, h₂, h₃, trivial, h₅⟩
    have hacked := hack _ _ hrest hread.1 hread.2
    simp only [List.append_assoc, List.cons_append, List.nil_append] at hacked ⊢
    exact hacked

theorem obeys_openNew (hallows : Allows d subj route recipient msg A Φ log) :
    Obeys A Φ (fun _ _ => True) log (Inbound.openNew d subj route recipient msg).run := by
  have hpeek : ∀ e, Peek subj.tenantID e → Mute e := fun e he => Routine.mute e (routine_of_peek e he)
  refine Obeys.lift (Obeys.mono (obeys_mute hmute (issues_triagePlan hpeek d subj rfl recipient msg) _) ?_)
  rintro _ plan ⟨-, l, rfl, hl⟩
  split
  · trivial
  · exact obeys_create hmute d subj route recipient msg hA
      (hallows.append d subj route recipient msg hl) plan

theorem obeys_ingest (hroute : route.tenantID = subj.tenantID)
    (hallows : Allows d subj route recipient msg A Φ log) :
    Obeys A Φ (fun _ _ => True) log (Inbound.ingest d subj route recipient msg).run := by
  have hpeek : ∀ e, Peek subj.tenantID e → Mute e := fun e he => Routine.mute e (routine_of_peek e he)
  have hnew : ∀ l, (∀ x ∈ l, Mute x.call) →
      Obeys A Φ (fun _ _ => True) (log ++ l) (Inbound.openNew d subj route recipient msg).run :=
    fun l hl => obeys_openNew hmute d subj route recipient msg hA
      (hallows.append d subj route recipient msg hl)
  unfold Inbound.ingest
  rw [hroute]
  refine Obeys.andThen (obeys_mute hmute (issues_duplicate hpeek msg.messageID) _) ?_ fun _ _ _ => trivial
  rintro _ (_ | id) ⟨-, l, rfl, hl⟩
  · refine Obeys.lift (Obeys.mono (obeys_mute hmute (issues_resolve hpeek _ _ _) _) ?_)
    rintro _ (e | _ | found) ⟨-, l', rfl, hl'⟩
    · trivial
    · rw [List.append_assoc]
      exact hnew _ (List.forall_mem_append.mpr ⟨hl, hl'⟩)
    · dsimp only
      split
      · rw [List.append_assoc]
        exact hnew _ (List.forall_mem_append.mpr ⟨hl, hl'⟩)
      · refine Obeys.lift (Obeys.mono (obeys_mute hmute (mute_reply d subj found.ticketID msg) _) ?_)
        rintro _ (e | receipt) ⟨-, l'', rfl, hl''⟩
        · have hall : ∀ x ∈ l ++ (l' ++ l''), Mute x.call := by
            simp only [List.forall_mem_append]
            exact ⟨hl, hl', hl''⟩
          have hagain := hnew _ hall
          rw [← List.append_assoc, ← List.append_assoc] at hagain
          cases e <;> first | exact hagain | trivial
        · trivial
  · trivial

end Walk

section Acks

variable {A : (e : Call) → Answer e → Prop} {T msgID : GoString} {log : Log}

variable [GoLibrary] (d : Deps) (subj : Subjects) (route : MailboxRoute) (recipient : GoString)
  (msg : Message)

theorem acks_acknowledge (t : Ticket) (hopen : Opened T msgID log) (hlog : mailed log = []) :
    Obeys A (Acks T msgID) (fun _ _ => True) log (Inbound.acknowledge d subj route recipient msg t) := by
  refine obeys_acknowledge (fun _ _ => Mute.acks) d subj route recipient msg t fun l out id hl =>
    ⟨hopen.append _, ?_⟩
  rw [mailed_append, mailed_append, hlog, mailed_mute hl]
  rfl

theorem acks_ingest (hT : subj.tenantID = T) (hroute : route.tenantID = T) (hlog : mailed log = [])
    (hA : ∀ ten id t, A (.store (.getTicket ten id)) (.ok t) → Ticket.tenantID t = ten ∧ Ticket.id t = id) :
    Obeys A (Acks T msg.messageID) (fun _ _ => True) log
      (Inbound.ingest d subj route recipient msg).run := by
  subst hT
  refine obeys_ingest (fun _ _ => Mute.acks) d subj route recipient msg hA hroute fun l t hl hT hid => ?_
  refine ⟨Prod.ext hT hid, fun l' t' hl' _ _ => acks_acknowledge d subj route recipient msg t' ?_ ?_⟩
  · exact ⟨_, List.mem_append_right _ List.mem_cons_self, Prod.ext hT hid⟩
  · rw [List.append_cons, mailed_append, mailed_append, mailed_append, hlog, mailed_mute hl,
      mailed_mute hl']
    rfl

end Acks

/-- The operations that delete nothing and import nothing. -/
def Operation.Keeps : Operation → Prop
  | .delete .. | .deleteComment .. | .importBackup .. => False
  | _ => True

def Operation.tenantID : Operation → GoString
  | .create subj _ | .update subj .. | .delete subj _ | .assignAs subj .. | .setStatusAs subj ..
  | .setPriorityAs subj .. | .addNote subj .. | .reply subj .. | .deleteComment subj _ | .applyRules subj ..
  | .importBackup subj .. => subj.tenantID
  | .ingest route .. => route.tenantID

def Operation.Contract : Operation → Log → Call → Prop
  | .ingest route _ msg, log, e => Scoped route.tenantID (fun _ => True) e ∧
      Acks route.tenantID msg.messageID log e
  | op, _, e => Scoped op.tenantID (fun _ => True) e

theorem scoped_finish {ε α : Type} {T : GoString} {x : Fallible Call Answer ε α}
    (hx : Issues (Honest fun _ => True) (Scoped T fun _ => True) x.run (fun _ => True)) :
    Obeys (Honest fun _ => True) (fun _ => Scoped T fun _ => True) (fun _ _ => True) [] (finish x) :=
  Obeys.bind (Obeys.mono (delivers_scoped hx) fun _ _ _ => trivial)

theorem contract_act [GoLibrary] (d : Deps) {op : Operation} (hop : op.Keeps) :
    Obeys (Honest fun _ => True) op.Contract (fun _ _ => True) [] (op.act d) := by
  cases op with
  | create subj input => exact scoped_finish (scopedLogic.createManual d rfl input)
  | update subj id input => exact scoped_finish (scopedLogic.update d rfl id input)
  | assignAs subj id a k => exact scoped_finish (scopedLogic.assignAs d rfl id a k)
  | setStatusAs subj id s k => exact scoped_finish (scopedLogic.setStatusAs d rfl id s k)
  | setPriorityAs subj id p k => exact scoped_finish (scopedLogic.setPriorityAs d rfl id p k)
  | addNote subj id body => exact scoped_finish (scopedLogic.quiet (quiet_addNote d subj rfl id body))
  | reply subj id body => exact scoped_finish (scopedLogic.reply d rfl id body)
  | applyRules subj id dec => exact scoped_finish (scopedLogic.applyDecision d rfl id dec)
  | ingest route recipient msg =>
    have hT : (systemFor route.tenantID).tenantID = route.tenantID := rfl
    have hscoped : Delivers route.tenantID (Settled route.tenantID msg.messageID) []
        (Inbound.ingest d (systemFor route.tenantID) route recipient msg).run :=
      delivers_ingest d hT route recipient msg rfl
    have hacks : Obeys (Honest fun _ => True) (Acks route.tenantID msg.messageID) (fun _ _ => True) []
        (Inbound.ingest d (systemFor route.tenantID) route recipient msg).run :=
      acks_ingest d _ route recipient msg hT rfl rfl fun _ _ _ h => h
    exact Obeys.bind (Obeys.mono (Obeys.and hscoped hacks) fun _ _ _ => trivial)
  | delete | deleteComment | importBackup => exact hop.elim

theorem Operation.Contract.scoped {op : Operation} {log : Log} {e : Call} (h : op.Contract log e) :
    Scoped op.tenantID (fun _ => True) e := by
  cases op with
  | ingest => exact h.1
  | _ => exact h

theorem IDStep.ticketIDs_subset {m m' : Mem} {e : Call} (h : IDStep m m' e) :
    ticketIDs m ⊆ ticketIDs m' := by
  cases h with
  | same ht _ => rw [ht]; exact List.Subset.refl _
  | ticket t _ ht _ => rw [ht]; exact List.subset_append_left _ _
  | comment c _ ht _ => rw [ht]; exact List.Subset.refl _

theorem opens_recorded [GoLibrary] {e : Call} {c : Choice} {w : World} {T msgID : GoString}
    (hne : msgID ≠ []) (h : Opens T msgID e (step c e w).1) :
    (T, msgID) ∉ ticketIDs w.mem ∧ (T, msgID) ∈ ticketIDs (step c e w).2.mem := by
  obtain ⟨t, rfl⟩ : ∃ t, e = .store (.createTicket t) := by
    unfold Opens at h
    split at h
    · exact ⟨_, rfl⟩
    · exact h.elim
  cases hf : c.fail (StoreCall.createTicket t).method with
  | true =>
    rw [step_store_failed hf] at h
    exact h.elim
  | false =>
    rw [step_store hf] at h ⊢
    cases hr : (w.mem.createTicket c.now t).1 with
    | error e =>
      simp only [performStore, hr] at h
      exact h.elim
    | ok u =>
      have hpair : (t.tenantID, t.externalID) = (T, msgID) := by
        simp only [performStore, hr] at h
        exact h
      obtain ⟨rfl, rfl⟩ := Prod.mk.inj hpair
      refine ⟨?_, createTicket_recorded hr⟩
      obtain ⟨e, he⟩ | ⟨-, hext, -⟩ := createTicket_cases c.now w.mem t
      · rw [he] at hr
        cases hr
      · rintro hmem
        obtain ⟨x, hx, hxpair⟩ := List.mem_map.mp hmem
        exact hext hne x hx (Prod.mk.inj hxpair).1 (Prod.mk.inj hxpair).2

section Interleaved

variable {ι : Type} [DecidableEq ι]

structure AcksKept (ops : ι → Operation) (cfg : Config ι Call Answer Unit World) : Prop where
  recorded : ∀ i T msgID, msgID ≠ [] → Opened T msgID (cfg.threads i).log →
    (T, msgID) ∈ ticketIDs cfg.state.mem
  single : ∀ i j T msgID, msgID ≠ [] → Opened T msgID (cfg.threads i).log →
    Opened T msgID (cfg.threads j).log → i = j
  once : ∀ i route recipient msg, ops i = .ingest route recipient msg →
    SingleMail route.tenantID msg.messageID (cfg.threads i).log

variable {cfg : Config ι Call Answer Unit World} {i j : ι} {e : Call} {k : Answer e → Act Unit}
  {o : Answer e × World}

theorem opened_answered {T msgID : GoString} :
    Opened T msgID ((cfg.answered i e k o).threads j).log ↔
      Opened T msgID (cfg.threads j).log ∨ j = i ∧ Opens T msgID e o.1 := by
  rw [Config.log_answered]
  by_cases hj : j = i <;> simp [Opened, hj, or_and_right, exists_or]

variable [GoLibrary]

theorem AcksKept.answered {ops : ι → Operation} {c : Choice} (h : AcksKept ops cfg)
    (he : (ops i).Contract (cfg.threads i).log e) :
    AcksKept ops (cfg.answered i e k (step c e cfg.state)) := by
  have hsub : ticketIDs cfg.state.mem ⊆ ticketIDs (step c e cfg.state).2.mem :=
    (scoped_idStep he.scoped c cfg.state).ticketIDs_subset
  refine ⟨fun j T msgID hne hj => ?_, fun j₁ j₂ T msgID hne h₁ h₂ => ?_, fun j route recipient msg hj => ?_⟩
  · obtain hj | ⟨-, hj⟩ := opened_answered.mp hj
    · exact hsub (h.recorded j T msgID hne hj)
    · exact (opens_recorded hne hj).2
  · rcases opened_answered.mp h₁ with hold₁ | ⟨rfl, hnew₁⟩
    · rcases opened_answered.mp h₂ with hold₂ | ⟨-, hnew₂⟩
      · exact h.single j₁ j₂ T msgID hne hold₁ hold₂
      · exact absurd (h.recorded j₁ T msgID hne hold₁) (opens_recorded hne hnew₂).1
    · rcases opened_answered.mp h₂ with hold₂ | ⟨rfl, -⟩
      · exact absurd (h.recorded j₂ T msgID hne hold₂) (opens_recorded hne hnew₁).1
      · rfl
  · have hlog := h.once j route recipient msg hj
    rw [Config.log_answered]
    split
    · rename_i hji
      subst hji
      rw [hj] at he
      exact hlog.snoc he.2 _
    · rwa [List.append_nil]

/-- Of the deliveries of one message id to one tenant, among any other deliveries and operations
that delete and import nothing, at most one sends a mail; it sends one, and its ticket row went in. -/
theorem acknowledged_once (d : Deps) (ops : ι → Operation) (hops : ∀ i, (ops i).Keeps) {w : World}
    {cfg : Config ι Call Answer Unit World}
    (h : Reaches step (fun _ _ _ => True) (Config.start w fun i => (ops i).act d) cfg) {i : ι}
    {route : MailboxRoute} {recipient : GoString} {msg : Message}
    (hi : ops i = .ingest route recipient msg) (hid : msg.messageID ≠ [])
    (hsent : mailed (cfg.threads i).log ≠ []) :
    (mailed (cfg.threads i).log).length = 1 ∧ Opened route.tenantID msg.messageID (cfg.threads i).log ∧
      ∀ j route' recipient' msg', ops j = .ingest route' recipient' msg' →
      route'.tenantID = route.tenantID →
        msg'.messageID = msg.messageID → mailed (cfg.threads j).log ≠ [] → j = i := by
  have hnone : ∀ T msgID, ¬ Opened T msgID [] := by
    rintro T msgID ⟨x, hx, -⟩
    exact List.not_mem_nil hx
  have hstart : AcksKept ops (Config.start w fun i => (ops i).act d) :=
    ⟨fun i T msgID _ h => absurd h (hnone T msgID), fun i j T msgID _ h _ => absurd h (hnone T msgID),
      fun i route recipient msg _ hmailed => absurd rfl hmailed⟩
  obtain ⟨hkept, -⟩ := h.guarded hstart (fun i => contract_act d (hops i))
    fun cfg i c e k hI _ hp he => ⟨honest_step trivial e cfg.state, hI.answered he⟩
  obtain ⟨hlen, hopen⟩ := hkept.once i route recipient msg hi hsent
  refine ⟨hlen, hopen, fun j route' recipient' msg' hj hT hmsg hsent' => ?_⟩
  obtain ⟨-, hopen'⟩ := hkept.once j route' recipient' msg' hj hsent'
  rw [hT, hmsg] at hopen'
  exact hkept.single j i _ _ hid hopen' hopen

end Interleaved

def twice (_ : Bool) : Operation := .ingest { supportRoute with autoAck := true } "s@x"
  { messageID := "m", fromEmail := "a@x", text := "hello" }

-- both deliveries look for the message before one of them inserts
def twiceSchedule : List (Bool × Choice) :=
  List.replicate 4 (true, { newID := "a" }) ++ List.replicate 20 (false, { newID := "b" }) ++
    List.replicate 8 (true, { newID := "a" })

def afterTwice : Config Bool Call Answer Unit World :=
  letI := asciiLibrary
  (Config.start {} fun i => (twice i).act {}).schedule step twiceSchedule

theorem acknowledged_once_racing :
    letI := asciiLibrary
    (mailed (afterTwice.threads false).log).length = 1 ∧ mailed (afterTwice.threads true).log = [] := by
  let := asciiLibrary
  have hreach : Reaches step (fun _ _ _ => True) (Config.start {} fun i => (twice i).act {}) afterTwice :=
    Reaches.refl.schedule twiceSchedule (Config.along_of_mem (fun _ _ _ => trivial) _)
  have hsent : mailed (afterTwice.threads false).log ≠ [] := by
    have hlen : (mailed (afterTwice.threads false).log).length = 1 := by decide +kernel
    exact List.ne_nil_of_length_eq_add_one hlen
  have hid : (goString "m") ≠ [] := by decide
  obtain ⟨hlen, -, hothers⟩ := acknowledged_once {} twice (fun _ => trivial) hreach rfl hid hsent
  refine ⟨hlen, ?_⟩
  by_contra hboth
  have hsame : true = false := hothers true _ _ _ rfl rfl rfl hboth
  cases hsame

end TangraTicket.Services
