import TangraTicket.Library.Interleaving
import TangraTicket.Services.Operations
import TangraTicket.Services.Scope

/-!
The automatic re-open of a replied ticket, among concurrent replies and status changes. The re-open
is decided on a ticket read earlier, so it is safe only while nobody else moves the ticket away from
resolved or closed in between.
-/

namespace TangraTicket.Services

open GoText Store KeyedTable CallProgram

def Terminal (s : Status) : Prop := s = .resolved ∨ s = .closed

instance : DecidablePred Terminal := fun s => inferInstanceAs (Decidable (s = .resolved ∨ s = .closed))

/-- The operations that run side by side: public replies, threaded inbound replies and status changes. -/
inductive ReplyTask
  | reply (subj : Subjects) (ticketID body : GoString)
  | inbound (tenantID ticketID : GoString) (msg : Message)
  | setStatusAs (subj : Subjects) (id : GoString) (status : Status) (k : ActorKind)

namespace ReplyTask

def act [GoLibrary] (d : Deps) : ReplyTask → Act Unit
  | .reply subj ticketID body => finish (Comments.reply d subj ticketID body)
  | .inbound tenantID ticketID msg => finish (Inbound.reply d (systemFor tenantID) ticketID msg)
  | .setStatusAs subj id status k => finish (Tickets.setStatusAs d subj id status k)

def tenantID : ReplyTask → GoString
  | .reply subj .. => subj.tenantID
  | .inbound tenantID .. => tenantID
  | .setStatusAs subj .. => subj.tenantID

/-- The tasks whose status write is an automatic re-open. -/
def Auto : ReplyTask → Prop
  | .reply .. | .inbound .. => True
  | .setStatusAs .. => False

end ReplyTask

def SeenTerminal (log : Log) (tenantID id : GoString) : Prop :=
  ∃ t : Ticket, (⟨.store (.getTicket tenantID id), .ok t⟩ : Event Call Answer) ∈ log ∧ Terminal t.status

def StatusWrite : Call → Prop
  | .store (.setStatus ..) => True
  | _ => False

def StatusWritten (log : Log) : Prop := ∃ x ∈ log, StatusWrite x.call

structure Armed {α : Type} (th : Thread Call Answer α) (tenantID id : GoString) : Prop where
  running : ∀ a, th.prog ≠ .ret a
  seen : SeenTerminal th.log tenantID id
  unwritten : ¬ StatusWritten th.log

def Harmless (T : GoString) (e : Call) : Prop := Scoped T (fun _ => True) e ∧ ¬ StatusWrite e

def ReopenRule (T : GoString) (log : Log) (e : Call) : Prop :=
  Scoped T (fun _ => True) e ∧ ∀ ten id s at_, e = .store (.setStatus ten id s at_) →
    SeenTerminal log ten id ∧ ¬ StatusWritten log

def Ready (T : GoString) (t : Ticket) (log : Log) : Prop :=
  (Terminal t.status → SeenTerminal log T t.id) ∧ ¬ StatusWritten log

section Rule

variable {T : GoString} {log : Log} {t : Ticket}

theorem Quiet.harmless {e : Call} (h : Quiet T (fun _ => True) e) : Harmless T e := by
  refine ⟨h.scoped, fun hw => ?_⟩
  unfold StatusWrite at hw
  split at hw
  · exact h
  · exact hw

theorem Harmless.rule {e : Call} (h : Harmless T e) : ReopenRule T log e := by
  refine ⟨h.1, ?_⟩
  rintro ten id s at_ rfl
  exact absurd trivial h.2

theorem ready_append (h : Ready T t log) {l : Log} (hl : ∀ x ∈ l, Harmless T x.call) :
    Ready T t (log ++ l) := by
  refine ⟨fun ht => ?_, ?_⟩
  · obtain ⟨t', hmem, ht'⟩ := h.1 ht
    exact ⟨t', List.mem_append_left _ hmem, ht'⟩
  · rintro ⟨x, hx, hw⟩
    rcases List.mem_append.mp hx with hx | hx
    · exact h.2 ⟨x, hx, hw⟩
    · exact (hl x hx).2 hw

theorem harmless_obeys {α : Type} {p : Act α} {Q : α → Prop}
    (hp : Issues (Honest fun _ => True) (Harmless T) p Q) :
    Obeys (Honest fun _ => True) (ReopenRule T) (fun _ a => Q a) log p :=
  (hp.obeys fun _ _ _ he => he.rule).mono fun _ _ h => h.1

theorem ready_obeys {α : Type} {p : Act α} {Q : α → Prop}
    (hp : Issues (Honest fun _ => True) (Harmless T) p Q) (hlog : Ready T t log) :
    Obeys (Honest fun _ => True) (ReopenRule T) (fun l a => Q a ∧ Ready T t l) log p := by
  refine (hp.obeys fun _ _ _ he => he.rule).mono ?_
  rintro _ a ⟨ha, l', rfl, hl'⟩
  exact ⟨ha, ready_append hlog hl'⟩

theorem ready_quietly {α : Type} {p : Act α} {Q : α → Prop} (hp : Quietly T (fun _ => True) p Q)
    (hlog : Ready T t log) :
    Obeys (Honest fun _ => True) (ReopenRule T) (fun l a => Q a ∧ Ready T t l) log p :=
  ready_obeys (hp.weaken fun _ => Quiet.harmless) hlog

theorem harmless_appendHistory (id : GoString) (f : Field) (old new : GoString) (k : ActorKind)
    (actor : GoString) :
    Issues (Honest fun _ => True) (Harmless T) (appendHistory T id f old new k actor).run
      (fun _ => True) := by
  unfold appendHistory
  split
  · trivial
  · refine Issues.lift ⟨Quiet.harmless trivial, fun _ _ =>
      Issues.lift ⟨Quiet.harmless trivial, fun _ _ => ?_⟩⟩
    exact ⟨⟨rfl, not_false⟩, fun _ _ => trivial⟩

theorem reopening_changeField (d : Deps) (subj : Subjects) (ht : Terminal t.status) (hlog : Ready T t log)
    (k : ActorKind) :
    Obeys (Honest fun _ => True) (ReopenRule T) (fun _ _ => True) log
      (Tickets.changeField d subj T t.id k fun before =>
        pure (if before.status = .open then none else some (.status .open))).run := by
  have hview : ∀ {l : Log} {x : Ticket}, x.tenantID = T →
      Obeys (Honest fun _ => True) (ReopenRule T) (fun _ _ => True) l (Tickets.view x true).run :=
    fun hx => harmless_obeys ((quiet_view hx true).weaken fun _ => Quiet.harmless)
  have hread : Quietly T (fun _ => True) (ask (.getTicket T t.id) mapErr).run
      (fun r => ∀ x, r = .ok x → x.tenantID = T) := by
    refine ⟨rfl, ?_⟩
    rintro (e | x) hx y hy
    · cases hy
    · cases hy
      exact hx.1
  refine Obeys.andThen (ready_quietly hread hlog) ?_ fun _ _ _ => trivial
  rintro l₁ before ⟨hten, hl₁⟩
  refine Obeys.andThen (S := fun l r => Ready T t l ∧ ∀ o, r = .ok o → o = none ∨ o = some (.status .open))
    ⟨hl₁, ?_⟩ ?_ fun _ _ _ => trivial
  · rintro _ ⟨⟩
    by_cases hopen : before.status = .open <;> simp [hopen]
  rintro l₂ o ⟨hl₂, ho⟩
  rcases ho o rfl with rfl | rfl
  · exact hview (hten before rfl)
  · have hclock : Quietly T (fun _ => True) clock (fun _ => True) := ⟨trivial, fun _ _ => trivial⟩
    refine Obeys.lift ((ready_quietly hclock hl₂).mono fun l₃ at_ h => ?_)
    refine Obeys.andThen (S := fun _ r => ∀ x, r = .ok x → x.tenantID = T) ⟨⟨rfl, ?_⟩, ?_⟩ ?_
      fun _ _ _ => trivial
    · rintro ten id s at' heq
      cases heq
      exact ⟨h.2.1 ht, h.2.2⟩
    · rintro (e | x) hx y hy
      · cases hy
      · cases hy
        exact hx.1
    · intro l₄ after hafter
      refine Obeys.andThen (harmless_obeys (harmless_appendHistory _ _ _ _ _ _)) (fun l₅ _ _ => ?_)
        fun _ _ _ => trivial
      have hannounce := (quiet_announce (T := T) (F := fun _ => True) d (.status .open) after k).weaken
        fun _ => Quiet.harmless
      exact Obeys.lift ((harmless_obeys hannounce).mono fun _ _ _ => hview (hafter after rfl))

theorem reopening_setStatusAs (d : Deps) {subj : Subjects} (hT : subj.tenantID = T) (ht : Terminal t.status)
    (hlog : Ready T t log) (k : ActorKind) :
    Obeys (Honest fun _ => True) (ReopenRule T) (fun _ _ => True) log
      (Tickets.setStatusAs d subj t.id .open k).run := by
  refine Obeys.andThen (ready_quietly (quiet_tenantOf hT) hlog) ?_ fun _ _ _ => trivial
  rintro l ten ⟨hten, hl⟩
  rw [hten ten rfl, if_pos (show validStatus .open = true from rfl)]
  exact reopening_changeField d subj ht hl k

theorem ready_read {x : Ticket} {id : GoString} (hlog : ¬ StatusWritten log) (hid : x.id = id) :
    Ready T x (log ++ [⟨.store (.getTicket T id), .ok x⟩]) := by
  refine ⟨fun hx => ⟨x, List.mem_append_right _ (hid ▸ List.mem_singleton_self _), hx⟩, ?_⟩
  rintro ⟨y, hy, hw⟩
  rcases List.mem_append.mp hy with hy | hy
  · exact hlog ⟨y, hy, hw⟩
  · rw [List.mem_singleton.mp hy] at hw
    exact hw

theorem ready_start (T : GoString) : Ready T {} [] := by
  refine ⟨fun h => ?_, fun h => ?_⟩
  · rcases h with h | h <;> cases h
  · obtain ⟨x, hx, -⟩ := h
    exact absurd hx List.not_mem_nil

section Chain

variable {α β : Type} {Ψ : Log → Except Err β → Prop}

theorem ready_lift {p : Act α} {f : α → Attempt β} {Q : α → Prop} (hp : Quietly T (fun _ => True) p Q)
    (hlog : Ready T t log)
    (hf : ∀ l a, Q a → Ready T t l → Obeys (Honest fun _ => True) (ReopenRule T) Ψ l (f a).run) :
    Obeys (Honest fun _ => True) (ReopenRule T) Ψ log (liftM p >>= f).run :=
  Obeys.lift ((ready_quietly hp hlog).mono fun l a h => hf l a h.1 h.2)

theorem ready_then {x : Attempt α} {f : α → Attempt β} {S : Except Err α → Prop}
    (hx : Quietly T (fun _ => True) x.run S) (hlog : Ready T t log)
    (hf : ∀ l a, S (.ok a) → Ready T t l →
      Obeys (Honest fun _ => True) (ReopenRule T) (fun _ _ => True) l (f a).run) :
    Obeys (Honest fun _ => True) (ReopenRule T) (fun _ _ => True) log (x >>= f).run :=
  Obeys.andThen (ready_quietly hx hlog) (fun l a h => hf l a h.1 h.2) fun _ _ _ => trivial

end Chain

theorem rule_reply [GoLibrary] (d : Deps) (subj : Subjects) (ticketID body : GoString) :
    Obeys (Honest fun _ => True) (ReopenRule subj.tenantID) (fun _ _ => True) []
      (Comments.reply d subj ticketID body).run := by
  refine ready_then (quiet_tenantOf rfl) (ready_start _) fun l ten hten hl => ?_
  rw [hten ten rfl]
  refine ready_then (quiet_ofExcept _) hl fun l body _ hl => ?_
  refine Obeys.andThen (S := fun l r => ∀ t, r = .ok t → t.tenantID = subj.tenantID ∧
    Ready subj.tenantID t l)
    ⟨Harmless.rule ⟨rfl, not_false⟩, ?_⟩ ?_ fun _ _ _ => trivial
  · rintro (e | t) ht x hx
    · cases hx
    · cases hx
      exact ⟨ht.1, ready_read hl.2 ht.2⟩
  intro l t ht
  obtain ⟨htenant, hl⟩ := ht t rfl
  refine ready_then (quiet_compose d htenant body) hl fun l out _ hl => ?_
  refine ready_lift (Q := fun _ => True) ⟨trivial, fun _ _ => trivial⟩ hl fun l id _ hl => ?_
  refine ready_lift (quiet_author d subj _) hl fun l c hc hl => ?_
  refine ready_then (S := fun _ => True) ⟨⟨hc.1, trivial⟩, fun _ _ => trivial⟩ hl fun l _ _ hl => ?_
  refine ready_lift (Q := fun _ => True) ⟨trivial, fun _ _ => trivial⟩ hl fun l sent _ hl => ?_
  refine ready_lift (Q := fun _ => True) ⟨rfl, fun _ _ => trivial⟩ hl fun l _ _ hl => ?_
  refine ready_lift (Q := fun _ => True) ⟨rfl, fun _ _ => trivial⟩ hl fun l stored _ hl => ?_
  have hend : ∀ {l : Log} {x : Attempt Comment}, Quietly subj.tenantID (fun _ => True) x.run
      (fun _ => True) →
      Obeys (Honest fun _ => True) (ReopenRule subj.tenantID) (fun _ _ => True) l x.run :=
    fun hx => harmless_obeys (hx.weaken fun _ => Quiet.harmless)
  have hreopen : Obeys (Honest fun _ => True) (ReopenRule subj.tenantID) (fun _ _ => True) l
      (Comments.reopen d subj t) := by
    unfold Comments.reopen
    split
    · rename_i hcond
      exact Obeys.bind ((reopening_setStatusAs d rfl hcond.1 hl _).mono fun _ _ _ => trivial)
    · trivial
  dsimp only
  split
  · refine Obeys.lift (hreopen.mono fun l _ _ => hend ?_)
    exact Issues.lift ((quiet_commented d subj _).mono fun _ _ => trivial)
  · exact hend (Issues.lift ((quiet_commented d subj _).mono fun _ _ => trivial))

theorem rule_replied [GoLibrary] (d : Deps) (T ticketID commentID : GoString) (msg : Message)
    (staged : List Attachment) (hst : ∀ a ∈ staged, Staged T (fun _ => True) a) (hlog : Ready T {} log) :
    Obeys (Honest fun _ => True) (ReopenRule T) (fun _ _ => True) log
      (Inbound.replied d (systemFor T) ticketID commentID msg staged) := by
  refine Obeys.bind ((ready_quietly (quiet_record commentID staged hst) hlog).mono fun l _ h => ?_)
  refine Obeys.bind ((ready_quietly (quiet_note ticketID msg) h.2).mono fun l _ h => ?_)
  refine Obeys.bind ⟨Harmless.rule ⟨rfl, not_false⟩, ?_⟩
  rintro (e | t) ht
  · trivial
  · have hready : Ready T t (l ++ [⟨.store (.getTicket T ticketID), .ok t⟩]) := ready_read h.2.2 ht.2
    have hreopen : Obeys (Honest fun _ => True) (ReopenRule T) (fun _ _ => True)
        (l ++ [⟨.store (.getTicket T ticketID), .ok t⟩]) (Inbound.reopen d (systemFor T) t) := by
      unfold Inbound.reopen
      split
      · rename_i hcond
        have hT : (systemFor T).tenantID = T := rfl
        refine Obeys.bind ((reopening_setStatusAs d hT hcond.1 hready _).mono ?_)
        rintro l (e | v) - <;> trivial
      · trivial
    refine Obeys.bind (hreopen.mono fun l t' _ => harmless_obeys ?_)
    exact (quiet_emit d _ t' _).weaken fun _ => Quiet.harmless

theorem rule_inbound [GoLibrary] (d : Deps) (T ticketID : GoString) (msg : Message) :
    Obeys (Honest fun _ => True) (ReopenRule T) (fun _ _ => True) []
      (Inbound.reply d (systemFor T) ticketID msg).run := by
  refine ready_then (quiet_upload ticketID msg.attachments [] (by simp)) (ready_start _)
    fun l staged hst hl => ?_
  refine ready_lift (Q := fun _ => True) ⟨trivial, fun _ _ => trivial⟩ hl fun l id _ hl => ?_
  refine ready_lift (Q := fun _ => True) ⟨⟨rfl, trivial⟩, fun _ _ => trivial⟩ hl fun l r _ hl => ?_
  rcases r with e | _
  · refine ready_lift (quiet_deleteObjects _) hl fun l _ _ _ => ?_
    cases e <;> trivial
  · exact Obeys.lift ((rule_replied d T ticketID _ msg staged (hst staged rfl) hl).mono
      fun _ _ _ => trivial)

end Rule

def ReplyTask.Rule : ReplyTask → Log → Call → Prop
  | .reply subj .. => ReopenRule subj.tenantID
  | .inbound tenantID .. => ReopenRule tenantID
  | .setStatusAs subj .. => fun _ => Scoped subj.tenantID fun _ => True

theorem ReplyTask.obeys [GoLibrary] (d : Deps) (task : ReplyTask) :
    Obeys (Honest fun _ => True) task.Rule (fun _ _ => True) [] (task.act d) := by
  cases task with
  | reply subj ticketID body =>
    exact Obeys.bind ((rule_reply d subj ticketID body).mono fun _ _ _ => trivial)
  | inbound tenantID ticketID msg =>
    exact Obeys.bind ((rule_inbound d tenantID ticketID msg).mono fun _ _ _ => trivial)
  | setStatusAs subj id status k =>
    have hscoped := scopedLogic.setStatusAs (T := subj.tenantID) (F := fun _ => True) d rfl id status k
    exact Obeys.bind ((hscoped.obeys fun _ _ _ he => he).mono fun _ _ _ => trivial)

theorem ReplyTask.Rule.scoped {task : ReplyTask} {log : Log} {e : Call} (h : task.Rule log e) :
    Scoped task.tenantID (fun _ => True) e := by
  cases task with
  | reply | inbound => exact h.1
  | setStatusAs => exact h

theorem ReplyTask.Rule.reopen {task : ReplyTask} {log : Log} {ten id : GoString} {s : Status} {at_ : Time}
    (h : task.Rule log (.store (.setStatus ten id s at_))) (ha : task.Auto) :
    SeenTerminal log ten id ∧ ¬ StatusWritten log := by
  cases task with
  | reply | inbound => exact h.2 ten id s at_ rfl
  | setStatusAs => exact ha.elim

/-- The ticket is resolved or closed. -/
def AtRest (ten id : GoString) (m : Mem) : Prop :=
  ∃ t ∈ m.tickets.rows, t.tenantID = ten ∧ t.id = id ∧ Terminal t.status

instance (ten id : GoString) (m : Mem) : Decidable (AtRest ten id m) :=
  inferInstanceAs (Decidable (∃ t ∈ m.tickets.rows, t.tenantID = ten ∧ t.id = id ∧ Terminal t.status))

section AtRest

variable {m : Mem} {ten id : GoString}

theorem atRest_modify (h : AtRest ten id m) {ten' id' : GoString} {f : Ticket → Ticket}
    (hf : ∀ t, (f t).tenantID = t.tenantID ∧ (f t).id = t.id)
    (hstatus : ten' = ten → id' = id → ∀ t, Terminal t.status → Terminal (f t).status) :
    AtRest ten id (m.modifyTicket ten' id' f).2 := by
  obtain ⟨t, ht, hten, hid, hrest⟩ := h
  obtain ⟨e, he⟩ | ⟨t', ht', hten', hid', heq⟩ := modifyTicket_cases m ten' id' f
  · rw [he]
    exact ⟨t, ht, hten, hid, hrest⟩
  · rw [heq]
    by_cases hsame : t.id = t'.id
    · obtain rfl := m.tickets.eq_of_key ht ht' hsame
      refine ⟨f t, Table.mem_put.mpr (.inl rfl), (hf t).1.trans hten, (hf t).2.trans hid, ?_⟩
      exact hstatus (hten'.symm.trans hten) (hid'.symm.trans hid) t hrest
    · exact ⟨t, Table.mem_put.mpr (.inr ⟨ht, fun hc => hsame (hc.trans (hf t').2)⟩), hten, hid, hrest⟩

theorem atRest_sameCores {m' : Mem} (h : AtRest ten id m) (hc : SameCores m m') : AtRest ten id m' := by
  obtain ⟨t, ht, hten, hid, hrest⟩ := h
  have hmem : t.core ∈ m'.tickets.rows.map Ticket.core := hc.1 ▸ List.mem_map_of_mem ht
  obtain ⟨t', ht', heq⟩ := List.mem_map.mp hmem
  refine ⟨t', ht', ?_, ?_, ?_⟩
  · exact (show t'.core.tenantID = t.core.tenantID by rw [heq]).trans hten
  · exact (show t'.core.id = t.core.id by rw [heq]).trans hid
  · rwa [show t'.status = t.status from show t'.core.status = t.core.status by rw [heq]]

theorem atRest_step [GoLibrary] {T : GoString} {F : GoString → Prop} {e : Call}
    (he : Scoped T F e) {c : Choice} {w : World} (h : AtRest ten id w.mem)
    (hstatus : ∀ s at_, e = .store (.setStatus ten id s at_) → Terminal s) :
    AtRest ten id (step c e w).2.mem := by
  refine mem_step (J := AtRest ten id) h ?_
  rintro q rfl -
  by_cases hn : q.neutral
  · exact atRest_sameCores h (neutral_sameCores _ _ _ hn)
  · cases q with
    | createTicket t =>
      obtain ⟨e, he⟩ | ⟨hnew, -, heq⟩ := createTicket_cases c.now w.mem t
      · rwa [performStore, he]
      · rw [performStore, heq]
        obtain ⟨t', ht', hten, hid, hrest⟩ := h
        exact ⟨t', Table.mem_put.mpr (.inr ⟨ht', Table.get?_eq_none.mp hnew t' ht'⟩), hten, hid, hrest⟩
    | updateTicket ten' id' p at_ =>
      exact atRest_modify (f := fun t => t.withPatch _ p) h (fun _ => ⟨rfl, rfl⟩) fun _ _ _ ht => ht
    | setAssignee ten' id' a n at_ =>
      exact atRest_modify (f := fun t => t.withAssignee _ a n) h (fun _ => ⟨rfl, rfl⟩) fun _ _ _ ht => ht
    | setStatus ten' id' s at_ =>
      refine atRest_modify (f := fun t => t.withStatus _ s) h (fun _ => ⟨rfl, rfl⟩) ?_
      rintro rfl rfl t -
      exact hstatus s at_ rfl
    | appendHistory x =>
      obtain ⟨e, he⟩ | ⟨t₀, -, -, -, heq⟩ := appendHistory_cases c.now w.mem x
      · rwa [performStore, he]
      · rwa [performStore, heq]
    | deleteTicket => exact he.elim
    | _ => exact absurd rfl hn

end AtRest

section Interleaved

variable [GoLibrary] {ι : Type} [DecidableEq ι] (tasks : ι → ReplyTask)

/-- A status other than resolved and closed is written to a ticket only while no other reply may
still re-open it. -/
def Undisturbed (cfg : Config ι Call Answer Unit World) (i : ι) (_ : Choice) : Prop :=
  ∀ ten id s at_ k, (cfg.threads i).prog = .call (.store (.setStatus ten id s at_)) k → ¬ Terminal s →
    ∀ j, j ≠ i → (tasks j).Auto → ¬ Armed (cfg.threads j) ten id

def ArmedAtRest (cfg : Config ι Call Answer Unit World) : Prop :=
  ∀ i, (tasks i).Auto → ∀ ten id, Armed (cfg.threads i) ten id → AtRest ten id cfg.state.mem

variable {tasks} {cfg : Config ι Call Answer Unit World} {i : ι} {c : Choice} {e : Call}
  {k : Answer e → Act Unit}

theorem armed_self (h : ArmedAtRest tasks cfg) (hi : (tasks i).Auto) (hp : (cfg.threads i).prog = .call e k)
    (hscoped : Scoped (tasks i).tenantID (fun _ => True) e) {ten id : GoString}
    (harmed : Armed ((cfg.answered i e k (step c e cfg.state)).threads i) ten id) :
    AtRest ten id (step c e cfg.state).2.mem := by
  have hlog : ((cfg.answered i e k (step c e cfg.state)).threads i).log =
      (cfg.threads i).log ++ [⟨e, (step c e cfg.state).1⟩] := by simp [Config.answered]
  obtain ⟨t, hseen, hrest⟩ := hlog ▸ harmed.seen
  have hnot : ¬ StatusWritten (cfg.threads i).log ∧ ¬ StatusWrite e := by
    have hun := hlog ▸ harmed.unwritten
    refine ⟨?_, fun hw => hun ⟨_, List.mem_append_right _ (List.mem_singleton_self _), hw⟩⟩
    rintro ⟨x, hx, hw⟩
    exact hun ⟨x, List.mem_append_left _ hx, hw⟩
  have hkept : AtRest ten id cfg.state.mem → AtRest ten id (step c e cfg.state).2.mem := by
    refine fun h => atRest_step hscoped h ?_
    rintro s at_ rfl
    exact absurd trivial hnot.2
  rcases List.mem_append.mp hseen with hseen | hseen
  · refine hkept (h i hi ten id ⟨fun a ha => ?_, ⟨t, hseen, hrest⟩, hnot.1⟩)
    rw [hp] at ha
    cases ha
  · have hev := List.mem_singleton.mp hseen
    obtain ⟨rfl, hans⟩ := Event.mk.inj hev
    cases hf : c.fail (StoreCall.getTicket ten id).method with
    | true =>
      rw [step_store_failed hf] at hans
      cases hans
    | false =>
      rw [step_store hf] at hans ⊢
      obtain ⟨hmem, hten, hid⟩ := ticket_ok (eq_of_heq hans).symm
      exact ⟨t, hmem, hten, hid, hrest⟩

theorem armedAtRest_answered (h : ArmedAtRest tasks cfg) (hc : Undisturbed tasks cfg i c)
    (hp : (cfg.threads i).prog = .call e k) (hrule : (tasks i).Rule (cfg.threads i).log e) :
    ArmedAtRest tasks (cfg.answered i e k (step c e cfg.state)) := by
  intro j hj ten id harmed
  by_cases hij : j = i
  · subst hij
    exact armed_self h hj hp hrule.scoped harmed
  · have hthread : (cfg.answered i e k (step c e cfg.state)).threads j = cfg.threads j := by
      simp [Config.answered, hij]
    rw [hthread] at harmed
    refine atRest_step hrule.scoped (h j hj ten id harmed) ?_
    rintro s at_ rfl
    by_contra hs
    exact hc ten id s at_ k hp hs j hij hj harmed

/-- In every run in which nobody else stirs a ticket that a reply may still re-open, the automatic
re-open writes only over a ticket that is resolved or closed at that moment. -/
theorem reopen_leaves_terminal (d : Deps) (w : World)
    (h : Reaches step (Undisturbed tasks) (Config.start w fun i => (tasks i).act d) cfg)
    (hi : (tasks i).Auto) {ten id : GoString} {s : Status} {at_ : Time}
    {k : Answer (.store (.setStatus ten id s at_)) → Act Unit}
    (hcall : (cfg.threads i).prog = .call (.store (.setStatus ten id s at_)) k) :
    AtRest ten id cfg.state.mem := by
  have hstart : ArmedAtRest tasks (Config.start w fun i => (tasks i).act d) := by
    rintro j - ten id ⟨-, ⟨t, ht, -⟩, -⟩
    exact absurd ht List.not_mem_nil
  obtain ⟨hrest, hobeys⟩ := h.guarded hstart (fun j => (tasks j).obeys d)
    fun cfg j c e k hI hc hp hrule => ⟨honest_step trivial e cfg.state, armedAtRest_answered hI hc hp hrule⟩
  have hrule := hobeys i
  rw [hcall] at hrule
  obtain ⟨hseen, hunwritten⟩ := hrule.1.reopen hi
  refine hrest i hi ten id ⟨fun a ha => ?_, hseen, hunwritten⟩
  rw [hcall] at ha
  cases ha

end Interleaved

def takenUp (i : Bool) : ReplyTask :=
  if i then .setStatusAs ⟨"t", "u", [], .agent⟩ "n" .inProgress .agent
  else .inbound "t" "n" { messageID := "m", fromEmail := "r@x", text := "hello" }

def resolvedTicket : World :=
  { mem :=
      { tickets := Table.empty.put
          { id := "n", tenantID := "t", status := .resolved, resolvedAt := some 1 } } }

def takenUpSchedule : List (Bool × Choice) :=
  (List.replicate 3 false ++ List.replicate 3 true ++ List.replicate 2 false).map fun i =>
    (i, { newID := "c" })

def nextStatusWrite : Act Unit → Option (GoString × GoString × Status)
  | .call (.store (.setStatus ten id s _)) _ => some (ten, id, s)
  | _ => none

theorem nextStatusWrite_eq {p : Act Unit} {ten id : GoString} {s : Status}
    (h : nextStatusWrite p = some (ten, id, s)) :
    ∃ at_ k, p = .call (.store (.setStatus ten id s at_)) k := by
  unfold nextStatusWrite at h
  split at h
  · cases h
    exact ⟨_, _, rfl⟩
  · cases h

theorem undisturbed_of_terminal [GoLibrary] {ι : Type} {tasks : ι → ReplyTask}
    {cfg : Config ι Call Answer Unit World} {i : ι} {c : Choice}
    (h : ∀ x ∈ nextStatusWrite (cfg.threads i).prog, Terminal x.2.2) :
    Undisturbed tasks cfg i c := by
  intro ten id s at_ k hp hs
  rw [hp] at h
  exact absurd (h (ten, id, s) rfl) hs

def closedMeanwhile (i : Bool) : ReplyTask :=
  if i then .setStatusAs ⟨"t", "u", [], .agent⟩ "n" .closed .agent
  else .inbound "t" "n" { messageID := "m", fromEmail := "r@x", text := "hello" }

def beforeReopen [GoLibrary] : Config Bool Call Answer Unit World :=
  (Config.start resolvedTicket fun i => (closedMeanwhile i).act {}).schedule step takenUpSchedule

theorem reaches_beforeReopen [GoLibrary]
    (h : (Config.start resolvedTicket fun i => (closedMeanwhile i).act {}).Along step
      (fun cfg i _ => ∀ x ∈ nextStatusWrite (cfg.threads i).prog, Terminal x.2.2) takenUpSchedule) :
    Reaches step (Undisturbed closedMeanwhile)
      (Config.start resolvedTicket fun i => (closedMeanwhile i).act {}) beforeReopen :=
  (Reaches.refl.schedule _ h).mono fun _ _ _ => undisturbed_of_terminal

theorem reopen_leaves_terminal_closed :
    letI := asciiLibrary
    nextStatusWrite (beforeReopen.threads false).prog = some (goString "t", goString "n", Status.open) ∧
      beforeReopen.state.mem.tickets.rows.map Ticket.status = [.closed] ∧
      AtRest "t" "n" beforeReopen.state.mem := by
  have hnext : nextStatusWrite ((@beforeReopen asciiLibrary).threads false).prog =
      some (goString "t", goString "n", Status.open) := by decide +kernel
  obtain ⟨at_, k, hcall⟩ := nextStatusWrite_eq hnext
  have hreach := @reaches_beforeReopen asciiLibrary (by decide +kernel)
  have hauto : (closedMeanwhile false).Auto := trivial
  have hrest := @reopen_leaves_terminal asciiLibrary
  exact ⟨hnext, by decide +kernel, hrest {} resolvedTicket hreach hauto hcall⟩

/-- The inbound reply reads the ticket as resolved, the agent takes it up, and the re-open is about
to replace `in_progress`. -/
theorem reopen_overwrites_in_progress :
    letI := asciiLibrary
    ∃ cfg : Config Bool Call Answer Unit World,
      Reaches step (fun _ _ _ => True) (Config.start resolvedTicket fun i => (takenUp i).act {}) cfg ∧
        (takenUp false).Auto ∧
        (∃ at_ k, (cfg.threads false).prog = .call (.store (.setStatus "t" "n" .open at_)) k) ∧
        cfg.state.mem.tickets.rows.map (·.status) = [.inProgress] ∧ ¬ AtRest "t" "n" cfg.state.mem := by
  let := asciiLibrary
  exact ⟨(Config.start resolvedTicket fun i => (takenUp i).act {}).schedule step takenUpSchedule,
    Reaches.refl.schedule _ (Config.along_of_mem (fun _ _ _ => trivial) _), trivial,
    nextStatusWrite_eq (by decide +kernel), by decide +kernel, by decide +kernel⟩

end TangraTicket.Services
