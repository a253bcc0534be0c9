import TangraTicket.Library.ValueChain
import TangraTicket.Services.Operations
import TangraTicket.Services.Scope

/-!
The history of a ticket explains its status, priority and assignee: from the values the ticket was
created with, the recorded changes lead, without a gap, to the current ones. This holds of every
fault-free sequential run.
-/

namespace TangraTicket.Services

open GoText Store KeyedTable CallProgram ValueChain

def newborns (m m' : Mem) : List Ticket := m'.tickets.rows.filter (fun t => (m.tickets.get? t.id).isNone)

def remember (w w' : World) (born : List Ticket) : List Ticket := born ++ newborns w.mem w'.mem

structure Explained (val : Field → Ticket → GoString) (m : Mem) (born : List Ticket) : Prop where
  known : ∀ h ∈ m.history, h.ticketID ∈ m.tickets.rows.map Ticket.id
  ids : born.map Ticket.id = m.tickets.rows.map Ticket.id
  chained : ∀ t ∈ m.tickets.rows, ∃ t₀ ∈ born, t₀.id = t.id ∧
    ∀ f ∈ recordedFields, Chain (f.valueOf t₀) (changes m t.id f) (val f t)

def pendingValue (id : GoString) (fld : Field) (old : GoString) (f : Field) (t : Ticket) : GoString :=
  if t.id = id ∧ f = fld then old else f.valueOf t

section Store

variable {m m' : Mem} {born : List Ticket}

theorem newborns_eq_nil (h : m'.tickets.rows.map Ticket.id = m.tickets.rows.map Ticket.id) :
    newborns m m' = [] := by
  refine List.filter_eq_nil_iff.mpr fun t ht => ?_
  have hid : t.id ∈ m.tickets.rows.map Ticket.id := h ▸ List.mem_map_of_mem ht
  obtain ⟨t₀, ht₀, heq⟩ := List.mem_map.mp hid
  simp [Table.get?_eq_some.mpr ⟨ht₀, heq⟩]

theorem Explained.sameCores {val : Field → Ticket → GoString} (hval : ∀ f t, val f t.core = val f t)
    (h : Explained val m born) (hc : SameCores m m') : Explained val m' born where
  known := by
    rw [hc.2, hc.ids]
    exact h.known
  ids := h.ids.trans hc.ids.symm
  chained := by
    intro t ht
    have hcore : t.core ∈ m.tickets.rows.map Ticket.core := hc.1 ▸ List.mem_map_of_mem ht
    obtain ⟨t₁, ht₁, heq⟩ := List.mem_map.mp hcore
    have hid : t₁.id = t.id := show t₁.core.id = t.core.id by rw [heq]
    obtain ⟨t₀, ht₀, hid₀, hchain⟩ := h.chained t₁ ht₁
    refine ⟨t₀, ht₀, hid₀.trans hid, fun f hf => ?_⟩
    have hf' := hchain f hf
    rwa [← hval f t₁, heq, hval f t, hid, changes, ← hc.2] at hf'

theorem changes_eq_nil (h : Explained Field.valueOf m born) {id : GoString}
    (hnew : m.tickets.get? id = none) (f : Field) : changes m id f = [] := by
  have hnone : m.history.filter (fun h => h.ticketID = id ∧ h.field = f) = [] := by
    refine List.filter_eq_nil_iff.mpr fun x hx heq => ?_
    obtain ⟨hid, -⟩ := of_decide_eq_true heq
    obtain ⟨t, ht, hk⟩ := List.mem_map.mp (h.known x hx)
    exact Table.get?_eq_none.mp hnew t ht (hk.trans hid)
  rw [changes, hnone, List.map_nil]

theorem Explained.create (h : Explained Field.valueOf m born) {t : Ticket}
    (hnew : m.tickets.get? t.id = none) :
    Explained Field.valueOf { m with tickets := m.tickets.put t }
      (born ++ newborns m { m with tickets := m.tickets.put t }) := by
  have hrows : (m.tickets.put t).rows = m.tickets.rows ++ [t] := Table.put_rows_new hnew
  have hborn : newborns m { m with tickets := m.tickets.put t } = [t] := by
    have hold : m.tickets.rows.filter (fun x => (m.tickets.get? x.id).isNone) = [] := by
      refine List.filter_eq_nil_iff.mpr fun x hx => ?_
      simp [Table.get?_eq_some.mpr ⟨hx, rfl⟩]
    simp [newborns, hrows, hold, hnew]
  rw [hborn]
  constructor
  · intro x hx
    rw [hrows, List.map_append]
    exact List.mem_append_left _ (h.known x hx)
  · rw [hrows, List.map_append, List.map_append, h.ids]
  · intro x hx
    rw [hrows] at hx
    rcases List.mem_append.mp hx with hx | hx
    · obtain ⟨t₀, ht₀, hchain⟩ := h.chained x hx
      exact ⟨t₀, List.mem_append_left _ ht₀, hchain⟩
    · obtain rfl := List.mem_singleton.mp hx
      refine ⟨x, List.mem_append_right _ hx, rfl, fun f _ => ?_⟩
      change Chain (f.valueOf x) (changes m x.id f) (f.valueOf x)
      rw [changes_eq_nil h hnew f]
      rfl

theorem Explained.write (h : Explained Field.valueOf m born) {t t' : Ticket} (ht : t ∈ m.tickets.rows)
    (hid : t'.id = t.id) {fld : Field} (hrest : ∀ f, f ≠ fld → f.valueOf t' = f.valueOf t) :
    Explained (pendingValue t.id fld (fld.valueOf t)) { m with tickets := m.tickets.put t' } born := by
  have hids : (m.tickets.put t').rows.map Ticket.id = m.tickets.rows.map Ticket.id :=
    Table.map_put_old ht hid Ticket.id hid
  refine ⟨fun x hx => ?_, h.ids.trans hids.symm, fun x hx => ?_⟩
  · rw [hids]
    exact h.known x hx
  · rcases Table.mem_put.mp hx with rfl | ⟨hx, hne⟩
    · obtain ⟨t₀, ht₀, hid₀, hchain⟩ := h.chained t ht
      refine ⟨t₀, ht₀, hid₀.trans hid.symm, fun f hf => ?_⟩
      have hval : pendingValue t.id fld (fld.valueOf t) f x = f.valueOf t := by
        by_cases hfld : f = fld
        · simp [pendingValue, hid, hfld]
        · simp [pendingValue, hfld, hrest f hfld]
      rw [hval, hid]
      exact hchain f hf
    · obtain ⟨t₀, ht₀, hid₀, hchain⟩ := h.chained x hx
      refine ⟨t₀, ht₀, hid₀, fun f hf => ?_⟩
      have hval : pendingValue t.id fld (fld.valueOf t) f x = f.valueOf x := if_neg fun hc =>
        hne (hc.1.trans hid.symm)
      rw [hval]
      exact hchain f hf

theorem Explained.unchanged {t : Ticket} (ht : t ∈ m.tickets.rows) {fld : Field}
    (h : Explained (pendingValue t.id fld (fld.valueOf t)) m born) : Explained Field.valueOf m born := by
  refine ⟨h.known, h.ids, fun x hx => ?_⟩
  obtain ⟨t₀, ht₀, hid₀, hchain⟩ := h.chained x hx
  refine ⟨t₀, ht₀, hid₀, fun f hf => ?_⟩
  have hval : pendingValue t.id fld (fld.valueOf t) f x = f.valueOf x := by
    unfold pendingValue
    split
    · rename_i hc
      rw [m.tickets.eq_of_key hx ht hc.1, hc.2]
    · rfl
  rw [← hval]
  exact hchain f hf

theorem Explained.record {h : History} {t : Ticket} (ht : t ∈ m.tickets.rows) (hid : t.id = h.ticketID)
    (hnew : h.newValue = h.field.valueOf t) (hne : h.oldValue ≠ h.newValue)
    (hm : Explained (pendingValue h.ticketID h.field h.oldValue) m born) :
    Explained Field.valueOf { m with history := m.history ++ [h] } born := by
  refine ⟨fun x hx => ?_, hm.ids, fun x hx => ?_⟩
  · rcases List.mem_append.mp hx with hx | hx
    · exact hm.known x hx
    · rw [List.mem_singleton.mp hx, ← hid]
      exact List.mem_map_of_mem ht
  · obtain ⟨t₀, ht₀, hid₀, hchain⟩ := hm.chained x hx
    refine ⟨t₀, ht₀, hid₀, fun f hf => ?_⟩
    have hf' := hchain f hf
    by_cases hc : x.id = h.ticketID ∧ f = h.field
    · obtain ⟨hx', rfl⟩ := hc
      have hxt : x = t := m.tickets.eq_of_key hx ht (hx'.trans hid.symm)
      rw [pendingValue, if_pos ⟨hx', rfl⟩] at hf'
      rw [changes_append, if_pos ⟨hx'.symm, rfl⟩, hxt, ← hnew]
      exact (hxt ▸ hf').snoc hne
    · rw [pendingValue, if_neg hc] at hf'
      rw [changes_append, if_neg fun ⟨h₁, h₂⟩ => hc ⟨h₁.symm, h₂.symm⟩, List.append_nil]
      exact hf'

end Store

def Accounted (s : World × List Ticket) : Prop := Explained Field.valueOf s.1.mem s.2

def Standing (before : Ticket) (s : World × List Ticket) : Prop :=
  Accounted s ∧ ∃ t ∈ s.1.mem.tickets.rows, t.core = before.core

structure Pending (fld : Field) (old : GoString) (after : Ticket) (s : World × List Ticket) : Prop where
  stored : after ∈ s.1.mem.tickets.rows
  behind : Explained (pendingValue after.id fld old) s.1.mem s.2

theorem pending_modify {s : World × List Ticket} {before : Ticket} (hs : Standing before s) (w : FieldWrite)
    (at_ : Time) (g : RepoErr → Err) {o : Except RepoErr Ticket × Mem}
    (ho : o = s.1.mem.modifyTicket before.tenantID before.id (fun t => w.apply at_ t)) :
    ∃ after, o.1.mapError g = .ok after ∧ after.tenantID = before.tenantID ∧ after.id = before.id ∧
      Pending w.field (w.field.valueOf before) after
        ({ s.1 with mem := o.2 }, remember s.1 { s.1 with mem := o.2 } s.2) := by
  obtain ⟨hacc, t, ht, hcore⟩ := hs
  have hten : t.tenantID = before.tenantID := show t.core.tenantID = before.core.tenantID by rw [hcore]
  have hid : t.id = before.id := show t.core.id = before.core.id by rw [hcore]
  have hval : w.field.valueOf before = w.field.valueOf t := by rw [← valueOf_core, ← hcore, valueOf_core]
  simp only [Mem.modifyTicket, ticket_eq_ok ht hten hid] at ho
  subst ho
  have hids : (s.1.mem.tickets.put (w.apply at_ t)).rows.map Ticket.id =
      s.1.mem.tickets.rows.map Ticket.id :=
    Table.map_put_old ht (apply_id at_ t w) Ticket.id (apply_id at_ t w)
  refine ⟨_, rfl, by simpa using hten, by simpa using hid, Table.mem_put.mpr (.inl rfl), ?_⟩
  rw [remember, newborns_eq_nil hids, List.append_nil, hval, apply_id]
  exact Explained.write hacc ht (apply_id at_ t w) fun f hf => valueOf_apply hf at_ t

section Runs

variable [GoLibrary] {T : GoString} {F : GoString → Prop} {s : World × List Ticket} {before after : Ticket}

/-- The step that remembers each ticket as it was first stored. -/
def observe : Choice → (e : Call) → World × List Ticket → Answer e × (World × List Ticket) :=
  ghosted step remember

theorem observe_born {c : Choice} {e : Call}
    (h : (step c e s.1).2.mem.tickets.rows.map Ticket.id = s.1.mem.tickets.rows.map Ticket.id) :
    (observe c e s).2.2 = s.2 := by
  change s.2 ++ newborns s.1.mem (step c e s.1).2.mem = s.2
  rw [newborns_eq_nil h, List.append_nil]

theorem observe_same {c : Choice} {e : Call} (h : (step c e s.1).2 = s.1) : (observe c e s).2 = s :=
  Prod.ext h (observe_born (by rw [h]))

theorem observe_store {c : Choice} (hc : FaultFree c) (q : StoreCall) :
    observe c (.store q) s =
      ((performStore c.now c.newID s.1.mem q).1,
        { s.1 with mem := (performStore c.now c.newID s.1.mem q).2 },
        remember s.1 { s.1 with mem := (performStore c.now c.newID s.1.mem q).2 } s.2) := by
  simp only [observe, ghosted, step_store (hc.not_failed q.method)]
  rfl

theorem accounted_quiet {e : Call} (he : Quiet T F e) (c : Choice) (hs : Accounted s) :
    Accounted (observe c e s).2 := by
  have hcores := sameCores_step he c s.1
  unfold Accounted
  rw [observe_born hcores.ids]
  exact Explained.sameCores valueOf_core hs hcores

theorem standing_quiet {e : Call} (he : Quiet T F e) (c : Choice) (hs : Standing before s) :
    Standing before (observe c e s).2 := by
  obtain ⟨hacc, t, ht, hcore⟩ := hs
  have hmem : before.core ∈ (step c e s.1).2.mem.tickets.rows.map Ticket.core := by
    rw [(sameCores_step he c s.1).1, ← hcore]
    exact List.mem_map_of_mem ht
  obtain ⟨t', ht', heq⟩ := List.mem_map.mp hmem
  exact ⟨accounted_quiet he c hacc, t', ht', heq⟩

theorem accounted_quietly {α : Type} {p : Act α} {Q : α → Prop} (hF : ∀ id, F id) (hp : Quietly T F p Q)
    (hs : Accounted s) : Ensures observe FaultFree p (fun a s' => Q a ∧ Accounted s') s :=
  hp.ensures (fun c e s' _ he hs' => ⟨accounted_quiet he c hs', honest_step (hF _) e s'.1⟩) hs

theorem standing_quietly {α : Type} {p : Act α} {Q : α → Prop} (hF : ∀ id, F id) (hp : Quietly T F p Q)
    (hs : Standing before s) : Ensures observe FaultFree p (fun a s' => Q a ∧ Standing before s') s :=
  hp.ensures (fun c e s' _ he hs' => ⟨standing_quiet he c hs', honest_step (hF _) e s'.1⟩) hs

theorem pending_perform (hs : Standing before s) (w : FieldWrite) (at_ : Time) :
    Ensures observe FaultFree (w.perform before.tenantID before.id at_).run
      (fun r s' => ∃ after, r = .ok after ∧ after.tenantID = before.tenantID ∧ after.id = before.id ∧
        Pending w.field (w.field.valueOf before) after s') s := by
  cases w with
  | status st =>
    intro c hc
    rw [observe_store hc]
    exact pending_modify hs (.status st) (orNow at_ c.now) mapErr rfl
  | assignee id name =>
    intro c hc
    rw [observe_store hc]
    exact pending_modify hs (.assignee id name) (orNow at_ c.now) mapErr rfl
  | patch p =>
    intro c hc
    rw [observe_store hc]
    exact pending_modify hs (.patch p) (orNow at_ c.now) mapErr rfl

theorem accounted_record {h : History} (ht : after ∈ s.1.mem.tickets.rows)
    (hten : after.tenantID = h.tenantID) (hid : after.id = h.ticketID)
    (hnew : h.newValue = h.field.valueOf after) (hne : h.oldValue ≠ h.newValue)
    (hs : Explained (pendingValue h.ticketID h.field h.oldValue) s.1.mem s.2) {c : Choice}
    (hc : FaultFree c) :
    Accounted (observe c (.store (.appendHistory h)) s).2 := by
  have hmem : (step c (.store (.appendHistory h)) s.1).2.mem =
      { s.1.mem with history := s.1.mem.history ++ [{ h with createdAt := orNow h.createdAt c.now }] } := by
    rw [step_store (hc.not_failed _)]
    exact congrArg Prod.snd (appendHistory_eq c.now ht hten hid)
  have hborn : (observe c (.store (.appendHistory h)) s).2.2 = s.2 := observe_born (by rw [hmem])
  change Explained _ (step c (.store (.appendHistory h)) s.1).2.mem _
  rw [hborn, hmem]
  exact Explained.record ht hid hnew hne hs

theorem accounted_append {fld : Field} {old : GoString} (hs : Pending fld old after s) (k : ActorKind)
    (actor : GoString) :
    Ensures observe FaultFree
      (appendHistory after.tenantID after.id fld old (fld.valueOf after) k actor).run
        (fun _ s' => Accounted s') s := by
  obtain ⟨hmem, hbehind⟩ := hs
  unfold appendHistory
  split
  · rename_i heq
    subst heq
    exact hbehind.unchanged hmem
  · rename_i hne
    refine EnsuresWhen.lift fun c _ => ?_
    rw [observe_same rfl]
    refine EnsuresWhen.lift fun c' _ => ?_
    rw [observe_same rfl]
    exact fun c'' hc'' => accounted_record hmem rfl rfl rfl hne hbehind hc''

theorem accounted_changeField (hF : ∀ id, F id) (d : Deps) (subj : Subjects) (id : GoString) (k : ActorKind)
    {plan : Ticket → Attempt (Option FieldWrite)}
    (hplan : ∀ t, t.tenantID = T → Quietly T F (plan t).run (fun _ => True)) (hs : Accounted s) :
    Ensures observe FaultFree (Tickets.changeField d subj T id k plan).run
      (fun _ s' => True ∧ Accounted s') s := by
  have hquiet : ∀ {x : Attempt View} {s'}, Quietly T F x.run (fun _ => True) → Accounted s' →
      Ensures observe FaultFree x.run (fun _ s'' => True ∧ Accounted s'') s' := accounted_quietly hF
  refine EnsuresWhen.andThen (S := fun r s' => Accounted s' ∧ ∀ t, r = .ok t → t.tenantID = T ∧
    t.id = id ∧ Standing t s')
    ?_ ?_ fun e s' h => ⟨trivial, h.1⟩
  · intro c hc
    rw [observe_store hc]
    simp only [performStore, Mem.getTicket, remember, newborns_eq_nil, List.append_nil]
    refine ⟨hs, fun t ht => ?_⟩
    cases hget : s.1.mem.ticket T id with
    | error e =>
      rw [hget] at ht
      cases ht
    | ok t₀ =>
      rw [hget] at ht
      obtain rfl := Except.ok.inj ht
      obtain ⟨hmem, hten, hid⟩ := ticket_ok hget
      exact ⟨hten, hid, hs, t₀, hmem, rfl⟩
  · rintro before s₁ ⟨-, hbefore⟩
    obtain ⟨rfl, rfl, hs₁⟩ := hbefore before rfl
    refine EnsuresWhen.andThen (standing_quietly hF (hplan before rfl) hs₁) ?_ fun e s' h =>
      ⟨trivial, h.2.1⟩
    rintro (_ | w) s₂ ⟨-, hs₂⟩
    · exact hquiet (quiet_view rfl true) hs₂.1
    · refine EnsuresWhen.lift fun c _ => ?_
      rw [observe_same rfl]
      refine EnsuresWhen.andThen (pending_perform hs₂ w _) ?_ ?_
      · rintro after s₃ ⟨_, ⟨⟩, hten, hid, hs₃⟩
        have happend := accounted_append hs₃ k subj.actorID
        rw [hten, hid] at happend
        refine EnsuresWhen.andThen happend ?_ fun _ _ h => ⟨trivial, h⟩
        rintro - s₄ hs₄
        refine EnsuresWhen.lift ((accounted_quietly hF (quiet_announce d w after k) hs₄).mono ?_)
        exact fun _ _ h => hquiet (quiet_view hten true) h.2
      · rintro e s₃ ⟨_, ⟨⟩, -⟩

theorem accounted_create {t : Ticket} (hs : Accounted s) (c : Choice) :
    Accounted (observe c (.store (.createTicket t)) s).2 := by
  have hsame : (step c (.store (.createTicket t)) s.1).2 = s.1 →
      Accounted (observe c (.store (.createTicket t)) s).2 :=
    fun h => by rwa [observe_same h]
  cases hf : c.fail (StoreCall.createTicket t).method with
  | true => exact hsame (by rw [step_store_failed hf])
  | false =>
    obtain ⟨e, he⟩ | ⟨hnew, -, heq⟩ := createTicket_cases c.now s.1.mem t
    · refine hsame ?_
      rw [step_store hf]
      exact congrArg (fun m => { s.1 with mem := m }) (congrArg Prod.snd he)
    · have hmem : (step c (.store (.createTicket t)) s.1).2.mem =
          { s.1.mem with tickets := s.1.mem.tickets.put (Mem.withDefaults c.now t) } := by
        rw [step_store hf]
        exact congrArg Prod.snd heq
      change Explained _ (step c (.store (.createTicket t)) s.1).2.mem
        (s.2 ++ newborns s.1.mem (step c _ s.1).2.mem)
      rw [hmem]
      exact Explained.create hs hnew

theorem accountedLogic (T : GoString) : TicketLogic T (fun _ => True)
    (fun p Q => ∀ s, Accounted s → Ensures observe FaultFree p (fun a s' => Q a ∧ Accounted s') s) where
  quiet hp _ hs := accounted_quietly (fun _ => trivial) hp hs
  bind hp s hs := EnsuresWhen.bind ((hp s hs).mono fun _ s' h => h.1 s' h.2)
  mono hp hQ s hs := (hp s hs).mono fun _ _ h => ⟨hQ _ h.1, h.2⟩
  create _ _ _ hs c _ := ⟨trivial, accounted_create hs c⟩
  change d subj id k _ _ hplan _ hs := accounted_changeField (fun _ => trivial) d subj id k hplan hs

/-- The operations that only add to a ticket's record: no deletion and no import. -/
def Operation.Recorded : Operation → Prop
  | .delete .. | .deleteComment .. | .importBackup .. => False
  | _ => True

theorem accounted_act (d : Deps) (op : Operation) (hop : op.Recorded) (hs : Accounted s) :
    Ensures observe FaultFree (op.act d) (fun _ s' => Accounted s') s := by
  have hfinish : ∀ {α : Type} {x : Attempt α},
      (∀ s, Accounted s → Ensures observe FaultFree x.run (fun _ s' => True ∧ Accounted s') s) →
        Ensures observe FaultFree (finish x) (fun _ s' => Accounted s') s :=
    fun hx => EnsuresWhen.bind ((hx s hs).mono fun _ _ h => h.2)
  cases op with
  | create subj input => exact hfinish ((accountedLogic _).createManual d rfl input)
  | update subj id input => exact hfinish ((accountedLogic _).update d rfl id input)
  | assignAs subj id assigneeID k => exact hfinish ((accountedLogic _).assignAs d rfl id assigneeID k)
  | setStatusAs subj id status k => exact hfinish ((accountedLogic _).setStatusAs d rfl id status k)
  | setPriorityAs subj id priority k => exact hfinish ((accountedLogic _).setPriorityAs d rfl id priority k)
  | addNote subj ticketID body =>
    exact hfinish ((accountedLogic _).quiet (quiet_addNote d subj rfl ticketID body))
  | reply subj ticketID body => exact hfinish ((accountedLogic _).reply d rfl ticketID body)
  | ingest route recipient msg => exact hfinish ((accountedLogic _).ingest d rfl route rfl recipient msg)
  | applyRules subj ticketID dec => exact hfinish ((accountedLogic _).applyDecision d rfl ticketID dec)
  | _ => exact hop.elim

theorem accounted_session (d : Deps) (ops : List Operation) (hops : ∀ op ∈ ops, op.Recorded)
    (hs : Accounted s) :
    Ensures observe FaultFree (session d ops) (fun _ s' => Accounted s') s := by
  induction ops generalizing s with
  | nil => exact hs
  | cons op ops ih =>
    refine EnsuresWhen.bind ((accounted_act d op (hops op List.mem_cons_self) hs).mono fun _ s' hs' => ?_)
    exact ih (fun op hop => hops op (List.mem_cons_of_mem _ hop)) hs'

/-- In every fault-free session that starts without tickets each ticket was stored for the first
time exactly once, and from the values it had then its history leads, change by change, to its
current status, priority and assignee. -/
theorem history_explains_values (d : Deps) (ops : List Operation) (hops : ∀ op ∈ ops, op.Recorded)
    (cs : ℕ → Choice) (hcs : ∀ n, FaultFree (cs n)) (w : World) (htickets : w.mem.tickets.rows = [])
    (hhistory : w.mem.history = []) :
    let s := (run observe (session d ops) (w, []) cs).state
    s.1 = (run step (session d ops) w cs).state ∧
      s.2.map Ticket.id = s.1.mem.tickets.rows.map Ticket.id ∧
      ∀ t ∈ s.1.mem.tickets.rows, ∃ t₀ ∈ s.2, t₀.id = t.id ∧
        ∀ f ∈ recordedFields, Chain (f.valueOf t₀) (changes s.1.mem t.id f) (f.valueOf t) := by
  have hempty : Accounted (w, []) := by
    refine ⟨?_, ?_, ?_⟩
    · simp [hhistory]
    · simp [htickets]
    · simp [htickets]
  have hend : Accounted (run observe (session d ops) (w, []) cs).state :=
    (accounted_session d ops hops hempty).run cs hcs
  exact ⟨run_ghosted remember _ _ cs, hend.ids, hend.chained⟩

end Runs

def resolvingSession : List Operation :=
  [.create ⟨"t", "u", [], .agent⟩ { subject := "s" },
    .setStatusAs ⟨"t", "u", [], .agent⟩ "n" .resolved .agent, .update ⟨"t", "u", [], .agent⟩ "n"
      { priority := some .high }]

theorem history_explains_values_resolving :
    letI := asciiLibrary
    let s := (run observe (session {} resolvingSession) ({}, []) (fun _ => { newID := "n" })).state
    s.1.mem.history.length = 2 ∧
    s.1 = (run step (session {} resolvingSession) {} (fun _ => { newID := "n" })).state ∧
      s.2.map Ticket.id = s.1.mem.tickets.rows.map Ticket.id ∧
      ∀ t ∈ s.1.mem.tickets.rows, ∃ t₀ ∈ s.2, t₀.id = t.id ∧
        ∀ f ∈ recordedFields, Chain (f.valueOf t₀) (changes s.1.mem t.id f) (f.valueOf t) := by
  have hops : ∀ op ∈ resolvingSession, op.Recorded := by
    simp only [resolvingSession, List.forall_mem_cons, Operation.Recorded, true_and]
    exact fun op hop => absurd hop List.not_mem_nil
  have hcs : FaultFree { newID := "n" } := rfl
  exact ⟨by decide +kernel, @history_explains_values asciiLibrary {} _ hops _ (fun _ => hcs) {} rfl rfl⟩

end TangraTicket.Services
