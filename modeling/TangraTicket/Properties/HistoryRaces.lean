import Mathlib.Data.Fintype.Basic
import TangraTicket.Library.Interleaving
import TangraTicket.Library.ValueChain
import TangraTicket.Properties.FailedChanges
import TangraTicket.Services.Operations
import TangraTicket.Services.Scope

/-!
Field changes that run side by side. Each reads the ticket, writes the field and then appends the
old and the new value to the history, in three calls, so the history stays a chain only while no two
changes of one field overlap.
-/

namespace TangraTicket.Services

open GoText Store KeyedTable CallProgram ValueChain

structure Change where
  ticketID : GoString
  field : Field
  oldValue : GoString
  newValue : GoString

structure Trail where
  read : Option Ticket := none
  due : Option Change := none

def Trail.written (s : Trail) (f : Field) (t : Ticket) : Trail :=
  { s with
    due := s.read.bind fun before =>
      if f.valueOf before = f.valueOf t then none else some ⟨t.id, f, f.valueOf before, f.valueOf t⟩ }

def Trail.next (s : Trail) : (e : Call) → Answer e → Trail
  | .store (.getTicket ..), .ok t => { s with read := some t }
  | .store (.setStatus ..), .ok t => s.written .status t
  | .store (.setAssignee ..), .ok t => s.written .assignee t
  | .store (.updateTicket ..), .ok t => s.written .priority t
  | .store (.appendHistory _), .ok _ => { s with due := none }
  | _, _ => s

def trail (log : Log) : Trail := log.foldl (fun s x => s.next x.call x.answer) {}

theorem trail_snoc (log : Log) (x : Event Call Answer) :
    trail (log ++ [x]) = (trail log).next x.call x.answer := by
  simp [trail]

def writeOf : Call → Option (FieldWrite × GoString × GoString)
  | .store (.setStatus ten id s _) => some (.status s, ten, id)
  | .store (.setAssignee ten id userID name _) => some (.assignee userID name, ten, id)
  | .store (.updateTicket ten id p _) => some (.patch p, ten, id)
  | _ => none

def Traceless : Call → Prop
  | .store (.getTicket ..) | .store (.setStatus ..) | .store (.setAssignee ..) | .store (.updateTicket ..)
  | .store (.appendHistory _) => False
  | _ => True

theorem Trail.next_traceless {e : Call} (h : Traceless e) (s : Trail) (r : Answer e) : s.next e r = s := by
  unfold Trail.next
  split <;> first | rfl | exact h.elim

theorem trail_traceless {log l : Log} (h : ∀ x ∈ l, Traceless x.call) : trail (log ++ l) = trail log := by
  induction l using List.reverseRecOn with
  | nil => rw [List.append_nil]
  | append_singleton l x ih =>
    rw [← List.append_assoc, trail_snoc, Trail.next_traceless (h x (by simp))]
    exact ih fun y hy => h y (by simp [hy])

def Taken : (e : Call) → Answer e → Prop
  | .store (.appendHistory _), r => Except.isOk r = true
  | _, _ => True

def Answered (e : Call) (r : Answer e) : Prop := Honest (fun _ => True) e r ∧ Taken e r

structure ChangeRule (T : GoString) (log : Log) (e : Call) : Prop where
  inScope : Scoped T (fun _ => True) e
  creates : ∀ t, e ≠ .store (.createTicket t)
  append : ∀ h, e = .store (.appendHistory h) →
    (trail log).due = some ⟨h.ticketID, h.field, h.oldValue, h.newValue⟩
  write : ∀ fw ten id, writeOf e = some (fw, ten, id) →
    (trail log).due = none ∧ ∃ before, (trail log).read = some before ∧ before.tenantID = ten ∧
    before.id = id

section Contract

variable {T : GoString} {log : Log}

theorem Quiet.changeRule {e : Call} (h : Quiet T (fun _ => True) e) : ChangeRule T log e where
  inScope := h.scoped
  creates := by
    rintro t rfl
    exact h
  append := by
    rintro x rfl
    exact h.elim
  write := by
    intro fw ten id hw
    unfold writeOf at hw
    split at hw
    · exact h.elim
    · exact h.elim
    · exact h.elim
    · cases hw

def Unseen (T : GoString) (e : Call) : Prop := Quiet T (fun _ => True) e ∧ Traceless e

theorem unseen_obeys {α : Type} {p : Act α} {Q : α → Prop} (hp : Issues Answered (Unseen T) p Q) :
    Obeys Answered (ChangeRule T) (fun l a => Q a ∧ trail l = trail log) log p := by
  refine (hp.obeys fun _ _ _ he => he.1.changeRule).mono ?_
  rintro _ a ⟨ha, l', rfl, hl'⟩
  exact ⟨ha, trail_traceless fun x hx => (hl' x hx).2⟩

theorem obeys_view {t : Ticket} (ht : t.tenantID = T) (hlog : (trail log).due = none) :
    Obeys Answered (ChangeRule T) (fun l _ => (trail l).due = none) log (Tickets.view t true).run :=
  (unseen_obeys (issues_view t true ⟨ht, trivial⟩ ⟨ht, trivial⟩)).mono fun _ _ h => h.2 ▸ hlog

structure Reading (T id : GoString) (before : Ticket) (log : Log) : Prop where
  read : (trail log).read = some before
  due : (trail log).due = none
  tenant : before.tenantID = T
  named : before.id = id

variable {id : GoString} {before : Ticket}

theorem obeys_perform (h : Reading T id before log) (fw : FieldWrite) (at_ : Time) :
    Obeys Answered (ChangeRule T) (fun l r => match r with
      | .error _ => (trail l).due = none
      | .ok after => after.tenantID = T ∧ after.id = id ∧
        (trail l).due = if fw.field.valueOf before = fw.field.valueOf after then none
          else some ⟨id, fw.field, fw.field.valueOf before, fw.field.valueOf after⟩) log
          (fw.perform T id at_).run := by
  have hrule : ∀ {e : Call}, Scoped T (fun _ => True) e → writeOf e = some (fw, T, id) →
      ChangeRule T log e := by
    intro e he hw
    refine ⟨he, ?_, ?_, ?_⟩
    · rintro t rfl
      cases hw
    · rintro x rfl
      cases hw
    · intro fw' ten id' hw'
      obtain ⟨rfl, rfl, rfl⟩ : fw' = fw ∧ ten = T ∧ id' = id := by simpa using hw'.symm.trans hw
      exact ⟨h.due, before, h.read, h.tenant, h.named⟩
  have herr : ∀ {e : Call} {r : Answer e}, (trail log).next e r = trail log →
      (trail (log ++ [⟨e, r⟩])).due = none := by
    intro e r hnext
    rw [trail_snoc, hnext]
    exact h.due
  have hwritten : ∀ {after : Ticket} {e : Call} {r : Answer e}, after.tenantID = T ∧ after.id = id →
      (trail log).next e r = (trail log).written fw.field after →
        after.tenantID = T ∧ after.id = id ∧ (trail (log ++ [⟨e, r⟩])).due =
          if fw.field.valueOf before = fw.field.valueOf after then none
          else some ⟨id, fw.field, fw.field.valueOf before, fw.field.valueOf after⟩ := by
    rintro after e r ⟨hten, rfl⟩ hnext
    refine ⟨hten, rfl, ?_⟩
    rw [trail_snoc, hnext, Trail.written, h.read]
    rfl
  cases fw with
  | status st =>
    refine ⟨hrule rfl rfl, ?_⟩
    rintro (e | after) hr
    · exact herr rfl
    · exact hwritten hr.1 rfl
  | assignee userID name =>
    refine ⟨hrule rfl rfl, ?_⟩
    rintro (e | after) hr
    · exact herr rfl
    · exact hwritten hr.1 rfl
  | patch p =>
    refine ⟨hrule rfl rfl, ?_⟩
    rintro (e | after) hr
    · exact herr rfl
    · exact hwritten hr.1 rfl

theorem obeys_appendHistory {f : Field} {old new : GoString} (k : ActorKind) (actor : GoString)
    (hdue : (trail log).due = if old = new then none else some ⟨id, f, old, new⟩) :
    Obeys Answered (ChangeRule T) (fun l _ => (trail l).due = none) log
      (appendHistory T id f old new k actor).run := by
  by_cases hsame : old = new
  · rw [appendHistory, if_pos hsame]
    rwa [if_pos hsame] at hdue
  · rw [appendHistory, if_neg hsame]
    rw [if_neg hsame] at hdue
    have hcall : ∀ {e : Call}, Unseen T e → Issues Answered (Unseen T) (request e) (fun _ => True) :=
      fun he => ⟨he, fun _ _ => trivial⟩
    refine Obeys.lift ((unseen_obeys (hcall (e := .newID) ⟨trivial, trivial⟩)).mono fun l₁ _ h₁ => ?_)
    refine Obeys.lift ((unseen_obeys (hcall (e := .now) ⟨trivial, trivial⟩)).mono fun l₂ at_ h₂ => ?_)
    refine ⟨⟨rfl, fun t ht => ?_, ?_, fun fw ten id hw => ?_⟩, ?_⟩
    · cases ht
    · rintro x hx
      cases hx
      rw [h₂.2, h₁.2, hdue]
    · cases hw
    · rintro (e | _) hr
      · exact absurd hr.2 Bool.false_ne_true
      · change (trail (l₂ ++ [_])).due = none
        rw [trail_snoc]
        rfl

theorem obeys_changeField (d : Deps) (subj : Subjects) (id : GoString) (k : ActorKind)
    {plan : Ticket → Attempt (Option FieldWrite)}
    (hplan : ∀ t, Issues Answered (Unseen T) (plan t).run (fun _ => True)) :
    Obeys Answered (ChangeRule T) (fun l _ => (trail l).due = none) []
      (Tickets.changeField d subj T id k plan).run := by
  refine Obeys.andThen (S := fun l r => match r with
    | .error _ => (trail l).due = none
    | .ok before => Reading T id before l) ⟨Quiet.changeRule rfl, ?_⟩ ?_ fun _ _ h => h
  · rintro (e | before) hr
    · rfl
    · exact ⟨rfl, rfl, hr.1.1, hr.1.2⟩
  intro l₁ before hread
  refine Obeys.andThen (unseen_obeys (hplan before)) ?_ fun _ _ h => h.2 ▸ hread.due
  rintro l₂ o ⟨-, hl₂⟩
  have hread₂ : Reading T id before l₂ := ⟨hl₂ ▸ hread.read, hl₂ ▸ hread.due, hread.tenant, hread.named⟩
  cases o with
  | none => exact obeys_view hread.tenant hread₂.due
  | some fw =>
    have hclock : Issues Answered (Unseen T) clock (fun _ => True) :=
      ⟨⟨trivial, trivial⟩, fun _ _ => trivial⟩
    refine Obeys.lift ((unseen_obeys hclock).mono fun l₃ at_ h₃ => ?_)
    have hread₃ : Reading T id before l₃ :=
      ⟨h₃.2 ▸ hread₂.read, h₃.2 ▸ hread₂.due, hread.tenant, hread.named⟩
    refine Obeys.andThen (obeys_perform hread₃ fw at_) ?_ fun _ _ h => h
    rintro l₄ after ⟨hten, -, hdue⟩
    refine Obeys.andThen (obeys_appendHistory k subj.actorID hdue) (fun l₅ _ h₅ => ?_) fun _ _ h => h
    have hannounce : Issues Answered (Unseen T) (Tickets.announce d T fw after k) (fun _ => True) :=
      issues_announce d (fun _ => ⟨trivial, trivial⟩) T fw after k
    exact Obeys.lift ((unseen_obeys hannounce).mono fun l₆ _ h₆ => obeys_view hten (h₆.2 ▸ h₅))

theorem FieldChange.obeys (d : Deps) (subj : Subjects) (id : GoString) (op : FieldChange) :
    Obeys Answered (ChangeRule subj.tenantID) (fun l _ => (trail l).due = none) []
      (op.attempt d subj id).run := by
  have htenant : ∀ {f : GoString → Attempt View} {Ψ : Log → Except Err View → Prop},
      (∀ e, Ψ [] (.error e)) →
      Obeys Answered (ChangeRule subj.tenantID) Ψ [] (f subj.tenantID).run →
        Obeys Answered (ChangeRule subj.tenantID) Ψ [] (ofExcept (tenantOf subj) >>= f).run := by
    intro f Ψ herr hf
    unfold tenantOf
    split
    · exact herr _
    · exact hf
  have hrefused : ∀ {α : Type} {x : Except Err α} {f : α → Attempt View}, (∀ a, x = .ok a →
      Obeys Answered (ChangeRule subj.tenantID) (fun l _ => (trail l).due = none) [] (f a).run) →
        Obeys Answered (ChangeRule subj.tenantID) (fun l _ => (trail l).due = none) []
          (ofExcept x >>= f).run := by
    intro α x f hf
    rcases x with e | a
    · rfl
    · exact hf a rfl
  cases op with
  | update input =>
    exact htenant (fun _ => rfl) (hrefused fun p _ => obeys_changeField d subj id _ fun _ => trivial)
  | assignAs assigneeID k =>
    refine htenant (fun _ => rfl) (obeys_changeField d subj id k fun t => ?_)
    have hchosen : Issues Answered (Unseen subj.tenantID)
        (Tickets.chosenAssignee d subj.tenantID assigneeID).run
        (fun _ => True) := issues_chosenAssignee d _ _ ⟨trivial, trivial⟩
    exact hchosen.andThen (fun _ _ => trivial) fun _ => trivial
  | setStatusAs status k =>
    refine htenant (fun _ => rfl) ?_
    split
    · exact obeys_changeField d subj id k fun _ => trivial
    · rfl
  | setPriorityAs priority k =>
    exact htenant (fun _ => rfl) (hrefused fun p _ => obeys_changeField d subj id k fun _ => trivial)

end Contract

theorem ChangeRule.cases {T : GoString} {log : Log} {e : Call} (h : ChangeRule T log e) :
    Quiet T (fun _ => True) e ∨ (∃ fw id, writeOf e = some (fw, T, id)) ∨
      ∃ x, e = .store (.appendHistory x) ∧ x.tenantID = T := by
  have hscoped := h.inScope
  unfold Scoped at hscoped
  split at hscoped
  · exact absurd rfl (h.creates _)
  · exact .inr (.inl ⟨_, _, by rw [← hscoped]; rfl⟩)
  · exact .inr (.inl ⟨_, _, by rw [← hscoped]; rfl⟩)
  · exact .inr (.inl ⟨_, _, by rw [← hscoped]; rfl⟩)
  · exact .inr (.inr ⟨_, rfl, hscoped⟩)
  · exact .inl hscoped

theorem Trail.next_quiet {T : GoString} {F : GoString → Prop} {e : Call} (h : Quiet T F e)
    (s : Trail) (r : Answer e) :
    (s.next e r).due = s.due := by
  unfold Trail.next
  split
  · rfl
  · exact h.elim
  · exact h.elim
  · exact h.elim
  · exact h.elim
  · rfl

theorem taken_quiet {T : GoString} {F : GoString → Prop} {e : Call} (h : Quiet T F e)
    (r : Answer e) : Taken e r := by
  unfold Taken
  split
  · exact h.elim
  · trivial

section Calls

variable [GoLibrary] {c : Choice} {w : World} {e : Call} {fw : FieldWrite} {ten id : GoString}

theorem step_write (hc : FaultFree c) (hw : writeOf e = some (fw, ten, id)) :
    Taken e (step c e w).1 ∧
      ((step c e w).2 = w ∧ (∀ s : Trail, s.next e (step c e w).1 = s) ∨
        ∃ t ∈ w.mem.tickets.rows, ∃ τ, t.tenantID = ten ∧ t.id = id ∧
          (step c e w).2.mem = { w.mem with tickets := w.mem.tickets.put (fw.apply τ t) } ∧
          ∀ s : Trail, s.next e (step c e w).1 = s.written fw.field (fw.apply τ t)) := by
  -- the three writes differ only in their call: each is answered by `modifyTicket`
  have hanswer : ∀ {q : StoreCall} {τ : Time}, (∀ x m, w.mem.modifyTicket ten id (fw.apply τ) = (x, m) →
      ∃ r, performStore c.now c.newID w.mem q = (r, m) ∧
      (∀ err, x = .error err → ∀ s : Trail, s.next (.store q) r = s) ∧
        ∀ t, x = .ok t → ∀ s : Trail, s.next (.store q) r = s.written fw.field t) →
      (step c (.store q) w).2 = w ∧ (∀ s : Trail, s.next (.store q) (step c (.store q) w).1 = s) ∨
        ∃ t ∈ w.mem.tickets.rows, ∃ τ, t.tenantID = ten ∧ t.id = id ∧
          (step c (.store q) w).2.mem = { w.mem with tickets := w.mem.tickets.put (fw.apply τ t) } ∧
          ∀ s : Trail, s.next (.store q) (step c (.store q) w).1 = s.written fw.field (fw.apply τ t) := by
    intro q τ hq
    rw [step_store (hc.not_failed _)]
    obtain ⟨err, he⟩ | ⟨t, ht, hten, hid, heq⟩ := modifyTicket_cases w.mem ten id (fw.apply τ)
    · obtain ⟨r, hr, hmiss, -⟩ := hq _ _ he
      rw [hr]
      exact .inl ⟨rfl, hmiss err rfl⟩
    · obtain ⟨r, hr, -, hhit⟩ := hq _ _ heq
      rw [hr]
      exact .inr ⟨t, ht, τ, hten, hid, rfl, hhit _ rfl⟩
  unfold writeOf at hw
  split at hw
  · cases hw
    refine ⟨trivial, hanswer fun x m hx => ⟨x, hx, ?_, ?_⟩⟩ <;> rintro _ rfl _ <;> rfl
  · cases hw
    refine ⟨trivial, hanswer fun x m hx => ⟨x, hx, ?_, ?_⟩⟩ <;> rintro _ rfl _ <;> rfl
  · cases hw
    refine ⟨trivial, hanswer fun x m hx => ⟨x, hx, ?_, ?_⟩⟩ <;> rintro _ rfl _ <;> rfl
  · cases hw

theorem step_append (hc : FaultFree c) {x : History} {t : Ticket} (ht : t ∈ w.mem.tickets.rows)
    (hten : t.tenantID = x.tenantID) (hid : t.id = x.ticketID) :
    Taken (.store (.appendHistory x)) (step c (.store (.appendHistory x)) w).1 ∧
      (∀ s : Trail, (s.next _ (step c (.store (.appendHistory x)) w).1).due = none) ∧
      (step c (.store (.appendHistory x)) w).2.mem =
        { w.mem with history := w.mem.history ++ [{ x with createdAt := orNow x.createdAt c.now }] } := by
  have hperf : performStore c.now c.newID w.mem (.appendHistory x) = (.ok (), _) :=
    appendHistory_eq c.now ht hten hid
  rw [step_store (hc.not_failed _), hperf]
  exact ⟨rfl, fun _ => rfl, rfl⟩

end Calls

/-- One field change, by whom and of which ticket. -/
structure ChangeTask where
  subj : Subjects
  id : GoString
  op : FieldChange

def ChangeTask.act (d : Deps) (task : ChangeTask) : Act Unit := finish (task.op.attempt d task.subj task.id)

def nextWrite : Act Unit → Option (FieldWrite × GoString × GoString)
  | .ret _ => none
  | .call e _ => writeOf e

section Interleaved

variable {ι : Type} (cfg : Config ι Call Answer Unit World) (i : ι)

def dueOf : Option Change := (trail (cfg.threads i).log).due

def Owes (id : GoString) (f : Field) : Prop := ∃ x ∈ dueOf cfg i, x.ticketID = id ∧ x.field = f

def Fresh : Prop :=
  ∀ x ∈ nextWrite (cfg.threads i).prog,
    (∀ before ∈ (trail (cfg.threads i).log).read, ∀ t ∈ cfg.state.mem.tickets.rows, t.id = x.2.2 →
      x.1.field.valueOf before = x.1.field.valueOf t) ∧
    ∀ j, j ≠ i → ¬ Owes cfg j x.2.2 x.1.field

/-- No store call fails, and no write races with another change. -/
def Unraced (c : Choice) : Prop := FaultFree c ∧ Fresh cfg i

inductive Led (v : GoString) (X : GoString) (f : Field) (cfg : Config ι Call Answer Unit World)
    (t : Ticket) : Prop
  | settled : (∀ j, ¬ Owes cfg j X f) → Chain v (changes cfg.state.mem X f) (f.valueOf t) → Led v X f cfg t
  | owed (i : ι) (x : Change) : dueOf cfg i = some x → x.ticketID = X → x.field = f →
      x.newValue = f.valueOf t →
      x.oldValue ≠ x.newValue → (∀ j, j ≠ i → ¬ Owes cfg j X f) →
      Chain v (changes cfg.state.mem X f) x.oldValue →
      Led v X f cfg t

structure Ledger (tasks : ι → ChangeTask) (v X : GoString) (f : Field)
    (cfg : Config ι Call Answer Unit World) : Prop where
  kept : ∀ i x, dueOf cfg i = some x →
    ∃ t ∈ cfg.state.mem.tickets.rows, t.tenantID = (tasks i).subj.tenantID ∧ t.id = x.ticketID
  led : ∃ t ∈ cfg.state.mem.tickets.rows, t.id = X ∧ Led v X f cfg t

variable {cfg i} [DecidableEq ι] {tasks : ι → ChangeTask} {v X : GoString} {f : Field} {e : Call}
  {k : Answer e → Act Unit} {o : Answer e × World}

instance [Fintype ι] : Decidable (Fresh cfg i) :=
  have (id : GoString) (f : Field) (j : ι) : Decidable (Owes cfg j id f) :=
    inferInstanceAs (Decidable (∃ x ∈ dueOf cfg j, x.ticketID = id ∧ x.field = f))
  inferInstanceAs (Decidable (∀ x ∈ nextWrite (cfg.threads i).prog,
    (∀ before ∈ (trail (cfg.threads i).log).read, ∀ t ∈ cfg.state.mem.tickets.rows, t.id = x.2.2 →
      x.1.field.valueOf before = x.1.field.valueOf t) ∧
    ∀ j, j ≠ i → ¬ Owes cfg j x.2.2 x.1.field))

theorem dueOf_self : dueOf (cfg.answered i e k o) i = ((trail (cfg.threads i).log).next e o.1).due := by
  simp only [dueOf, Config.answered, Function.update_self, trail_snoc]

theorem dueOf_other {j : ι} (hj : j ≠ i) : dueOf (cfg.answered i e k o) j = dueOf cfg j := by
  simp only [dueOf, Config.answered, Function.update_of_ne hj]

theorem owes_other {j : ι} (hj : j ≠ i) {id : GoString} :
    Owes (cfg.answered i e k o) j id f ↔ Owes cfg j id f := by
  rw [Owes, dueOf_other hj, Owes]

theorem Led.same {t t' : Ticket} (h : Led v X f cfg t)
    (hdue : ∀ j x, x.ticketID = X → x.field = f →
      (dueOf (cfg.answered i e k o) j = some x ↔ dueOf cfg j = some x))
    (hval : f.valueOf t' = f.valueOf t) (hch : changes o.2.mem X f = changes cfg.state.mem X f) :
    Led v X f (cfg.answered i e k o) t' := by
  have howes : ∀ j, ¬ Owes cfg j X f → ¬ Owes (cfg.answered i e k o) j X f := by
    rintro j hj ⟨x, hx, hid, hfld⟩
    exact hj ⟨x, (hdue j x hid hfld).mp hx, hid, hfld⟩
  cases h with
  | settled hnone hchain =>
    refine .settled (fun j => howes j (hnone j)) ?_
    change Chain v (changes o.2.mem X f) _
    rwa [hch, hval]
  | owed j x hx hid hfld hnew hne hothers hchain =>
    refine .owed j x ((hdue j x hid hfld).mpr hx) hid hfld (hnew.trans hval.symm) hne
      (fun j' hj' => howes j' (hothers j' hj')) ?_
    change Chain v (changes o.2.mem X f) _
    rwa [hch]

theorem ledger_quiet (h : Ledger tasks v X f cfg) (hcores : SameCores cfg.state.mem o.2.mem)
    (hdue : ∀ j, dueOf (cfg.answered i e k o) j = dueOf cfg j) :
    Ledger tasks v X f (cfg.answered i e k o) := by
  have hrow : ∀ t ∈ cfg.state.mem.tickets.rows, ∃ t' ∈ o.2.mem.tickets.rows, t'.core = t.core := by
    intro t ht
    have hmem : t.core ∈ o.2.mem.tickets.rows.map Ticket.core := hcores.1 ▸ List.mem_map_of_mem ht
    exact List.mem_map.mp hmem
  refine ⟨fun j x hx => ?_, ?_⟩
  · obtain ⟨t, ht, hten, hid⟩ := h.kept j x (hdue j ▸ hx)
    obtain ⟨t', ht', hcore⟩ := hrow t ht
    exact ⟨t', ht', (show t'.core.tenantID = t.core.tenantID by rw [hcore]).trans hten,
      (show t'.core.id = t.core.id by rw [hcore]).trans hid⟩
  · obtain ⟨t, ht, hid, hled⟩ := h.led
    obtain ⟨t', ht', hcore⟩ := hrow t ht
    refine ⟨t', ht', (show t'.core.id = t.core.id by rw [hcore]).trans hid, ?_⟩
    refine hled.same (fun j x _ _ => by rw [hdue j]) ?_ (by rw [changes, hcores.2, changes])
    rw [← valueOf_core f t', hcore, valueOf_core]

theorem kept_write {m : Mem} {t t' x : Ticket} (ht : t ∈ m.tickets.rows) (hid : t'.id = t.id)
    (hten : t'.tenantID = t.tenantID) (hx : x ∈ m.tickets.rows) :
    ∃ y ∈ (m.tickets.put t').rows, y.tenantID = x.tenantID ∧ y.id = x.id := by
  by_cases hsame : x.id = t.id
  · obtain rfl := m.tickets.eq_of_key hx ht hsame
    exact ⟨t', Table.mem_put.mpr (.inl rfl), hten, hid⟩
  · exact ⟨x, Table.mem_put.mpr (.inr ⟨hx, fun hc => hsame (hc.trans hid)⟩), rfl, rfl⟩

theorem ledger_write (h : Ledger tasks v X f cfg) {fw : FieldWrite} {t before : Ticket} {τ : Time}
    (ht : t ∈ cfg.state.mem.tickets.rows) (hten : t.tenantID = (tasks i).subj.tenantID)
    (hmem : o.2.mem = { cfg.state.mem with tickets := cfg.state.mem.tickets.put (fw.apply τ t) })
    (hnext : ∀ s : Trail, s.next e o.1 = s.written fw.field (fw.apply τ t))
    (hdue : dueOf cfg i = none) (hread : (trail (cfg.threads i).log).read = some before)
    (hfresh : fw.field.valueOf before = fw.field.valueOf t)
    (hothers : ∀ j, j ≠ i → ¬ Owes cfg j t.id fw.field) :
    Ledger tasks v X f (cfg.answered i e k o) := by
  have hself : dueOf (cfg.answered i e k o) i =
      if fw.field.valueOf t = fw.field.valueOf (fw.apply τ t) then none
      else some ⟨t.id, fw.field, fw.field.valueOf t, fw.field.valueOf (fw.apply τ t)⟩ := by
    rw [dueOf_self, hnext, Trail.written, hread, ← hfresh, apply_id]
    rfl
  have hselfID : ∀ x, dueOf (cfg.answered i e k o) i = some x → x.ticketID = t.id ∧ x.field = fw.field := by
    intro x hx
    rw [hself] at hx
    split at hx
    · cases hx
    · cases hx
      exact ⟨rfl, rfl⟩
  have hrows : ∀ x ∈ cfg.state.mem.tickets.rows,
      ∃ y ∈ o.2.mem.tickets.rows, y.tenantID = x.tenantID ∧ y.id = x.id := by
    intro x hx
    rw [hmem]
    exact kept_write ht (apply_id τ t fw) (apply_tenantID τ t fw) hx
  have hch : changes o.2.mem X f = changes cfg.state.mem X f := by rw [hmem]; rfl
  refine ⟨fun j x hx => ?_, ?_⟩
  · by_cases hj : j = i
    · subst hj
      obtain ⟨y, hy, hyten, hyid⟩ := hrows t ht
      exact ⟨y, hy, hyten.trans hten, hyid.trans (hselfID x hx).1.symm⟩
    · obtain ⟨y, hy, hyten, hyid⟩ := h.kept j x (dueOf_other hj ▸ hx)
      obtain ⟨z, hz, hzten, hzid⟩ := hrows y hy
      exact ⟨z, hz, hzten.trans hyten, hzid.trans hyid⟩
  · obtain ⟨tX, htX, rfl, hled⟩ := h.led
    by_cases hhit : t.id = tX.id ∧ fw.field = f
    · obtain ⟨hid, rfl⟩ := hhit
      obtain rfl := cfg.state.mem.tickets.eq_of_key ht htX hid
      refine ⟨fw.apply τ t, hmem ▸ Table.mem_put.mpr (.inl rfl), apply_id τ t fw, ?_⟩
      have hnone : ∀ j, ¬ Owes cfg j t.id fw.field := by
        intro j
        by_cases hj : j = i
        · subst hj
          rintro ⟨x, hx, -⟩
          rw [hdue] at hx
          cases hx
        · exact hothers j hj
      cases hled with
      | owed j x hx hxid hfld => exact absurd ⟨x, hx, hxid, hfld⟩ (hnone j)
      | settled _ hchain =>
        by_cases hsame : fw.field.valueOf t = fw.field.valueOf (fw.apply τ t)
        · rw [if_pos hsame] at hself
          refine .settled (fun j => ?_) ?_
          · by_cases hj : j = i
            · subst hj
              rintro ⟨x, hx, -⟩
              rw [hself] at hx
              cases hx
            · exact (owes_other hj).not.mpr (hothers j hj)
          · change Chain v (changes o.2.mem t.id fw.field) _
            rwa [hch, ← hsame]
        · rw [if_neg hsame] at hself
          refine .owed i _ hself rfl rfl rfl hsame (fun j hj => (owes_other hj).not.mpr (hothers j hj)) ?_
          change Chain v (changes o.2.mem t.id fw.field) _
          rwa [hch]
    · have hdues : ∀ j x, x.ticketID = tX.id → x.field = f →
          (dueOf (cfg.answered i e k o) j = some x ↔ dueOf cfg j = some x) := by
        intro j x hxid hfld
        by_cases hj : j = i
        · subst hj
          refine iff_of_false (fun hx => hhit ?_) (by simp [hdue])
          obtain ⟨hx₁, hx₂⟩ := hselfID x hx
          exact ⟨hx₁.symm.trans hxid, hx₂.symm.trans hfld⟩
        · rw [dueOf_other hj]
      by_cases hid : tX.id = t.id
      · obtain rfl := cfg.state.mem.tickets.eq_of_key htX ht hid
        refine ⟨fw.apply τ tX, hmem ▸ Table.mem_put.mpr (.inl rfl), apply_id τ tX fw,
          hled.same hdues ?_ hch⟩
        exact valueOf_apply (fun hc => hhit ⟨rfl, hc.symm⟩) τ tX
      · have hput : tX ∈ (cfg.state.mem.tickets.put (fw.apply τ t)).rows :=
          Table.mem_put.mpr (.inr ⟨htX, fun hc => hid (hc.trans (apply_id τ t fw))⟩)
        exact ⟨tX, hmem ▸ hput, rfl, hled.same hdues rfl hch⟩

theorem ledger_append (h : Ledger tasks v X f cfg) {x : Change} {row : History}
    (hdue : dueOf cfg i = some x) (hrow : row.ticketID = x.ticketID ∧ row.field = x.field ∧
      row.oldValue = x.oldValue ∧ row.newValue = x.newValue)
    (hmem : o.2.mem = { cfg.state.mem with history := cfg.state.mem.history ++ [row] })
    (hnext : ∀ s : Trail, (s.next e o.1).due = none) : Ledger tasks v X f (cfg.answered i e k o) := by
  have hself : dueOf (cfg.answered i e k o) i = none := by rw [dueOf_self, hnext]
  have hrows : o.2.mem.tickets.rows = cfg.state.mem.tickets.rows := by rw [hmem]
  refine ⟨fun j y hy => ?_, ?_⟩
  · by_cases hj : j = i
    · subst hj
      rw [hself] at hy
      cases hy
    · obtain ⟨t, ht, hten, hid⟩ := h.kept j y (dueOf_other hj ▸ hy)
      exact ⟨t, hrows ▸ ht, hten, hid⟩
  · obtain ⟨t, ht, hid, hled⟩ := h.led
    refine ⟨t, hrows ▸ ht, hid, ?_⟩
    by_cases hhit : x.ticketID = X ∧ x.field = f
    · have howes : Owes cfg i X f := ⟨x, hdue, hhit⟩
      cases hled with
      | settled hnone _ => exact absurd howes (hnone i)
      | owed j y hy hyid hfld hnew hne hothers hchain =>
        obtain rfl : i = j := by_contra fun hj => hothers i hj howes
        obtain rfl := Option.some.inj (hdue.symm.trans hy)
        refine .settled (fun j' => ?_) ?_
        · by_cases hj' : j' = i
          · subst hj'
            rintro ⟨z, hz, -⟩
            rw [hself] at hz
            cases hz
          · exact (owes_other hj').not.mpr (hothers j' hj')
        · change Chain v (changes o.2.mem X f) _
          rw [hmem, changes_append, if_pos ⟨hrow.1.trans hyid, hrow.2.1.trans hfld⟩, hrow.2.2.1,
            hrow.2.2.2, ← hnew]
          exact hchain.snoc hne
    · refine hled.same (fun j y hyid hfld => ?_) rfl ?_
      · by_cases hj : j = i
        · subst hj
          refine iff_of_false (by simp [hself]) fun hy => hhit ?_
          obtain rfl := Option.some.inj (hdue.symm.trans hy)
          exact ⟨hyid, hfld⟩
        · rw [dueOf_other hj]
      · rw [hmem, changes_append, if_neg fun hc => hhit ⟨hrow.1.symm.trans hc.1, hrow.2.1.symm.trans hc.2⟩,
          List.append_nil]

theorem ledger_answered [GoLibrary] {c : Choice} (h : Ledger tasks v X f cfg) (hc : Unraced cfg i c)
    (hp : (cfg.threads i).prog = .call e k)
    (hrule : ChangeRule (tasks i).subj.tenantID (cfg.threads i).log e) :
    Answered e (step c e cfg.state).1 ∧ Ledger tasks v X f (cfg.answered i e k (step c e cfg.state)) := by
  have hhonest := honest_step (F := fun _ => True) (c := c) trivial e cfg.state
  have hsame : ∀ {o : Answer e × World}, (∀ s : Trail, (s.next e o.1).due = s.due) →
      ∀ j, dueOf (cfg.answered i e k o) j = dueOf cfg j := by
    intro o hnext j
    by_cases hj : j = i
    · subst hj
      rw [dueOf_self, hnext, dueOf]
    · exact dueOf_other hj
  rcases hrule.cases with hq | ⟨fw, id, hw⟩ | ⟨x, rfl, hten⟩
  · refine ⟨⟨hhonest, taken_quiet hq _⟩, ledger_quiet h (sameCores_step hq c cfg.state) (hsame fun s => ?_)⟩
    exact Trail.next_quiet hq s _
  · obtain ⟨hfresh, hothers⟩ := hc.2 (fw, _, id) (by rw [hp, nextWrite, hw]; rfl)
    obtain ⟨hdue, before, hread, -, -⟩ := hrule.write fw _ id hw
    obtain ⟨htaken, ⟨hst, hnext⟩ | ⟨t, ht, τ, hten, rfl, hmem, hnext⟩⟩ :=
      step_write (w := cfg.state) hc.1 hw
    · refine ⟨⟨hhonest, htaken⟩, ledger_quiet h ?_ (hsame fun s => by rw [hnext])⟩
      rw [hst]
      exact .refl _
    · exact ⟨⟨hhonest, htaken⟩, ledger_write h ht hten hmem hnext hdue hread
        (hfresh before hread t ht rfl) hothers⟩
  · have hdue := hrule.append x rfl
    obtain ⟨t, ht, htten, htid⟩ := h.kept i _ hdue
    obtain ⟨htaken, hnext, hmem⟩ := step_append hc.1 ht (htten.trans hten.symm) htid
    refine ⟨⟨hhonest, htaken⟩, ledger_append h hdue ?_ hmem hnext⟩
    exact ⟨rfl, rfl, rfl, rfl⟩

/-- Once all changes have returned, the history of a field that led to its value at the start leads
to its value now, in every run without races. -/
theorem history_chained_when_unraced [GoLibrary] (d : Deps) (w : World)
    (h : Reaches step Unraced (Config.start w fun i => (tasks i).act d) cfg)
    (hdone : cfg.Done) {t₀ : Ticket} (ht₀ : t₀ ∈ w.mem.tickets.rows)
    (hchain : Chain v (changes w.mem t₀.id f) (f.valueOf t₀)) :
    ∃ t ∈ cfg.state.mem.tickets.rows, t.id = t₀.id ∧ Chain v (changes cfg.state.mem t₀.id f)
      (f.valueOf t) := by
  have hstart : Ledger tasks v t₀.id f (Config.start w fun i => (tasks i).act d) := by
    refine ⟨fun i x hx => (nomatch hx), t₀, ht₀, rfl, .settled (fun j => ?_) hchain⟩
    rintro ⟨x, hx, -⟩
    cases hx
  have hobeys : ∀ i, Obeys Answered (ChangeRule (tasks i).subj.tenantID)
      (fun l _ => (trail l).due = none) []
      ((tasks i).act d) :=
    fun i => Obeys.bind (((tasks i).op.obeys d (tasks i).subj (tasks i).id).mono fun l _ hl => hl)
  obtain ⟨hledger, hend⟩ := h.guarded hstart hobeys fun cfg i c e k hI hc hp hrule =>
    ledger_answered hI hc hp hrule
  obtain ⟨t, ht, hid, hled⟩ := hledger.led
  refine ⟨t, ht, hid, ?_⟩
  cases hled with
  | settled _ hchain => exact hchain
  | owed i x hx =>
    obtain ⟨a, ha⟩ := hdone i
    have hdue := hend i
    rw [ha] at hdue
    exact nomatch (show none = some x from Eq.trans hdue.symm hx)

end Interleaved

def statusRace (i : Bool) : ChangeTask :=
  ⟨⟨"t", "u", [], .agent⟩, "n", .setStatusAs (if i then .resolved else .inProgress) .agent⟩

def statusRaceSchedule : List (Bool × Choice) :=
  (List.replicate 2 false ++ List.replicate 9 true ++ List.replicate 7 false).map fun i =>
    (i, { newID := "h" })

def afterStatusRace [GoLibrary] : Config Bool Call Answer Unit World :=
  (Config.start oneTicket fun i => (statusRace i).act {}).schedule step statusRaceSchedule

/-- Both agents have read `open`, so both rows of the history start there. -/
theorem statusRace_breaks_chain :
    letI := asciiLibrary
    ∃ cfg : Config Bool Call Answer Unit World,
      Reaches step (fun _ _ c => FaultFree c) (Config.start oneTicket fun i =>
        (statusRace i).act {}) cfg ∧ cfg.Done ∧
        changes oneTicket.mem "n" .status = [] ∧
        changes cfg.state.mem "n" .status = [(Status.open.text, Status.resolved.text),
          (Status.open.text, Status.inProgress.text)] ∧
        ¬ ∃ t ∈ cfg.state.mem.tickets.rows, t.id = goString "n" ∧
          Chain Status.open.text (changes cfg.state.mem "n" .status) (Field.status.valueOf t) := by
  let := asciiLibrary
  have hdone : ∀ i, (afterStatusRace.threads i).prog.result? = some () := by decide +kernel
  refine ⟨afterStatusRace, Reaches.refl.schedule _ (Config.along_of_mem (fun cfg p hp => ?_) _),
    fun i => ⟨(), Prog.eq_ret_of_result? (hdone i)⟩, rfl, by decide +kernel, by decide +kernel⟩
  obtain ⟨i, -, rfl⟩ := List.mem_map.mp hp
  rfl

/-- The second agent's change as a whole after the history row of the first, which has its events
and its view still to make. -/
def inTurn : List (Bool × Choice) :=
  (List.replicate 6 false ++ List.replicate 9 true ++ List.replicate 3 false).map fun i =>
    (i, { newID := "h" })

def afterTurns [GoLibrary] : Config Bool Call Answer Unit World :=
  (Config.start oneTicket fun i => (statusRace i).act {}).schedule step inTurn

theorem reaches_afterTurns [GoLibrary]
    (h : (Config.start oneTicket fun i => (statusRace i).act {}).Along step
      (fun cfg i _ => Fresh cfg i) inTurn) :
    Reaches step Unraced (Config.start oneTicket fun i => (statusRace i).act {}) afterTurns := by
  refine Reaches.refl.schedule _ (.and (Config.along_of_mem (fun cfg p hp => ?_) _) h)
  obtain ⟨i, -, rfl⟩ := List.mem_map.mp hp
  rfl

theorem history_chained_in_turn :
    letI := asciiLibrary
    changes afterTurns.state.mem "n" .status =
        [(Status.open.text, Status.inProgress.text), (Status.inProgress.text, Status.resolved.text)] ∧
      ∃ t ∈ afterTurns.state.mem.tickets.rows, t.id = goString "n" ∧
        Chain Status.open.text (changes afterTurns.state.mem "n" .status) (Field.status.valueOf t) := by
  -- the library is named at each place: with a local instance for it, unification would run the programs
  have hdone : ∀ i, ((@afterTurns asciiLibrary).threads i).prog.result? = some () := by decide +kernel
  have hreach := @reaches_afterTurns asciiLibrary (by decide +kernel)
  have ht : (⟨"n", "t", [], [], [], .open, .unset, .unset, [], [], [], [], [], [], [], 0, [], [], 0, 0,
      none⟩ : Ticket) ∈ oneTicket.mem.tickets.rows := by decide +kernel
  have hall : (@afterTurns asciiLibrary).Done := fun i => ⟨(), Prog.eq_ret_of_result? (hdone i)⟩
  exact ⟨by decide +kernel, @history_chained_when_unraced _ _ _ _ _ _ asciiLibrary {} oneTicket hreach
    hall _ ht rfl⟩

end TangraTicket.Services
