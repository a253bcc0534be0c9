import Mathlib.Data.List.Basic

/-!
Programs that talk to their surroundings through calls. A call `e : E` is answered by a value of type
`R e`; who answers, and with what, is left to the interpretation. One weakest precondition `wp` serves every
reading of a call: as a demand on the calls made, as a run against a state, as an entry in a log.
-/

namespace TangraTicket.CallProgram

variable {E : Type} {R : E → Type} {α β σ χ ε ε' : Type}

inductive Prog (E : Type) (R : E → Type) (α : Type) : Type
  | ret (a : α) : Prog E R α
  | call (e : E) (k : R e → Prog E R α) : Prog E R α

/-- One answered call. -/
structure Event (E : Type) (R : E → Type) where
  call : E
  answer : R call

namespace Prog

def bind : Prog E R α → (α → Prog E R β) → Prog E R β
  | .ret a, f => f a
  | .call e k, f => .call e (fun r => (k r).bind f)

instance : Monad (Prog E R) where
  pure := .ret
  bind := .bind

/-- The call a program is about to make. -/
def pending : Prog E R α → Option E
  | .ret _ => none
  | .call e _ => some e

def result? : Prog E R α → Option α
  | .ret a => some a
  | .call .. => none

theorem eq_ret_of_result? {p : Prog E R α} {a : α} (h : p.result? = some a) : p = .ret a := by
  cases p with
  | ret b => exact congrArg Prog.ret (Option.some.inj h)
  | call e k => cases h

def perform (e : E) : Prog E R (R e) := .call e .ret

end Prog

abbrev Fallible (E : Type) (R : E → Type) (ε α : Type) := ExceptT ε (Prog E R) α

def Prog.orFail (p : Prog E R (Except ε α)) (g : ε → ε') : Fallible E R ε' α :=
  ExceptT.mk (p.bind fun r => .ret (r.mapError g))

theorem Prog.bind_assoc {γ : Type} (p : Prog E R α) (f : α → Prog E R β) (g : β → Prog E R γ) :
    (p.bind f).bind g = p.bind (fun a => (f a).bind g) := by
  induction p with
  | ret a => rfl
  | call e k ih => simp only [Prog.bind, ih]

instance : LawfulMonad (Prog E R) :=
  LawfulMonad.mk' (Prog E R)
    (fun p => by
      induction p with
      | ret a => rfl
      | call e k ih => exact congrArg (Prog.call e) (funext ih))
    (fun _ _ => rfl) Prog.bind_assoc

theorem run_bind (x : Fallible E R ε α) (f : α → Fallible E R ε β) :
    (x >>= f).run = x.run >>= fun r => match r with
      | .ok a => (f a).run
      | .error e => pure (.error e) := by
  refine congrArg (Prog.bind x) (funext fun r => ?_)
  cases r <;> rfl

theorem run_lift_bind (p : Prog E R α) (f : α → Fallible E R ε β) :
    (liftM p >>= f).run = p >>= fun a => (f a).run := Prog.bind_assoc p _ _

section Wp

variable {P : Type} (h : (e : E) → (R e → P) → P)

def wp : Prog E R α → (α → P) → P
  | .ret a, Q => Q a
  | .call e k, Q => h e (fun r => wp (k r) Q)

@[simp] theorem wp_ret (a : α) (Q : α → P) : wp h (.ret a : Prog E R α) Q = Q a := rfl

@[simp] theorem wp_call (e : E) (k : R e → Prog E R α) (Q : α → P) :
    wp h (.call e k) Q = h e (fun r => wp h (k r) Q) := rfl

@[simp] theorem wp_pure (a : α) (Q : α → P) : wp h (pure a : Prog E R α) Q = Q a := rfl

@[simp] theorem wp_perform (e : E) (Q : R e → P) : wp h (Prog.perform e : Prog E R (R e)) Q = h e Q := rfl

theorem wp_seq (p : Prog E R α) (f : α → Prog E R β) (Q : β → P) :
    wp h (p.bind f) Q = wp h p (fun a => wp h (f a) Q) := by
  induction p with
  | ret a => rfl
  | call e k ih => simp only [Prog.bind, wp_call, ih]

@[simp] theorem wp_bind (p : Prog E R α) (f : α → Prog E R β) (Q : β → P) :
    wp h (p >>= f) Q = wp h p (fun a => wp h (f a) Q) := wp_seq h p f Q

@[simp] theorem wp_orFail (p : Prog E R (Except ε α)) (g : ε → ε') (Q : Except ε' α → P) :
    wp h (p.orFail g).run Q = wp h p (fun r => Q (r.mapError g)) := wp_seq h p _ Q

@[simp] theorem wp_mk (p : Prog E R (Except ε α)) (Q : Except ε α → P) :
    wp h (ExceptT.mk p).run Q = wp h p Q := rfl

@[simp] theorem wp_lift (p : Prog E R α) (Q : Except ε α → P) :
    wp h (liftM p : Fallible E R ε α).run Q = wp h p (fun a => Q (.ok a)) := wp_seq h p _ Q

@[simp] theorem wp_tryPure (a : α) (Q : Except ε α → P) :
    wp h (pure a : Fallible E R ε α).run Q = Q (.ok a) := rfl

@[simp] theorem wp_throw (e : ε) (Q : Except ε α → P) :
    wp h (throw e : Fallible E R ε α).run Q = Q (.error e) := rfl

def onOk (f : α → Fallible E R ε β) (Q : Except ε β → P) : Except ε α → P
  | .ok a => wp h (f a).run Q
  | .error e => Q (.error e)

@[simp] theorem onOk_ok (f : α → Fallible E R ε β) (Q : Except ε β → P) (a : α) :
    onOk h f Q (.ok a) = wp h (f a).run Q := rfl

@[simp] theorem onOk_error (f : α → Fallible E R ε β) (Q : Except ε β → P) (e : ε) :
    onOk h f Q (.error e) = Q (.error e) := rfl

@[simp] theorem wp_tryBind (x : Fallible E R ε α) (f : α → Fallible E R ε β) (Q : Except ε β → P) :
    wp h (x >>= f).run Q = wp h x.run (onOk h f Q) := by
  refine (wp_seq h x _ Q).trans (congrArg (wp h x) (funext fun r => ?_))
  cases r <;> rfl

end Wp

/-- The result of a run: the value returned, the state left behind and the choices not consumed. -/
structure Outcome (α σ χ : Type) where
  value : α
  state : σ
  rest : ℕ → χ

section Running

variable (step : χ → (e : E) → σ → R e × σ)

/-- Answer every call in turn; the `n`-th call is answered under the `n`-th choice. -/
def run : Prog E R α → σ → (ℕ → χ) → Outcome α σ χ
  | .ret a, s, cs => ⟨a, s, cs⟩
  | .call e k, s, cs => run (k (step (cs 0) e s).1) (step (cs 0) e s).2 (fun n => cs (n + 1))

def answering (P : χ → E → σ → Prop) (e : E) (K : R e → σ → Prop) (s : σ) : Prop :=
  ∀ c, P c e s → K (step c e s).1 (step c e s).2

abbrev EnsuresWhen (P : χ → E → σ → Prop) (p : Prog E R α) (Q : α → σ → Prop) (s : σ) : Prop :=
  wp (answering step P) p Q s

abbrev Ensures (Ok : χ → Prop) (p : Prog E R α) (Q : α → σ → Prop) (s : σ) : Prop :=
  EnsuresWhen step (fun c _ _ => Ok c) p Q s

/-- Every choice of the run meets `P` at its call. -/
def Meets (P : χ → E → σ → Prop) : Prog E R α → σ → (ℕ → χ) → Prop
  | .ret _, _, _ => True
  | .call e k, s, cs => P (cs 0) e s ∧ Meets P (k (step (cs 0) e s).1) (step (cs 0) e s).2
      (fun n => cs (n + 1))

variable {step} {P : χ → E → σ → Prop} {Ok : χ → Prop}

theorem EnsuresWhen.mono {p : Prog E R α} {Q Q' : α → σ → Prop} {s : σ} (h : EnsuresWhen step P p Q s)
    (hQ : ∀ a s', Q a s' → Q' a s') : EnsuresWhen step P p Q' s := by
  induction p generalizing s with
  | ret a => exact hQ a s h
  | call e k ih => exact fun c hc => ih _ (h c hc)

theorem EnsuresWhen.restrict {P' : χ → E → σ → Prop} {p : Prog E R α} {Q : α → σ → Prop} {s : σ}
    (h : EnsuresWhen step P p Q s) (hP : ∀ c e s, P' c e s → P c e s) : EnsuresWhen step P' p Q s := by
  induction p generalizing s with
  | ret a => exact h
  | call e k ih => exact fun c hc => ih _ (h c (hP c e s hc))

theorem EnsuresWhen.bind {p : Prog E R β} {f : β → Prog E R α} {Q : α → σ → Prop} {s : σ}
    (hp : EnsuresWhen step P p (fun b s' => EnsuresWhen step P (f b) Q s') s) :
    EnsuresWhen step P (p >>= f) Q s :=
  (congrFun (wp_bind _ p f Q) s).mpr hp

theorem EnsuresWhen.lift {p : Prog E R β} {f : β → Fallible E R ε α} {Q : Except ε α → σ → Prop} {s : σ}
    (hp : EnsuresWhen step P p (fun b s' => EnsuresWhen step P (f b).run Q s') s) :
    EnsuresWhen step P (liftM p >>= f).run Q s :=
  (congrFun ((wp_tryBind _ _ f Q).trans (wp_lift _ p _)) s).mpr hp

theorem EnsuresWhen.andThen {x : Fallible E R ε β} {f : β → Fallible E R ε α} {Q : Except ε α → σ → Prop}
    {S : Except ε β → σ → Prop} {s : σ} (hx : EnsuresWhen step P x.run S s)
    (hok : ∀ b s', S (.ok b) s' → EnsuresWhen step P (f b).run Q s')
    (herr : ∀ e s', S (.error e) s' → Q (.error e) s') : EnsuresWhen step P (x >>= f).run Q s := by
  refine (congrFun (wp_tryBind _ x f Q) s).mpr (hx.mono ?_)
  rintro (e | b) s' hb
  · exact herr e s' hb
  · exact hok b s' hb

theorem EnsuresWhen.any (p : Prog E R α) (s : σ) : EnsuresWhen step P p (fun _ _ => True) s := by
  induction p generalizing s with
  | ret a => trivial
  | call e k ih => exact fun c _ => ih _ _

theorem EnsuresWhen.run {p : Prog E R α} {Q : α → σ → Prop} {s : σ}
    (h : EnsuresWhen step P p Q s) (cs : ℕ → χ) (hcs : Meets step P p s cs) :
    Q (run step p s cs).value (CallProgram.run step p s cs).state := by
  induction p generalizing s cs with
  | ret a => exact h
  | call e k ih => exact ih _ (h (cs 0) hcs.1) _ hcs.2

theorem meets_of_forall (p : Prog E R α) (s : σ) {cs : ℕ → χ} (h : ∀ n e s, P (cs n) e s) :
    Meets step P p s cs := by
  induction p generalizing s cs with
  | ret a => trivial
  | call e k ih => exact ⟨h 0 e s, ih _ _ fun n => h (n + 1)⟩

theorem Meets.and {P' : χ → E → σ → Prop} {p : Prog E R α} {s : σ} {cs : ℕ → χ} (h : Meets step P p s cs)
    (h' : Meets step P' p s cs) : Meets step (fun c e s => P c e s ∧ P' c e s) p s cs := by
  induction p generalizing s cs with
  | ret a => trivial
  | call e k ih => exact ⟨⟨h.1, h'.1⟩, ih _ h.2 h'.2⟩

instance decidableMeets [∀ c e s, Decidable (P c e s)] :
    (p : Prog E R α) → (s : σ) → (cs : ℕ → χ) → Decidable (Meets step P p s cs)
  | .ret _, _, _ => inferInstanceAs (Decidable True)
  | .call e k, s, cs =>
    have := decidableMeets (k (step (cs 0) e s).1) (step (cs 0) e s).2 (fun n => cs (n + 1))
    inferInstanceAs (Decidable (P (cs 0) e s ∧
      Meets step P (k (step (cs 0) e s).1) (step (cs 0) e s).2 (fun n => cs (n + 1))))

theorem Ensures.run {p : Prog E R α} {Q : α → σ → Prop} {s : σ} (h : Ensures step Ok p Q s)
    (cs : ℕ → χ) (hcs : ∀ n, Ok (cs n)) :
    Q (run step p s cs).value (CallProgram.run step p s cs).state :=
  EnsuresWhen.run h cs (meets_of_forall p s fun n _ _ => hcs n)

theorem run_call {e : E} {k : R e → Prog E R α} {s s' : σ} {r : R e} (cs : ℕ → χ)
    (h : step (cs 0) e s = (r, s')) :
    run step (.call e k) s cs = CallProgram.run step (k r) s' fun n => cs (n + 1) := by
  rw [CallProgram.run, h]

theorem run_seq (p : Prog E R α) (f : α → Prog E R β) (s : σ) (cs : ℕ → χ) :
    run step (p.bind f) s cs =
      run step (f (run step p s cs).value) (CallProgram.run step p s cs).state
        (CallProgram.run step p s cs).rest := by
  induction p generalizing s cs with
  | ret a => rfl
  | call e k ih => exact ih _ _ _

theorem run_tryBind (x : Fallible E R ε α) (f : α → Fallible E R ε β) (s : σ) (cs : ℕ → χ) :
    run step (x >>= f).run s cs =
      match (run step x.run s cs).value with
      | .ok a => CallProgram.run step (f a).run (CallProgram.run step x.run s cs).state
          (CallProgram.run step x.run s cs).rest
      | .error e =>
        ⟨.error e, (CallProgram.run step x.run s cs).state,
        (CallProgram.run step x.run s cs).rest⟩ := by
  rw [run_bind]
  refine (run_seq x.run _ s cs).trans ?_
  cases (CallProgram.run step x.run s cs).value <;> rfl

def trace (step : χ → (e : E) → σ → R e × σ) : Prog E R α → σ → (ℕ → χ) → List (Event E R)
  | .ret _, _, _ => []
  | .call e k, s, cs =>
    ⟨e, (step (cs 0) e s).1⟩ :: trace step (k (step (cs 0) e s).1) (step (cs 0) e s).2 (fun n => cs (n + 1))

def Ends (Q : α → σ → Prop) (K : ε → σ → Prop) : Except ε α → σ → Prop
  | .ok a, s => Q a s
  | .error e, s => K e s

theorem Ends.intro {Q : α → σ → Prop} {K : ε → σ → Prop} {x : Except ε α} {s : σ}
    (hok : ∀ a, x = .ok a → Q a s) (herr : ∀ e, x = .error e → K e s) : Ends Q K x s := by
  cases x with
  | ok a => exact hok a rfl
  | error e => exact herr e rfl

theorem EnsuresWhen.tryBind {x : Fallible E R ε β} {f : β → Fallible E R ε α} {Q : β → σ → Prop}
    {Q' : α → σ → Prop} {K : ε → σ → Prop} {s : σ} (hx : EnsuresWhen step P x.run (Ends Q K) s)
    (hf : ∀ b s', Q b s' → EnsuresWhen step P (f b).run (Ends Q' K) s') :
    EnsuresWhen step P (x >>= f).run (Ends Q' K) s := hx.andThen hf fun _ _ h => h

theorem EnsuresWhen.foldlM {f : α → β → Fallible E R ε α} {I : List β → α → σ → Prop}
    {K : ε → σ → Prop} {xs : List β} (hf : ∀ passed x rest a s, xs = passed ++ x :: rest → I passed a s →
      EnsuresWhen step P (f a x).run (Ends (I (passed ++ [x])) K) s) {a : α} {s : σ} (h : I [] a s) :
    EnsuresWhen step P (xs.foldlM f a).run (Ends (I xs) K) s := by
  suffices hgo : ∀ passed rest a s, xs = passed ++ rest → I passed a s →
      EnsuresWhen step P (rest.foldlM f a).run (Ends (I xs) K) s from hgo [] xs a s rfl h
  intro passed rest
  induction rest generalizing passed with
  | nil =>
    intro a s hxs hI
    rw [List.append_nil] at hxs
    exact hxs ▸ hI
  | cons x rest ih =>
    intro a s hxs hI
    rw [List.foldlM_cons]
    refine (hf passed x rest a s hxs hI).tryBind fun a' s' hI' => ih (passed ++ [x]) a' s' ?_ hI'
    rw [hxs, List.append_assoc, List.singleton_append]

def ghosted {γ : Type} (step : χ → (e : E) → σ → R e × σ) (g : σ → σ → γ → γ) (c : χ) (e : E) (s : σ × γ) :
    R e × (σ × γ) := ((step c e s.1).1, (step c e s.1).2, g s.1 (step c e s.1).2 s.2)

theorem run_ghosted {γ : Type} (g : σ → σ → γ → γ) (p : Prog E R α) (s : σ × γ) (cs : ℕ → χ) :
    (run (ghosted step g) p s cs).state.1 = (CallProgram.run step p s.1 cs).state := by
  induction p generalizing s cs with
  | ret a => rfl
  | call e k ih => exact ih _ _ _

end Running

def permitted (A : (e : E) → R e → Prop) (G : E → Prop) (e : E) (K : R e → Prop) : Prop :=
  G e ∧ ∀ r, A e r → K r

abbrev Issues (A : (e : E) → R e → Prop) (G : E → Prop) (p : Prog E R α) (Q : α → Prop) : Prop :=
  wp (permitted A G) p Q

section Issues

variable {A : (e : E) → R e → Prop} {G G' : E → Prop} {Q Q' : α → Prop}

theorem Issues.mono {p : Prog E R α} (h : Issues A G p Q) (hQ : ∀ a, Q a → Q' a) : Issues A G p Q' := by
  induction p with
  | ret a => exact hQ a h
  | call e k ih => exact ⟨h.1, fun r hr => ih r (h.2 r hr)⟩

theorem Issues.weaken {p : Prog E R α} (h : Issues A G p Q) (hG : ∀ e, G e → G' e) : Issues A G' p Q := by
  induction p with
  | ret a => exact h
  | call e k ih => exact ⟨hG e h.1, fun r hr => ih r (h.2 r hr)⟩

theorem Issues.bind {p : Prog E R β} {f : β → Prog E R α}
    (hp : Issues A G p (fun b => Issues A G (f b) Q)) :
    Issues A G (p >>= f) Q := (wp_bind _ p f Q).mpr hp

theorem Issues.lift {p : Prog E R β} {f : β → Fallible E R ε α} {Q : Except ε α → Prop}
    (hp : Issues A G p (fun b => Issues A G (f b).run Q)) : Issues A G (liftM p >>= f).run Q :=
  ((wp_tryBind _ _ f Q).trans (wp_lift _ p _)).mpr hp

theorem Issues.andThen {x : Fallible E R ε β} {f : β → Fallible E R ε α} {Q : Except ε α → Prop}
    {S : Except ε β → Prop} (hx : Issues A G x.run S) (hok : ∀ b, S (.ok b) → Issues A G (f b).run Q)
    (herr : ∀ e, Q (.error e)) : Issues A G (x >>= f).run Q := by
  refine (wp_tryBind _ x f Q).mpr (hx.mono ?_)
  rintro (e | b) hb
  · exact herr e
  · exact hok b hb

theorem Issues.foldlM {f : α → β → Fallible E R ε α} {xs : List β}
    (hf : ∀ a, ∀ x ∈ xs, Issues A G (f a x).run (fun _ => True)) (a : α) :
    Issues A G (xs.foldlM f a).run (fun _ => True) := by
  induction xs generalizing a with
  | nil => trivial
  | cons x xs ih =>
    rw [List.foldlM_cons]
    refine (hf a x List.mem_cons_self).andThen (fun a' _ => ?_) fun _ => trivial
    exact ih (fun a y hy => hf a y (List.mem_cons_of_mem x hy)) a'

theorem Issues.ensuresWhen {step : χ → (e : E) → σ → R e × σ} {P : χ → E → σ → Prop} {J : σ → Prop}
    (hstep : ∀ c e s, P c e s → G e → J s → J (step c e s).2 ∧ A e (step c e s).1)
    {p : Prog E R α} (hp : Issues A G p Q) {s : σ} (hs : J s) :
    EnsuresWhen step P p (fun a s' => Q a ∧ J s') s := by
  induction p generalizing s with
  | ret a => exact ⟨hp, hs⟩
  | call e k ih =>
    intro c hc
    obtain ⟨hJ, hA⟩ := hstep c e s hc hp.1 hs
    exact ih _ (hp.2 _ hA) hJ

theorem Issues.ensures {step : χ → (e : E) → σ → R e × σ} {Ok : χ → Prop} {J : σ → Prop}
    (hstep : ∀ c e s, Ok c → G e → J s → J (step c e s).2 ∧ A e (step c e s).1)
    {p : Prog E R α} (hp : Issues A G p Q) {s : σ} (hs : J s) :
    Ensures step Ok p (fun a s' => Q a ∧ J s') s := hp.ensuresWhen hstep hs

theorem Issues.lockstep {step : χ → (e : E) → σ → R e × σ} {Ok : χ → Prop} {Rel : σ → σ → Prop}
    (hstep : ∀ c e s₁ s₂, Ok c → G e → Rel s₁ s₂ → A e (step c e s₁).1 ∧ (step c e s₂).1 = (step c e s₁).1 ∧
      Rel (step c e s₁).2 (step c e s₂).2)
    {p : Prog E R α} (hp : Issues A G p Q) {s₁ s₂ : σ} (hs : Rel s₁ s₂) (cs : ℕ → χ)
    (hcs : ∀ n, Ok (cs n)) :
    (run step p s₂ cs).value = (run step p s₁ cs).value ∧
      Rel (run step p s₁ cs).state (run step p s₂ cs).state := by
  induction p generalizing s₁ s₂ cs with
  | ret a => exact ⟨rfl, hs⟩
  | call e k ih =>
    obtain ⟨hA, hans, hrel⟩ := hstep (cs 0) e s₁ s₂ (hcs 0) hp.1 hs
    rw [run, run, hans]
    exact ih _ (hp.2 _ hA) hrel _ fun n => hcs (n + 1)

end Issues

def logged (A : (e : E) → R e → Prop) (Φ : List (Event E R) → E → Prop) (e : E)
    (K : R e → List (Event E R) → Prop) (log : List (Event E R)) : Prop :=
  Φ log e ∧ ∀ r, A e r → K r (log ++ [⟨e, r⟩])

abbrev Obeys (A : (e : E) → R e → Prop) (Φ : List (Event E R) → E → Prop) (Ψ : List (Event E R) → α → Prop)
    (log : List (Event E R)) (p : Prog E R α) : Prop :=
  wp (logged A Φ) p (fun a log => Ψ log a) log

section Obeys

variable {A : (e : E) → R e → Prop} {Φ : List (Event E R) → E → Prop} {log : List (Event E R)}

theorem Obeys.mono {p : Prog E R α} {Ψ Ψ' : List (Event E R) → α → Prop} (h : Obeys A Φ Ψ log p)
    (hΨ : ∀ l a, Ψ l a → Ψ' l a) : Obeys A Φ Ψ' log p := by
  induction p generalizing log with
  | ret a => exact hΨ log a h
  | call e k ih => exact ⟨h.1, fun r hr => ih r (h.2 r hr)⟩

theorem Obeys.and {p : Prog E R α} {Φ' : List (Event E R) → E → Prop} {Ψ Ψ' : List (Event E R) → α → Prop}
    (h : Obeys A Φ Ψ log p) (h' : Obeys A Φ' Ψ' log p) :
    Obeys A (fun l e => Φ l e ∧ Φ' l e) (fun l a => Ψ l a ∧ Ψ' l a) log p := by
  induction p generalizing log with
  | ret a => exact ⟨h, h'⟩
  | call e k ih => exact ⟨⟨h.1, h'.1⟩, fun r hr => ih r (h.2 r hr) (h'.2 r hr)⟩

theorem Obeys.bind {p : Prog E R β} {f : β → Prog E R α} {Ψ : List (Event E R) → α → Prop}
    (hp : Obeys A Φ (fun l b => Obeys A Φ Ψ l (f b)) log p) : Obeys A Φ Ψ log (p >>= f) :=
  (congrFun (wp_bind _ p f _) log).mpr hp

theorem Obeys.lift {p : Prog E R β} {f : β → Fallible E R ε α} {Ψ : List (Event E R) → Except ε α → Prop}
    (hp : Obeys A Φ (fun l b => Obeys A Φ Ψ l (f b).run) log p) : Obeys A Φ Ψ log (liftM p >>= f).run :=
  (congrFun ((wp_tryBind _ _ f _).trans (wp_lift _ p _)) log).mpr hp

theorem Obeys.andThen {x : Fallible E R ε β} {f : β → Fallible E R ε α}
    {Ψ : List (Event E R) → Except ε α → Prop} {S : List (Event E R) → Except ε β → Prop}
    (hx : Obeys A Φ S log x.run) (hok : ∀ l b, S l (.ok b) → Obeys A Φ Ψ l (f b).run)
    (herr : ∀ l e, S l (.error e) → Ψ l (.error e)) :
    Obeys A Φ Ψ log (x >>= f).run := by
  refine (congrFun (wp_tryBind _ x f _) log).mpr (Obeys.mono (p := x.run) hx ?_)
  rintro l (e | b) hb
  · exact herr l e hb
  · exact hok l b hb

theorem Obeys.weaken {p : Prog E R α} {Φ' : List (Event E R) → E → Prop} {Ψ : List (Event E R) → α → Prop}
    (h : Obeys A Φ Ψ log p) (hΦ : ∀ l e, Φ l e → Φ' l e) : Obeys A Φ' Ψ log p := by
  induction p generalizing log with
  | ret a => exact h
  | call e k ih => exact ⟨hΦ log e h.1, fun r hr => ih r (h.2 r hr)⟩

theorem Obeys.any (p : Prog E R α) (log : List (Event E R)) :
    Obeys A (fun _ _ => True) (fun _ _ => True) log p := by
  induction p generalizing log with
  | ret a => trivial
  | call e k ih => exact ⟨trivial, fun r _ => ih r _⟩

theorem Issues.obeys {G : E → Prop} {p : Prog E R α} {Q : α → Prop} (hp : Issues A G p Q)
    (hG : ∀ l e, (∀ x ∈ l, G x.call) → G e → Φ (log ++ l) e) :
    Obeys A Φ (fun l a => Q a ∧ ∃ l', l = log ++ l' ∧ ∀ x ∈ l', G x.call) log p := by
  induction p generalizing log with
  | ret a => exact ⟨hp, [], (List.append_nil log).symm, fun x hx => absurd hx List.not_mem_nil⟩
  | call e k ih =>
    have hnil := hG [] e (fun x hx => absurd hx List.not_mem_nil) hp.1
    rw [List.append_nil] at hnil
    refine ⟨hnil, fun r hr => ?_⟩
    have hcons : ∀ l, (∀ x ∈ l, G x.call) → ∀ x ∈ (⟨e, r⟩ : Event E R) :: l, G x.call :=
      fun l hl => List.forall_mem_cons.mpr ⟨hp.1, hl⟩
    refine Obeys.mono (p := k r) (ih r (hp.2 r hr) fun l e' hl he' => ?_) ?_
    · simpa only [List.append_assoc, List.cons_append, List.nil_append] using hG _ e' (hcons l hl) he'
    · rintro _ a ⟨ha, l', rfl, hl'⟩
      refine ⟨ha, ⟨e, r⟩ :: l', ?_, hcons l' hl'⟩
      simp only [List.append_assoc, List.cons_append, List.nil_append]

end Obeys

end TangraTicket.CallProgram
