import TangraTicket.Library.CallProgram

/-!
Any number of programs running against one shared state. A scheduler picks a thread and the choice
under which its next call is answered; a call is atomic, and nothing is assumed about the order of
the threads.
-/

namespace TangraTicket.CallProgram

variable {E : Type} {R : E → Type} {ι α σ χ : Type}

structure Thread (E : Type) (R : E → Type) (α : Type) where
  log : List (Event E R)
  prog : Prog E R α

structure Config (ι : Type) (E : Type) (R : E → Type) (α σ : Type) where
  state : σ
  threads : ι → Thread E R α

namespace Config

def start (s : σ) (p : ι → Prog E R α) : Config ι E R α σ := ⟨s, fun i => ⟨[], p i⟩⟩

def Done (cfg : Config ι E R α σ) : Prop := ∀ i, ∃ a, (cfg.threads i).prog = .ret a

section Step

variable [DecidableEq ι] (step : χ → (e : E) → σ → R e × σ)

def answered (cfg : Config ι E R α σ) (i : ι) (e : E) (k : R e → Prog E R α) (o : R e × σ) :
    Config ι E R α σ :=
  ⟨o.2, Function.update cfg.threads i ⟨(cfg.threads i).log ++ [⟨e, o.1⟩], k o.1⟩⟩

theorem log_answered (cfg : Config ι E R α σ) (i j : ι) (e : E) (k : R e → Prog E R α) (o : R e × σ) :
    ((cfg.answered i e k o).threads j).log = (cfg.threads j).log ++ if j = i then [⟨e, o.1⟩] else [] := by
  by_cases hj : j = i
  · subst hj
    simp [Config.answered]
  · simp [Config.answered, hj]

/-- One scheduling decision; a thread that has returned does nothing. -/
def next (cfg : Config ι E R α σ) (i : ι) (c : χ) : Config ι E R α σ :=
  match (cfg.threads i).prog with
  | .ret _ => cfg
  | .call e k => cfg.answered i e k (step c e cfg.state)

def Along (C : Config ι E R α σ → ι → χ → Prop) : Config ι E R α σ → List (ι × χ) → Prop
  | _, [] => True
  | cfg, p :: picks => C cfg p.1 p.2 ∧ Along C (cfg.next step p.1 p.2) picks

instance decidableAlong (C : Config ι E R α σ → ι → χ → Prop) [∀ cfg i c, Decidable (C cfg i c)] :
    (cfg : Config ι E R α σ) → (picks : List (ι × χ)) → Decidable (Along step C cfg picks)
  | _, [] => isTrue trivial
  | cfg, p :: picks =>
    have := decidableAlong C (cfg.next step p.1 p.2) picks
    inferInstanceAs (Decidable (C cfg p.1 p.2 ∧ Along step C (cfg.next step p.1 p.2) picks))

def schedule (cfg : Config ι E R α σ) (picks : List (ι × χ)) : Config ι E R α σ :=
  picks.foldl (fun cfg p => cfg.next step p.1 p.2) cfg

end Step

end Config

/-- The configurations reached by scheduling decisions that all meet `C`. -/
inductive Reaches [DecidableEq ι] (step : χ → (e : E) → σ → R e × σ)
    (C : Config ι E R α σ → ι → χ → Prop) (cfg₀ : Config ι E R α σ) : Config ι E R α σ → Prop
  | refl : Reaches step C cfg₀ cfg₀
  | next {cfg : Config ι E R α σ} {i : ι} {c : χ} (h : Reaches step C cfg₀ cfg) (hc : C cfg i c) :
      Reaches step C cfg₀ (cfg.next step i c)

section Reaches

variable [DecidableEq ι] {step : χ → (e : E) → σ → R e × σ} {C : Config ι E R α σ → ι → χ → Prop}
  {cfg₀ cfg : Config ι E R α σ}

theorem Reaches.mono {C' : Config ι E R α σ → ι → χ → Prop} (h : Reaches step C cfg₀ cfg)
    (hC : ∀ cfg i c, C cfg i c → C' cfg i c) : Reaches step C' cfg₀ cfg := by
  induction h with
  | refl => exact .refl
  | next h hc ih => exact ih.next (hC _ _ _ hc)

theorem Reaches.schedule (h : Reaches step C cfg₀ cfg) (picks : List (ι × χ))
    (hC : cfg.Along step C picks) :
    Reaches step C cfg₀ (cfg.schedule step picks) := by
  induction picks generalizing cfg with
  | nil => exact h
  | cons p picks ih => exact ih (h.next hC.1) hC.2

theorem Config.along_of_mem {picks : List (ι × χ)} (hC : ∀ cfg, ∀ p ∈ picks, C cfg p.1 p.2)
    (cfg : Config ι E R α σ) : cfg.Along step C picks := by
  induction picks generalizing cfg with
  | nil => trivial
  | cons p picks ih =>
    exact ⟨hC cfg p List.mem_cons_self, ih (fun cfg q hq => hC cfg q (List.mem_cons_of_mem p hq)) _⟩

theorem Config.Along.and {C' : Config ι E R α σ → ι → χ → Prop} {picks : List (ι × χ)}
    {cfg : Config ι E R α σ} (h : cfg.Along step C picks) (h' : cfg.Along step C' picks) :
    cfg.Along step (fun cfg i c => C cfg i c ∧ C' cfg i c) picks := by
  induction picks generalizing cfg with
  | nil => trivial
  | cons p picks ih => exact ⟨⟨h.1, h'.1⟩, ih h.2 h'.2⟩

theorem Reaches.invariant {I : Config ι E R α σ → Prop} (h : Reaches step C cfg₀ cfg) (h0 : I cfg₀)
    (hcall : ∀ cfg i c e k, I cfg → C cfg i c → (cfg.threads i).prog = .call e k →
      I (cfg.answered i e k (step c e cfg.state))) : I cfg := by
  induction h with
  | refl => exact h0
  | @next cfg i c h hc ih =>
    unfold Config.next
    cases hp : (cfg.threads i).prog with
    | ret a => exact ih
    | call e k => exact hcall cfg i c e k ih hc hp

theorem Reaches.guarded {A : (e : E) → R e → Prop} {Φ : ι → List (Event E R) → E → Prop}
    {Ψ : ι → List (Event E R) → α → Prop} {I : Config ι E R α σ → Prop}
    (h : Reaches step C cfg₀ cfg) (h0 : I cfg₀)
    (hobeys : ∀ i, Obeys A (Φ i) (Ψ i) (cfg₀.threads i).log (cfg₀.threads i).prog)
    (hcall : ∀ cfg i c e k, I cfg → C cfg i c → (cfg.threads i).prog = .call e k →
      Φ i (cfg.threads i).log e →
      A e (step c e cfg.state).1 ∧ I (cfg.answered i e k (step c e cfg.state))) :
    I cfg ∧ ∀ i, Obeys A (Φ i) (Ψ i) (cfg.threads i).log (cfg.threads i).prog := by
  refine h.invariant (I := fun cfg => I cfg ∧ ∀ i, Obeys A (Φ i) (Ψ i) (cfg.threads i).log
    (cfg.threads i).prog)
    ⟨h0, hobeys⟩ ?_
  rintro cfg i c e k ⟨hI, ih⟩ hc hp
  have hi := ih i
  rw [hp] at hi
  obtain ⟨hA, hI'⟩ := hcall cfg i c e k hI hc hp hi.1
  refine ⟨hI', fun j => ?_⟩
  by_cases hj : j = i
  · subst hj
    simpa [Config.answered] using hi.2 _ hA
  · simpa [Config.answered, hj] using ih j

end Reaches

end TangraTicket.CallProgram
