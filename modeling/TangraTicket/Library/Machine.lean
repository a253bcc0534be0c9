import Mathlib.Data.List.Basic

/-!
State machines whose actions may be disabled. A run is any sequence of enabled actions.
-/

namespace TangraTicket.Machine

variable {σ ε : Type} {next : σ → ε → Option σ} {C C' : σ → ε → Prop} {s₀ s : σ}

/-- The states reached from `s₀` by enabled actions that all meet `C`. -/
inductive Reach (next : σ → ε → Option σ) (C : σ → ε → Prop) (s₀ : σ) : σ → Prop
  | refl : Reach next C s₀ s₀
  | step {s s' : σ} {a : ε} (h : Reach next C s₀ s) (hc : C s a)
      (hn : next s a = some s') : Reach next C s₀ s'

theorem Reach.invariant {I : σ → Prop} (h : Reach next C s₀ s) (h0 : I s₀)
    (hstep : ∀ s a s', I s → C s a → next s a = some s' → I s') : I s := by
  induction h with
  | refl => exact h0
  | step h hc hn ih => exact hstep _ _ _ ih hc hn

theorem Reach.trans {t : σ} (h : Reach next C s₀ s) (ht : Reach next C s t) : Reach next C s₀ t := by
  induction ht with
  | refl => exact h
  | step _ hc hn ih => exact ih.step hc hn

def perform (next : σ → ε → Option σ) (c : σ → ε → Bool) : σ → List ε → Option σ
  | s, [] => some s
  | s, a :: as => if c s a then (next s a).bind fun s' => perform next c s' as else none

theorem Reach.perform {c : σ → ε → Bool} {s' : σ} (hc : ∀ s a, c s a = true → C s a) (h : Reach next C s₀ s)
    (as : List ε) (hp : perform next c s as = some s') : Reach next C s₀ s' := by
  induction as generalizing s with
  | nil =>
    obtain rfl := Option.some.inj hp
    exact h
  | cons a as ih =>
    simp only [Machine.perform] at hp
    split at hp
    · rename_i htest
      obtain ⟨t, ht, hrest⟩ := Option.bind_eq_some_iff.mp hp
      exact ih (h.step (hc s a htest) ht) hrest
    · cases hp

end TangraTicket.Machine
