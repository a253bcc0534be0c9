import Mathlib.Data.List.Basic

/-!
Recorded changes of a value, as pairs of the old and the new value, oldest first.
-/

namespace TangraTicket.ValueChain

variable {α : Type}

/-- Starting from `v`, each change starts where the last one ended, changes something, and the last
ends in `w`. -/
def Chain (v : α) : List (α × α) → α → Prop
  | [], w => v = w
  | (o, n) :: rest, w => o = v ∧ o ≠ n ∧ Chain n rest w

instance decidableChain [DecidableEq α] : (v : α) → (l : List (α × α)) → (w : α) → Decidable (Chain v l w)
  | v, [], w => inferInstanceAs (Decidable (v = w))
  | v, (o, n) :: rest, w =>
    have := decidableChain n rest w
    inferInstanceAs (Decidable (o = v ∧ o ≠ n ∧ Chain n rest w))

theorem chain_append {v w : α} {l l' : List (α × α)} :
    Chain v (l ++ l') w ↔ ∃ u, Chain v l u ∧ Chain u l' w := by
  induction l generalizing v with
  | nil => simp [Chain]
  | cons p rest ih =>
    obtain ⟨o, n⟩ := p
    simp only [List.cons_append, Chain, ih]
    constructor
    · rintro ⟨ho, hne, u, hu, hw⟩
      exact ⟨u, ⟨ho, hne, hu⟩, hw⟩
    · rintro ⟨u, ⟨ho, hne, hu⟩, hw⟩
      exact ⟨ho, hne, u, hu, hw⟩

theorem Chain.snoc {v o n : α} {l : List (α × α)} (h : Chain v l o) (hne : o ≠ n) :
    Chain v (l ++ [(o, n)]) n :=
  chain_append.mpr ⟨o, h, rfl, hne, rfl⟩

end TangraTicket.ValueChain
