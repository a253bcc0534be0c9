import Mathlib.Logic.Relation

/-!
Transitions that settle something: afterwards a condition holds, and where it held before nothing
changes. Two such transitions in a row are one, provided the second keeps what the first one
settled; and a transition that is made again changes nothing.
-/

namespace TangraTicket

variable {σ : Type} {C C' : σ → Prop} {K K' : σ → σ → Prop}

structure Settles (C : σ → Prop) (K : σ → σ → Prop) : Prop where
  settled : ∀ {s s'}, K s s' → C s'
  same : ∀ {s s'}, K s s' → C s → s' = s

theorem Settles.comp (h : Settles C K) (h' : Settles C' K') (hkeep : ∀ {s s'}, K' s s' → C s → C s') :
    Settles (fun s => C s ∧ C' s) (Relation.Comp K K') where
  settled := by
    rintro s s' ⟨u, hu, hs'⟩
    exact ⟨hkeep hs' (h.settled hu), h'.settled hs'⟩
  same := by
    rintro s s' ⟨u, hu, hs'⟩ ⟨hc, hc'⟩
    obtain rfl := h.same hu hc
    exact h'.same hs' hc'

theorem Settles.again (h : Settles C K) {s s' s'' : σ} (hfirst : K s s') (hsecond : K s' s'') : s'' = s' :=
  h.same hsecond (h.settled hfirst)

end TangraTicket
