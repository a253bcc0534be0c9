import Mathlib.Data.Multiset.Filter
import Mathlib.Data.Multiset.UnionInter

/-!
Keys held by parties, each by exactly one of them, and the three things that can happen to a key: a
party gains a new one, gives one up, or hands some over to another party.
-/

namespace TangraTicket

variable {κ π : Type}

structure KeyPartition (keys : κ → Prop) (owns : π → Multiset κ) : Prop where
  nodup : ∀ p, (owns p).Nodup
  apart : ∀ p q k, k ∈ owns p → k ∈ owns q → p = q
  cover : ∀ k, keys k ↔ ∃ p, k ∈ owns p

namespace KeyPartition

variable {keys keys' : κ → Prop} {owns : π → Multiset κ}

theorem congr (h : KeyPartition keys owns) (hkeys : ∀ k, keys' k ↔ keys k) : KeyPartition keys' owns :=
  ⟨h.nodup, h.apart, fun k => (hkeys k).trans (h.cover k)⟩

variable [DecidableEq π]

theorem gain (h : KeyPartition keys owns) {k : κ} (hk : ¬ keys k) (p : π) :
    KeyPartition (fun x => x = k ∨ keys x) (Function.update owns p (k ::ₘ owns p)) := by
  have hnone : ∀ q, k ∉ owns q := fun q hq => hk ((h.cover k).mpr ⟨q, hq⟩)
  have hmem : ∀ q x, x ∈ Function.update owns p (k ::ₘ owns p) q ↔ (q = p ∧ x = k) ∨ x ∈ owns q := by
    intro q x
    by_cases hq : q = p
    · subst hq
      simp
    · simp [hq]
  refine ⟨fun q => ?_, fun q q' x hx hx' => ?_, fun x => ?_⟩
  · by_cases hq : q = p
    · subst hq
      simpa using ⟨hnone q, h.nodup q⟩
    · simpa [hq] using h.nodup q
  · rcases (hmem q x).mp hx with ⟨rfl, rfl⟩ | hq
    · rcases (hmem q' x).mp hx' with ⟨rfl, -⟩ | hq'
      · rfl
      · exact absurd hq' (hnone q')
    · rcases (hmem q' x).mp hx' with ⟨rfl, rfl⟩ | hq'
      · exact absurd hq (hnone q)
      · exact h.apart q q' x hq hq'
  · simp only [hmem, h.cover x, exists_or, exists_eq_left]

theorem drop [DecidableEq κ] (h : KeyPartition keys owns) {k : κ} {p : π} (hk : k ∈ owns p) :
    KeyPartition (fun x => x ≠ k ∧ keys x) (Function.update owns p ((owns p).erase k)) := by
  have hmem : ∀ q x, x ∈ Function.update owns p ((owns p).erase k) q ↔ x ≠ k ∧ x ∈ owns q := by
    intro q x
    by_cases hq : q = p
    · subst hq
      simp [(h.nodup q).mem_erase_iff]
    · have hne : x ∈ owns q → x ≠ k := by
        rintro hx rfl
        exact hq (h.apart q p x hx hk)
      simpa [hq] using hne
  refine ⟨fun q => ?_, fun q q' x hx hx' => ?_, fun x => ?_⟩
  · by_cases hq : q = p
    · subst hq
      simpa using (h.nodup q).erase k
    · simpa [hq] using h.nodup q
  · exact h.apart q q' x ((hmem q x).mp hx).2 ((hmem q' x).mp hx').2
  · simp only [hmem, h.cover x, exists_and_left]

theorem handOver (h : KeyPartition keys owns) {p q : π} (hpq : p ≠ q) {ks rest : Multiset κ}
    (hp : owns p = ks + rest) :
    KeyPartition keys (Function.update (Function.update owns p rest) q (ks + owns q)) := by
  have hnodup := h.nodup p
  rw [hp, Multiset.nodup_add] at hnodup
  obtain ⟨hks, hrest, hdisjoint⟩ := hnodup
  have hapart : ∀ x ∈ ks, x ∉ owns q := fun x hx hxq =>
    hpq (h.apart p q x (by rw [hp]; exact Multiset.mem_add.mpr (.inl hx)) hxq)
  have hmem : ∀ r x, x ∈ Function.update (Function.update owns p rest) q (ks + owns q) r ↔
      (r = q ∧ x ∈ ks) ∨ (x ∈ owns r ∧ x ∉ ks) := by
    intro r x
    by_cases hrq : r = q
    · subst hrq
      simp only [Function.update_self, Multiset.mem_add, true_and]
      tauto
    · by_cases hrp : r = p
      · subst hrp
        have hnot : x ∈ rest → x ∉ ks := fun hx hxk => Multiset.disjoint_left.mp hdisjoint hxk hx
        simp only [Function.update_of_ne hrq, Function.update_self, hp, Multiset.mem_add, hrq,
          false_and, false_or]
        tauto
      · have hnot : x ∈ owns r → x ∉ ks := fun hx hxk =>
          hrp (h.apart r p x hx (by rw [hp]; exact Multiset.mem_add.mpr (.inl hxk)))
        simp only [Function.update_of_ne hrq, Function.update_of_ne hrp, hrq, false_and, false_or]
        tauto
  refine ⟨fun r => ?_, fun r r' x hx hx' => ?_, fun x => ?_⟩
  · by_cases hrq : r = q
    · subst hrq
      rw [Function.update_self, Multiset.nodup_add]
      exact ⟨hks, h.nodup r, Multiset.disjoint_left.mpr fun {x} => hapart x⟩
    · by_cases hrp : r = p
      · subst hrp
        rw [Function.update_of_ne hrq, Function.update_self]
        exact hrest
      · rw [Function.update_of_ne hrq, Function.update_of_ne hrp]
        exact h.nodup r
  · rcases (hmem r x).mp hx with ⟨rfl, hxk⟩ | ⟨hxr, hxk⟩
    · rcases (hmem r' x).mp hx' with ⟨rfl, -⟩ | ⟨-, hnot⟩
      · rfl
      · exact absurd hxk hnot
    · rcases (hmem r' x).mp hx' with ⟨-, hxk'⟩ | ⟨hxr', -⟩
      · exact absurd hxk' hxk
      · exact h.apart r r' x hxr hxr'
  · simp only [hmem, h.cover x, exists_or, exists_eq_left, exists_and_right]
    refine ⟨fun hx => (em (x ∈ ks)).imp id fun hxk => ⟨hx, hxk⟩, ?_⟩
    rintro (hxk | ⟨hx, -⟩)
    · exact ⟨p, by rw [hp]; exact Multiset.mem_add.mpr (.inl hxk)⟩
    · exact hx

end KeyPartition

end TangraTicket
