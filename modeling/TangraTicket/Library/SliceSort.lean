import Mathlib.Data.List.Pairwise
import Mathlib.Data.List.Sort
import TangraTicket.Library.GoText

/-!
Slices sorted by a strict comparison, and pages cut from them. Where a comparison tells the elements
of a slice apart, sorting by it leaves one order only, whatever order the elements came in.
-/

namespace TangraTicket.GoText

variable {α : Type}

structure StrictWeak (less : α → α → Bool) : Prop where
  asymm : ∀ {a b}, less a b = true → less b a = false
  cotrans : ∀ {a b} c, less a b = true → less a c = true ∨ less c b = true

def Separates (less : α → α → Bool) (xs : List α) : Prop :=
  ∀ a ∈ xs, ∀ b ∈ xs, a ≠ b → less a b = true ∨ less b a = true

theorem Separates.subset {less : α → α → Bool} {xs ys : List α} (h : Separates less xs) (hsub : ys ⊆ xs) :
    Separates less ys := fun a ha b hb => h a (hsub ha) b (hsub hb)

section Sorting

variable {less less' : α → α → Bool} {xs ys : List α}

theorem StrictWeak.pairwise_sortSlice (h : StrictWeak less) (xs : List α) :
    (sortSlice less xs).Pairwise fun a b => less b a = false := by
  have : Std.Total fun a b : α => (!less b a) = true := by
    constructor
    intro a b
    cases hab : less b a with
    | false => simp
    | true => simp [h.asymm hab]
  have : IsTrans α fun a b => (!less b a) = true := by
    constructor
    intro a b c hab hbc
    cases hca : less c a with
    | false => rfl
    | true =>
      rcases h.cotrans b hca with hcb | hba
      · simp [hcb] at hbc
      · simp [hba] at hab
  exact (List.pairwise_insertionSort (fun a b => (!less b a) = true) xs).imp fun hab => by simpa using hab

theorem perm_sortSlice (less : α → α → Bool) (xs : List α) : (sortSlice less xs).Perm xs :=
  List.perm_insertionSort _ xs

theorem StrictWeak.strictly_sorted (h : StrictWeak less) (hsep : Separates less xs) (hnd : xs.Nodup) :
    (sortSlice less xs).Pairwise fun a b => less a b = true := by
  have hperm := perm_sortSlice less xs
  have hne : (sortSlice less xs).Pairwise fun a b => a ≠ b := hperm.nodup_iff.mpr hnd
  refine ((h.pairwise_sortSlice xs).and hne).imp_of_mem ?_
  rintro a b ha hb ⟨hba, hab⟩
  have htold := hsep a (hperm.mem_iff.mp ha) b (hperm.mem_iff.mp hb) hab
  simpa [hba] using htold

theorem StrictWeak.eq_of_perm (h : StrictWeak less) (hp : xs.Perm ys)
    (hx : xs.Pairwise fun a b => less a b = true) (hy : ys.Pairwise fun a b => less a b = true) :
    xs = ys := by
  refine hp.eq_of_pairwise (fun a b _ _ hab hba => ?_) hx hy
  have hno := h.asymm hab
  rw [hba] at hno
  cases hno

theorem StrictWeak.sortSlice_perm (h : StrictWeak less) (hp : xs.Perm ys) (hsep : Separates less xs)
    (hnd : xs.Nodup) :
    sortSlice less xs = sortSlice less ys := by
  have hsep' : Separates less ys := hsep.subset fun a ha => hp.mem_iff.mpr ha
  apply h.eq_of_perm
  · exact (perm_sortSlice less xs).trans (hp.trans (perm_sortSlice less ys).symm)
  · exact h.strictly_sorted hsep hnd
  · exact h.strictly_sorted hsep' (hp.nodup_iff.mp hnd)

theorem StrictWeak.filter_sortSlice (h : StrictWeak less) (hsep : Separates less xs) (hnd : xs.Nodup)
    (p : α → Bool) : (sortSlice less xs).filter p = sortSlice less (xs.filter p) := by
  apply h.eq_of_perm
  · exact ((perm_sortSlice less xs).filter p).trans (perm_sortSlice less _).symm
  · exact (h.strictly_sorted hsep hnd).filter p
  · exact h.strictly_sorted (hsep.subset (List.filter_subset_self xs)) (hnd.filter p)

theorem StrictWeak.sortSlice_eq_iff (h : StrictWeak less) (h' : StrictWeak less') (hsep : Separates less xs)
    (hsep' : Separates less' xs) (hnd : xs.Nodup) :
    sortSlice less' xs = sortSlice less xs ↔ ∀ a ∈ xs, ∀ b ∈ xs, less a b = true → less' a b = true := by
  have hs := h.strictly_sorted hsep hnd
  have hs' := h'.strictly_sorted hsep' hnd
  constructor
  · intro heq a ha b hb hab
    rw [heq] at hs'
    have hne : a ≠ b := by
      rintro rfl
      have := h.asymm hab
      rw [hab] at this
      cases this
    -- in the one arrangement either `a` stands before `b`, or `b` before `a`, which `hab` excludes
    have hboth : (sortSlice less xs).Pairwise fun x y =>
        (less x y = true ∧ less' x y = true) ∨ (less y x = true ∧ less' y x = true) := (hs.and hs').imp .inl
    have : Std.Symm fun x y => (less x y = true ∧ less' x y = true) ∨
        (less y x = true ∧ less' y x = true) :=
      ⟨fun x y hxy => hxy.symm⟩
    have hpos := hboth.forall ((perm_sortSlice less xs).mem_iff.mpr ha)
      ((perm_sortSlice less xs).mem_iff.mpr hb) hne
    rcases hpos with ⟨-, hpos⟩ | ⟨hba, -⟩
    · exact hpos
    · have := h.asymm hab
      rw [hba] at this
      cases this
  · intro himp
    apply h'.eq_of_perm
    · exact (perm_sortSlice less' xs).trans (perm_sortSlice less xs).symm
    · exact hs'
    · refine hs.imp_of_mem fun {a b} ha hb hab => himp a ?_ b ?_ hab
      · exact (perm_sortSlice less xs).mem_iff.mp ha
      · exact (perm_sortSlice less xs).mem_iff.mp hb

end Sorting

structure StrictTotal (less : α → α → Bool) : Prop where
  asymm : ∀ {a b}, less a b = true → less b a = false
  trans : ∀ {a b c}, less a b = true → less b c = true → less a c = true
  total : ∀ {a b}, a ≠ b → less a b = true ∨ less b a = true

theorem StrictTotal.strictWeak {less : α → α → Bool} (h : StrictTotal less) : StrictWeak less where
  asymm := h.asymm
  cotrans {a b} c hab := by
    by_cases hca : c = a
    · exact .inr (hca ▸ hab)
    · rcases h.total hca with hlt | hlt
      · exact .inr (h.trans hlt hab)
      · exact .inl hlt

theorem StrictTotal.irrefl {less : α → α → Bool} (h : StrictTotal less) (a : α) : less a a = false := by
  cases haa : less a a with
  | false => rfl
  | true => exact haa.symm.trans (h.asymm haa)

section ByKey

variable {κ : Type} [DecidableEq κ]

def byKey (key : α → κ) (lessKey : κ → κ → Bool) (less : α → α → Bool) (a b : α) : Bool :=
  if key a ≠ key b then lessKey (key a) (key b) else less a b

variable {key : α → κ} {lessKey : κ → κ → Bool} {less : α → α → Bool}

theorem byKey_of_eq {a b : α} (h : key a = key b) : byKey key lessKey less a b = less a b :=
  if_neg (not_not.mpr h)

theorem byKey_of_ne {a b : α} (h : key a ≠ key b) :
    byKey key lessKey less a b = lessKey (key a) (key b) := if_pos h

theorem StrictWeak.byKey (hkey : StrictTotal lessKey) (h : StrictWeak less) :
    StrictWeak (byKey key lessKey less) where
  asymm {a b} hab := by
    by_cases hk : key a = key b
    · rw [byKey_of_eq hk] at hab
      rw [byKey_of_eq hk.symm]
      exact h.asymm hab
    · rw [byKey_of_ne hk] at hab
      rw [byKey_of_ne fun hk' => hk hk'.symm]
      exact hkey.asymm hab
  cotrans {a b} c hab := by
    by_cases hac : key a = key c
    · by_cases hcb : key c = key b
      · rw [byKey_of_eq (hac.trans hcb)] at hab
        rw [byKey_of_eq hac, byKey_of_eq hcb]
        exact h.cotrans c hab
      · rw [byKey_of_ne (hac ▸ hcb), hac] at hab
        exact .inr (by rw [byKey_of_ne hcb, hab])
    · by_cases hcb : key c = key b
      · rw [byKey_of_ne (hcb ▸ hac), ← hcb] at hab
        exact .inl (by rw [byKey_of_ne hac, hab])
      · rw [byKey_of_ne hac, byKey_of_ne hcb]
        by_cases hkab : key a = key b
        · -- then `c` is on one side of both
          rcases hkey.total hac with hlt | hlt
          · exact .inl hlt
          · exact .inr (hkab ▸ hlt)
        · rw [byKey_of_ne hkab] at hab
          exact hkey.strictWeak.cotrans (key c) hab

theorem Separates.byKey {xs : List α} (hkey : StrictTotal lessKey) (h : Separates less xs) :
    Separates (byKey key lessKey less) xs := by
  intro a ha b hb hab
  by_cases hk : key a = key b
  · rw [byKey_of_eq hk, byKey_of_eq hk.symm]
    exact h a ha b hb hab
  · rw [byKey_of_ne hk, byKey_of_ne fun hk' => hk hk'.symm]
    exact hkey.total hk

end ByKey

theorem StrictTotal.comap {κ : Type} {less : κ → κ → Bool} (h : StrictTotal less) (key : α → κ) :
    StrictWeak fun a b => less (key a) (key b) where
  asymm := h.asymm
  cotrans c := h.strictWeak.cotrans (key c)

theorem strictTotal_int : StrictTotal fun a b : ℤ => decide (a < b) where
  asymm := by
    intro a b
    simp only [decide_eq_true_eq, decide_eq_false_iff_not]
    omega
  trans := by
    intro a b c
    simp only [decide_eq_true_eq]
    omega
  total := by
    intro a b
    simp only [decide_eq_true_eq]
    omega

theorem lessString_iff {s t : GoString} : lessString s t = true ↔ s < t := by
  unfold lessString
  exact List.lex_eq_true_iff_lt

theorem strictTotal_lessString : StrictTotal lessString where
  asymm {a b} hab := by
    rw [lessString_iff] at hab
    rw [Bool.eq_false_iff, Ne, lessString_iff]
    exact List.lt_asymm hab
  trans {a b c} hab hbc := by
    rw [lessString_iff] at hab hbc ⊢
    exact List.lt_trans hab hbc
  total {a b} hab := by
    rw [lessString_iff, lessString_iff]
    by_contra hnot
    rw [not_or, List.not_lt, List.not_lt] at hnot
    exact hab (List.le_antisymm hnot.2 hnot.1)

def pageOf (xs : List α) (size n : ℕ) : List α := (xs.drop (n * size)).take size

theorem flatMap_pageOf (xs : List α) (size n : ℕ) :
    (List.range n).flatMap (pageOf xs size) = xs.take (n * size) := by
  induction n with
  | zero => simp
  | succ n ih =>
    rw [List.range_succ, List.flatMap_append, ih, List.flatMap_singleton, pageOf, Nat.succ_mul,
      List.take_add]

theorem flatMap_pages (xs : List α) {size : ℕ} (hsize : 0 < size) :
    (List.range ((xs.length + size - 1) / size)).flatMap (pageOf xs size) = xs := by
  rw [flatMap_pageOf]
  apply List.take_of_length_le
  have := Nat.lt_div_mul_add (a := xs.length + size - 1) hsize
  omega

end TangraTicket.GoText
