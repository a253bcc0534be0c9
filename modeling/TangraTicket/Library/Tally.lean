import Mathlib.Algebra.BigOperators.Group.Finset.Basic
import Mathlib.Algebra.Order.BigOperators.Group.Multiset
import Mathlib.Algebra.Ring.Nat
import Mathlib.Data.List.Dedup
import Mathlib.Data.List.Perm.Basic
import Mathlib.Data.Multiset.Count

/-!
Finite maps of counts. They are counted up key by key, or filled from the groups of a query; both
give the number of times a key occurs.
-/

namespace TangraTicket.Tally

variable {κ : Type} [DecidableEq κ] {m : List (κ × ℕ)} {k k' : κ}

/-- The count under a key; nothing counts as zero. -/
def get : List (κ × ℕ) → κ → ℕ
  | [], _ => 0
  | e :: m, k => if e.1 = k then e.2 else get m k

def alter (k : κ) (f : ℕ → ℕ) : List (κ × ℕ) → List (κ × ℕ)
  | [] => [(k, f 0)]
  | e :: m => if e.1 = k then (k, f e.2) :: m else e :: alter k f m

def add (n : ℕ) (m : List (κ × ℕ)) (k : κ) : List (κ × ℕ) := alter k (· + n) m

def set (m : List (κ × ℕ)) (e : κ × ℕ) : List (κ × ℕ) := alter e.1 (fun _ => e.2) m

def sum (m : List (κ × ℕ)) : ℕ := (m.map Prod.snd).sum

def groups (ks : List κ) : List (κ × ℕ) := ks.dedup.map fun k => (k, ks.count k)

theorem get_alter (k : κ) (f : ℕ → ℕ) (m : List (κ × ℕ)) (k' : κ) :
    get (alter k f m) k' = if k = k' then f (get m k) else get m k' := by
  induction m with
  | nil => rfl
  | cons e m ih =>
    rw [alter]
    by_cases he : e.1 = k
    · rw [if_pos he, get, get, get, if_pos he, he]
      split_ifs <;> rfl
    · rw [if_neg he, get, ih, get, get, if_neg he]
      by_cases hk : k = k'
      · rw [if_pos hk, if_pos hk, if_neg (hk ▸ he)]
      · rw [if_neg hk, if_neg hk]

theorem keys_groups (ks : List κ) : (groups ks).map Prod.fst = ks.dedup := by
  rw [groups, List.map_map]
  exact (List.map_congr_left fun _ _ => rfl).trans (List.map_id _)

theorem get_groups (ks : List κ) (k : κ) : get (groups ks) k = ks.count k := by
  have hmap : ∀ l : List κ, get (l.map fun x => (x, ks.count x)) k = if k ∈ l then ks.count k else 0 := by
    intro l
    induction l with
    | nil => rfl
    | cons x l ih =>
      rw [List.map_cons, get, ih]
      by_cases hx : x = k
      · rw [if_pos hx, if_pos (hx ▸ List.mem_cons_self), hx]
      · rw [if_neg hx]
        simp [Ne.symm hx]
  rw [groups, hmap]
  by_cases hk : k ∈ ks
  · rw [if_pos (List.mem_dedup.mpr hk)]
  · rw [if_neg (mt List.mem_dedup.mp hk), List.count_eq_zero_of_not_mem hk]

theorem get_groups_cons (k' : κ) (ks : List κ) (k : κ) :
    get (groups (k' :: ks)) k = get (groups ks) k + if k' = k then 1 else 0 := by
  rw [get_groups, get_groups, List.count_cons]
  simp only [beq_iff_eq]

theorem get_groups_perm {ks ks' : List κ} (h : ks.Perm ks') (k : κ) :
    get (groups ks) k = get (groups ks') k := by
  rw [get_groups, get_groups, h.count_eq]

theorem get_foldl_add (ks : List κ) (m : List (κ × ℕ)) (k : κ) :
    get (ks.foldl (add 1) m) k = get m k + get (groups ks) k := by
  induction ks generalizing m with
  | nil => rfl
  | cons k' ks ih =>
    rw [List.foldl_cons, ih, add, get_alter, get_groups_cons]
    by_cases hk : k' = k
    · rw [if_pos hk, if_pos hk, hk]
      omega
    · rw [if_neg hk, if_neg hk, Nat.add_zero]

theorem get_foldl_set {es : List (κ × ℕ)} (h : (es.map Prod.fst).Nodup) (m : List (κ × ℕ)) (k : κ) :
    get (es.foldl set m) k = if k ∈ es.map Prod.fst then get es k else get m k := by
  induction es generalizing m with
  | nil => rfl
  | cons e es ih =>
    rw [List.map_cons, List.nodup_cons] at h
    rw [List.foldl_cons, ih h.2, set, get_alter, get, List.map_cons]
    by_cases hk : e.1 = k
    · rw [if_pos hk, if_pos hk, if_neg (hk ▸ h.1), if_pos (hk ▸ List.mem_cons_self)]
    · rw [if_neg hk, if_neg hk]
      have hmem : k ∈ e.1 :: es.map Prod.fst ↔ k ∈ es.map Prod.fst := by simp [Ne.symm hk]
      simp only [hmem]

theorem get_foldl_groups (hm : ∀ k, get m k = 0) (ks : List κ) (k : κ) :
    get ((groups ks).foldl set m) k = get (groups ks) k := by
  rw [get_foldl_set (keys_groups ks ▸ ks.nodup_dedup), hm, keys_groups]
  by_cases hk : k ∈ ks
  · rw [if_pos (List.mem_dedup.mpr hk)]
  · rw [if_neg (mt List.mem_dedup.mp hk), get_groups, List.count_eq_zero_of_not_mem hk]

theorem sum_groups {keys ks : List κ} (hkeys : keys.Nodup) (h : ∀ k ∈ ks, k ∈ keys) :
    (keys.map (get (groups ks))).sum = ks.length := by
  have hsum := Multiset.sum_count_eq_card (s := keys.toFinset) (m := (ks : Multiset κ)) (by simpa using h)
  rw [← List.sum_toFinset _ hkeys]
  simpa [get_groups] using hsum

theorem get_zeros (ks : List κ) (k : κ) : get (ks.map fun k => (k, 0)) k = 0 := by
  induction ks with
  | nil => rfl
  | cons k' ks ih =>
    rw [List.map_cons, get, ih]
    split_ifs <;> rfl

theorem keys_alter (h : k ∈ m.map Prod.fst) (f : ℕ → ℕ) : (alter k f m).map Prod.fst = m.map Prod.fst := by
  induction m with
  | nil => cases h
  | cons e m ih =>
    rw [alter]
    by_cases he : e.1 = k
    · rw [if_pos he, List.map_cons, List.map_cons, he]
    · have hk : k ∈ m.map Prod.fst := (List.mem_cons.mp h).resolve_left (Ne.symm he)
      rw [if_neg he, List.map_cons, List.map_cons, ih hk]

theorem keys_foldl_set {es : List (κ × ℕ)} (h : ∀ e ∈ es, e.1 ∈ m.map Prod.fst) :
    (es.foldl set m).map Prod.fst = m.map Prod.fst := by
  induction es generalizing m with
  | nil => rfl
  | cons e es ih =>
    obtain ⟨he, hes⟩ := List.forall_mem_cons.mp h
    have hkeys : (set m e).map Prod.fst = m.map Prod.fst := keys_alter he _
    rw [List.foldl_cons, ih (by rwa [hkeys]), hkeys]

theorem sum_eq (hm : (m.map Prod.fst).Nodup) : sum m = ((m.map Prod.fst).map (get m)).sum := by
  have hvalues : m.map Prod.snd = (m.map Prod.fst).map (get m) := by
    rw [List.map_map]
    refine List.map_congr_left fun e he => ?_
    induction m with
    | nil => cases he
    | cons e' m ih =>
      rw [List.map_cons, List.nodup_cons] at hm
      rw [Function.comp_apply, get]
      rcases List.mem_cons.mp he with rfl | he
      · rw [if_pos rfl]
      · have hother : e'.1 ≠ e.1 := fun heq => hm.1 (heq ▸ List.mem_map_of_mem he)
        rw [if_neg hother]
        exact ih hm.2 he
  rw [sum, hvalues]

theorem sum_groups_self (ks : List κ) : sum (groups ks) = ks.length := by
  have hkeys : ((groups ks).map Prod.fst).Nodup := keys_groups ks ▸ ks.nodup_dedup
  rw [sum_eq hkeys, keys_groups, sum_groups ks.nodup_dedup fun k hk => List.mem_dedup.mpr hk]

theorem mem_keys_alter (f : ℕ → ℕ) : k' ∈ (alter k f m).map Prod.fst ↔ k' = k ∨ k' ∈ m.map Prod.fst := by
  induction m with
  | nil => simp [alter]
  | cons e m ih =>
    rw [alter]
    by_cases he : e.1 = k
    · rw [if_pos he, List.map_cons, List.map_cons, List.mem_cons, List.mem_cons, he]
      tauto
    · rw [if_neg he, List.map_cons, List.map_cons, List.mem_cons, List.mem_cons, ih]
      tauto

theorem nodup_alter (h : (m.map Prod.fst).Nodup) (k : κ) (f : ℕ → ℕ) :
    ((alter k f m).map Prod.fst).Nodup := by
  induction m with
  | nil => simp [alter]
  | cons e m ih =>
    obtain ⟨hnew, hm⟩ := List.nodup_cons.mp h
    rw [alter]
    by_cases he : e.1 = k
    · rw [if_pos he, List.map_cons, List.nodup_cons]
      exact ⟨he ▸ hnew, hm⟩
    · rw [if_neg he, List.map_cons, List.nodup_cons, mem_keys_alter]
      exact ⟨not_or.mpr ⟨he, hnew⟩, ih hm⟩

theorem keys_foldl_add (ks : List κ) (h : (m.map Prod.fst).Nodup) :
    ((ks.foldl (add 1) m).map Prod.fst).Nodup ∧
      ∀ k, k ∈ (ks.foldl (add 1) m).map Prod.fst ↔ k ∈ ks ∨ k ∈ m.map Prod.fst := by
  induction ks generalizing m with
  | nil => exact ⟨h, fun k => by simp⟩
  | cons k' ks ih =>
    obtain ⟨hnodup, hmem⟩ := ih (nodup_alter h k' (· + 1))
    refine ⟨hnodup, fun k => (hmem k).trans ?_⟩
    rw [mem_keys_alter, List.mem_cons]
    tauto

theorem perm_of_get {m m' : List (κ × ℕ)} (h : (m.map Prod.fst).Nodup) (h' : (m'.map Prod.fst).Nodup)
    (hkeys : ∀ k, k ∈ m.map Prod.fst ↔ k ∈ m'.map Prod.fst) (hget : ∀ k, get m k = get m' k) :
    m.Perm m' := by
  have hmem : ∀ {m : List (κ × ℕ)}, (m.map Prod.fst).Nodup → ∀ e, e ∈ m ↔ e.1 ∈ m.map Prod.fst ∧
      get m e.1 = e.2 := by
    intro m h e
    induction m with
    | nil => simp
    | cons e' m ih =>
      obtain ⟨hnew, hm⟩ := List.nodup_cons.mp h
      rw [List.mem_cons, List.map_cons, List.mem_cons, get]
      by_cases he : e'.1 = e.1
      · have hout : e ∉ m := fun hin => hnew (he ▸ List.mem_map_of_mem hin)
        rw [if_pos he]
        constructor
        · rintro (rfl | hin)
          · exact ⟨.inl rfl, rfl⟩
          · exact absurd hin hout
        · rintro ⟨-, hcount⟩
          exact .inl (Prod.ext he.symm hcount.symm)
      · have hne : e ≠ e' := fun heq => he (heq ▸ rfl)
        rw [if_neg he, ih hm]
        simp [hne, Ne.symm he]
  refine (List.perm_ext_iff_of_nodup h.of_map h'.of_map).mpr fun e => ?_
  rw [hmem h, hmem h', hkeys, hget]

theorem foldl_add_perm {ks ks' : List κ} (h : ks.Perm ks') : (ks.foldl (add 1) []).Perm (groups ks') := by
  obtain ⟨hnodup, hmem⟩ := keys_foldl_add ks (m := []) List.nodup_nil
  refine perm_of_get hnodup (keys_groups ks' ▸ ks'.nodup_dedup) (fun k => ?_) fun k => ?_
  · rw [hmem, keys_groups, List.mem_dedup, h.mem_iff]
    simp
  · rw [get_foldl_add, get_groups_perm h]
    exact Nat.zero_add _

end TangraTicket.Tally
