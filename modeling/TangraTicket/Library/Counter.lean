import Mathlib.Algebra.Ring.Nat
import TangraTicket.Library.KeyedTable

/-!
Counters by key, as maps keep them: a key counts up from nothing, and goes when it has counted down
to nothing. A counter stands for the list of what it counts.
-/

namespace TangraTicket.Counting

open KeyedTable

variable {κ : Type}

structure Count (κ : Type) where
  key : κ
  count : ℕ
deriving DecidableEq

abbrev Counter (κ : Type) := Table κ (Count κ) Count.key

variable [DecidableEq κ]

def value (c : Counter κ) (k : κ) : ℕ := ((c.get? k).map Count.count).getD 0

def increment (c : Counter κ) (k : κ) : Counter κ := c.put ⟨k, value c k + 1⟩

def decrement (c : Counter κ) (k : κ) : Counter κ :=
  if value c k ≤ 1 then c.keep fun e => e.key ≠ k else c.put ⟨k, value c k - 1⟩

theorem value_put (c : Counter κ) (k : κ) (n : ℕ) (k' : κ) :
    value (c.put ⟨k, n⟩) k' = if k' = k then n else value c k' := by
  rw [value, Table.get?_put]
  by_cases h : k' = k <;> simp [h, value]

theorem value_keep (c : Counter κ) (k k' : κ) :
    value (c.keep fun e => e.key ≠ k) k' = if k' = k then 0 else value c k' := by
  rw [value, Table.get?_keep]
  cases hget : c.get? k' with
  | none => simp [value, hget]
  | some e =>
    obtain ⟨-, rfl⟩ := Table.get?_eq_some.mp hget
    by_cases h : e.key = k <;> simp [Option.filter, h, value, hget]

structure Counts (c : Counter κ) (l : List κ) : Prop where
  value_eq : ∀ k, value c k = l.countP fun x => x = k
  positive : ∀ e ∈ c.rows, 0 < e.count

variable {c : Counter κ} {l l' : List κ} {k : κ}

theorem counts_empty : Counts (.empty : Counter κ) [] := by
  constructor
  · intro k
    rfl
  · intro e he
    cases he

theorem Counts.perm (h : Counts c l) (hl : l.Perm l') : Counts c l' :=
  ⟨fun k => (h.value_eq k).trans (hl.countP_eq _), h.positive⟩

theorem Counts.increment (h : Counts c l) (k : κ) : Counts (increment c k) (l ++ [k]) := by
  constructor
  · intro k'
    rw [Counting.increment, value_put, List.countP_append, ← h.value_eq k']
    by_cases hk : k' = k
    · simp [hk]
    · simp [hk, Ne.symm hk]
  · intro e he
    rcases Table.mem_put.mp he with rfl | ⟨he, -⟩
    · exact Nat.succ_pos _
    · exact h.positive e he

theorem Counts.decrement (h : Counts c (k :: l)) : Counts (decrement c k) l := by
  have hvalue : ∀ k', value c k' = (l.countP fun x => x = k') + if k' = k then 1 else 0 := by
    intro k'
    rw [h.value_eq k', List.countP_cons]
    by_cases hk : k' = k
    · simp [hk]
    · simp [hk, Ne.symm hk]
  have hk := hvalue k
  rw [if_pos rfl] at hk
  unfold Counting.decrement
  split_ifs with hone
  · constructor
    · intro k'
      rw [value_keep, hvalue k']
      by_cases hk' : k' = k
      · subst hk'
        simp
        omega
      · simp [hk']
    · exact fun e he => h.positive e (Table.mem_keep.mp he).1
  · constructor
    · intro k'
      rw [value_put, hvalue k']
      by_cases hk' : k' = k
      · subst hk'
        simp
        omega
      · simp [hk']
    · intro e he
      rcases Table.mem_put.mp he with rfl | ⟨he, -⟩
      · simp only
        omega
      · exact h.positive e he

theorem sum_replace {ρ : Type} {key : ρ → κ} {rows : List ρ} (hnodup : (rows.map key).Nodup)
    {r r₀ : ρ} (hr : r₀ ∈ rows) (hk : key r = key r₀) (f : ρ → ℕ) :
    ((rows.map fun x => if key x = key r then r else x).map f).sum + f r₀ = (rows.map f).sum + f r := by
  induction rows with
  | nil => cases hr
  | cons x rows ih =>
    obtain ⟨hfresh, hnodup⟩ := List.nodup_cons.mp hnodup
    rw [List.map_cons, List.map_cons, List.map_cons, List.sum_cons, List.sum_cons]
    rcases List.mem_cons.mp hr with rfl | hr
    · have hrest : (rows.map fun x => if key x = key r then r else x) = rows := by
        refine (List.map_congr_left fun y hy => if_neg fun hyk => ?_).trans (List.map_id _)
        exact hfresh (List.mem_map.mpr ⟨y, hy, hyk.trans hk⟩)
      rw [hrest, if_pos hk.symm]
      omega
    · have hx : key x ≠ key r := by
        intro hxk
        exact hfresh (List.mem_map.mpr ⟨r₀, hr, (hxk.trans hk).symm⟩)
      have := ih hnodup hr
      rw [if_neg hx]
      omega

theorem sum_put_old {ρ : Type} {key : ρ → κ} {t : Table κ ρ key} {r r₀ : ρ} (hr : r₀ ∈ t.rows)
    (hk : key r = key r₀) (f : ρ → ℕ) :
    ((t.put r).rows.map f).sum + f r₀ = (t.rows.map f).sum + f r := by
  rw [Table.put_rows_old hr hk]
  exact sum_replace t.nodup hr hk f

end TangraTicket.Counting
