import Mathlib.Data.List.Basic
import Mathlib.Data.List.Nodup

/-!
Finite maps whose values carry their own key. The list of rows is one enumeration of the map; its
order is that of first insertion.
-/

namespace TangraTicket.KeyedTable

structure Table (κ ρ : Type) (key : ρ → κ) where
  rows : List ρ
  nodup : (rows.map key).Nodup

namespace Table

variable {κ ρ : Type} {key : ρ → κ}

theorem ext_rows {t t' : Table κ ρ key} (h : t.rows = t'.rows) : t = t' := by
  cases t
  cases t'
  cases h
  rfl

def empty : Table κ ρ key := ⟨[], List.nodup_nil⟩

theorem eq_of_key (t : Table κ ρ key) {x y : ρ} (hx : x ∈ t.rows) (hy : y ∈ t.rows) (h : key x = key y) :
    x = y := List.inj_on_of_nodup_map t.nodup hx hy h

def keep (t : Table κ ρ key) (p : ρ → Bool) : Table κ ρ key :=
  ⟨t.rows.filter p, t.nodup.sublist (List.filter_sublist.map key)⟩

theorem mem_keep {t : Table κ ρ key} {p : ρ → Bool} {x : ρ} :
    x ∈ (t.keep p).rows ↔ x ∈ t.rows ∧ p x = true := List.mem_filter

def amend (t : Table κ ρ key) (f : ρ → ρ) (hf : ∀ r, key (f r) = key r) : Table κ ρ key :=
  ⟨t.rows.map f, by simpa only [List.map_map, Function.comp_def, hf] using t.nodup⟩

theorem filter_filter_of {p q : ρ → Bool} {rows : List ρ} (h : ∀ x ∈ rows, p x = true → q x = true) :
    (rows.filter q).filter p = rows.filter p := by
  rw [List.filter_filter]
  refine List.filter_congr fun x hx => ?_
  cases hpx : p x with
  | false => rfl
  | true => rw [h x hx hpx, Bool.true_and]

theorem keep_keep_of {p q : ρ → Bool} {t : Table κ ρ key} (h : ∀ x ∈ t.rows, p x = true → q x = true) :
    (t.keep q).keep p = t.keep p := ext_rows (filter_filter_of h)

theorem keep_amend_of {p : ρ → Bool} {t : Table κ ρ key} {f : ρ → ρ} (hf : ∀ r, key (f r) = key r)
    (hp : ∀ r, p (f r) = p r) (h : ∀ x ∈ t.rows, p x = true → f x = x) :
    (t.amend f hf).keep p = t.keep p := by
  apply ext_rows
  change (t.rows.map f).filter p = t.rows.filter p
  have hcomp : p ∘ f = p := funext hp
  rw [List.filter_map, hcomp]
  refine (List.map_congr_left fun x hx => ?_).trans (List.map_id _)
  exact h x (List.mem_filter.mp hx).1 (List.mem_filter.mp hx).2

theorem length_filter_congr {t t' : Table κ ρ key} {p : ρ → Bool}
    (h : ∀ r, p r = true → (r ∈ t'.rows ↔ r ∈ t.rows)) :
    (t'.rows.filter p).length = (t.rows.filter p).length := by
  refine List.Perm.length_eq ((List.perm_ext_iff_of_nodup ?_ ?_).mpr fun r => ?_)
  · exact (List.Nodup.of_map key t'.nodup).filter p
  · exact (List.Nodup.of_map key t.nodup).filter p
  · rw [List.mem_filter, List.mem_filter]
    exact and_congr_left fun hr => h r hr

theorem length_filter_succ {t t' : Table κ ρ key} {p : ρ → Bool} {x : ρ} (hx : p x = true)
    (hnew : x ∉ t.rows) (h : ∀ r, p r = true → (r ∈ t'.rows ↔ r = x ∨ r ∈ t.rows)) :
    (t'.rows.filter p).length = (t.rows.filter p).length + 1 := by
  rw [← List.length_cons (a := x)]
  refine List.Perm.length_eq ((List.perm_ext_iff_of_nodup ?_ ?_).mpr fun r => ?_)
  · exact (List.Nodup.of_map key t'.nodup).filter p
  · refine List.nodup_cons.mpr ⟨fun hin => hnew (List.mem_filter.mp hin).1, ?_⟩
    exact (List.Nodup.of_map key t.nodup).filter p
  · rw [List.mem_cons, List.mem_filter, List.mem_filter]
    constructor
    · rintro ⟨hr, hp⟩
      exact ((h r hp).mp hr).imp_right fun hr => ⟨hr, hp⟩
    · rintro (rfl | ⟨hr, hp⟩)
      · exact ⟨(h r hx).mpr (.inl rfl), hx⟩
      · exact ⟨(h r hp).mpr (.inr hr), hp⟩

variable [DecidableEq κ]

def get? (t : Table κ ρ key) (k : κ) : Option ρ := t.rows.find? (fun r => key r = k)

def putRows (rows : List ρ) (key : ρ → κ) (r : ρ) : List ρ :=
  if key r ∈ rows.map key then rows.map (fun x => if key x = key r then r else x) else rows ++ [r]

theorem putRows_keys (rows : List ρ) (r : ρ) (h : key r ∈ rows.map key) :
    (putRows rows key r).map key = rows.map key := by
  rw [putRows, if_pos h, List.map_map]
  apply List.map_congr_left
  intro x _
  by_cases hx : key x = key r <;> simp [hx]

def put (t : Table κ ρ key) (r : ρ) : Table κ ρ key where
  rows := putRows t.rows key r
  nodup := by
    by_cases h : key r ∈ t.rows.map key
    · rw [putRows_keys t.rows r h]
      exact t.nodup
    · rw [putRows, if_neg h, List.map_append, List.map_singleton, List.nodup_append]
      refine ⟨t.nodup, List.nodup_singleton _, ?_⟩
      intro a ha b hb hab
      rw [List.mem_singleton.mp hb] at hab
      exact h (hab ▸ ha)

theorem get?_eq_some {t : Table κ ρ key} {k : κ} {r : ρ} : t.get? k = some r ↔ r ∈ t.rows ∧ key r = k := by
  constructor
  · intro h
    exact ⟨List.mem_of_find?_eq_some h, by simpa using List.find?_some h⟩
  · rintro ⟨hr, rfl⟩
    cases hf : t.get? (key r) with
    | none => simpa using List.find?_eq_none.mp hf r hr
    | some x =>
      have hx : key x = key r := by simpa using List.find?_some hf
      rw [t.eq_of_key (List.mem_of_find?_eq_some hf) hr hx]

theorem get?_eq_none {t : Table κ ρ key} {k : κ} : t.get? k = none ↔ ∀ r ∈ t.rows, key r ≠ k := by
  simp [get?]

theorem filter_get?_eq_some {t : Table κ ρ key} {k : κ} {p : ρ → Bool} {r : ρ} :
    (t.get? k).filter p = some r ↔ r ∈ t.rows ∧ key r = k ∧ p r = true := by
  rw [Option.filter_eq_some_iff, get?_eq_some, and_assoc]

theorem any_get? {t : Table κ ρ key} {k : κ} {p : ρ → Bool} :
    (t.get? k).any p = true ↔ ∃ r ∈ t.rows, key r = k ∧ p r = true := by
  cases hget : t.get? k with
  | none =>
    refine ⟨fun h => (Bool.false_ne_true h).elim, ?_⟩
    rintro ⟨r, hr, hk, -⟩
    exact absurd hk (get?_eq_none.mp hget r hr)
  | some x =>
    obtain ⟨hx, hk⟩ := get?_eq_some.mp hget
    refine ⟨fun h => ⟨x, hx, hk, h⟩, ?_⟩
    rintro ⟨r, hr, hrk, hp⟩
    rwa [t.eq_of_key hr hx (hrk.trans hk.symm)] at hp

theorem filter_of_key {t : Table κ ρ key} {p : ρ → Bool} {k : κ}
    (hp : ∀ r ∈ t.rows, p r = true → key r = k) :
    t.rows.filter p = [] ∨ ∃ r, t.get? k = some r ∧ p r = true ∧ t.rows.filter p = [r] := by
  cases hf : t.rows.filter p with
  | nil => exact .inl rfl
  | cons r rest =>
    have hall : ∀ x ∈ r :: rest, x ∈ t.rows ∧ p x = true := fun x hx => List.mem_filter.mp (hf ▸ hx)
    obtain ⟨hr, hpr⟩ := hall r List.mem_cons_self
    have hnodup : (r :: rest).Nodup := hf ▸ (List.Nodup.of_map key t.nodup).filter p
    have hrest : rest = [] := by
      rw [List.eq_nil_iff_forall_not_mem]
      intro x hx
      obtain ⟨hxt, hpx⟩ := hall x (List.mem_cons_of_mem r hx)
      have hxr : x = r := t.eq_of_key hxt hr ((hp x hxt hpx).trans (hp r hr hpr).symm)
      exact (List.nodup_cons.mp hnodup).1 (hxr ▸ hx)
    exact .inr ⟨r, get?_eq_some.mpr ⟨hr, hp r hr hpr⟩, hpr, by rw [hrest]⟩

theorem put_rows_new {t : Table κ ρ key} {r : ρ} (h : t.get? (key r) = none) :
    (t.put r).rows = t.rows ++ [r] := by
  have hk : key r ∉ t.rows.map key := by
    intro hmem
    obtain ⟨x, hx, he⟩ := List.mem_map.mp hmem
    exact get?_eq_none.mp h x hx he
  simp only [put, putRows, if_neg hk]

theorem put_rows_old {t : Table κ ρ key} {r r₀ : ρ} (hr : r₀ ∈ t.rows) (hk : key r = key r₀) :
    (t.put r).rows = t.rows.map (fun x => if key x = key r then r else x) := by
  have hmem : key r ∈ t.rows.map key := List.mem_map.mpr ⟨r₀, hr, hk.symm⟩
  simp only [put, putRows, if_pos hmem]

theorem mem_put {t : Table κ ρ key} {r x : ρ} :
    x ∈ (t.put r).rows ↔ x = r ∨ x ∈ t.rows ∧ key x ≠ key r := by
  cases h : t.get? (key r) with
  | none =>
    rw [put_rows_new h, List.mem_append, List.mem_singleton]
    have hne := get?_eq_none.mp h
    constructor
    · rintro (hx | hx)
      · exact .inr ⟨hx, hne x hx⟩
      · exact .inl hx
    · rintro (hx | hx)
      · exact .inr hx
      · exact .inl hx.1
  | some r₀ =>
    obtain ⟨hmem, he⟩ := get?_eq_some.mp h
    rw [put_rows_old hmem he.symm, List.mem_map]
    constructor
    · rintro ⟨y, hy, rfl⟩
      by_cases hk : key y = key r
      · simp [hk]
      · simp [hk, hy]
    · rintro (rfl | ⟨hx, hk⟩)
      · exact ⟨r₀, hmem, by simp [he]⟩
      · exact ⟨x, hx, by simp [hk]⟩

theorem get?_put (t : Table κ ρ key) (r : ρ) (k : κ) :
    (t.put r).get? k = if k = key r then some r else t.get? k := by
  by_cases hk : k = key r
  · rw [if_pos hk]
    exact get?_eq_some.mpr ⟨mem_put.mpr (.inl rfl), hk.symm⟩
  · rw [if_neg hk]
    ext x
    rw [get?_eq_some, get?_eq_some, mem_put]
    constructor
    · rintro ⟨rfl | ⟨hx, _⟩, rfl⟩
      · exact absurd rfl hk
      · exact ⟨hx, rfl⟩
    · rintro ⟨hx, rfl⟩
      exact ⟨.inr ⟨hx, hk⟩, rfl⟩

theorem map_put_old {τ : Type} {t : Table κ ρ key} {r r₀ : ρ} (hr : r₀ ∈ t.rows) (hk : key r = key r₀)
    (f : ρ → τ) (hf : f r = f r₀) : (t.put r).rows.map f = t.rows.map f := by
  rw [put_rows_old hr hk, List.map_map]
  apply List.map_congr_left
  intro x hx
  by_cases hxk : key x = key r
  · have hxr : x = r₀ := t.eq_of_key hx hr (hxk.trans hk)
    rw [Function.comp_apply, if_pos hxk, hf, hxr]
  · simp only [Function.comp_apply, hxk, ↓reduceIte]

theorem exists_put {τ : Type} {t : Table κ ρ key} {r x : ρ} {f : ρ → τ}
    (hf : ∀ y ∈ t.rows, key y = key r → f y = f r) (hx : x ∈ t.rows) :
    ∃ y ∈ (t.put r).rows, key y = key x ∧ f y = f x := by
  by_cases hk : key x = key r
  · exact ⟨r, mem_put.mpr (.inl rfl), hk.symm, (hf x hx hk).symm⟩
  · exact ⟨x, mem_put.mpr (.inr ⟨hx, hk⟩), rfl, rfl⟩

section Part

variable {p : ρ → Bool}

theorem get?_keep (t : Table κ ρ key) (p : ρ → Bool) (k : κ) : (t.keep p).get? k = (t.get? k).filter p := by
  ext x
  rw [Option.filter_eq_some_iff, get?_eq_some, get?_eq_some, mem_keep, and_right_comm]

theorem get?_keep_of {t : Table κ ρ key} {k : κ} (h : ∀ x ∈ t.rows, key x = k → p x = true) :
    (t.keep p).get? k = t.get? k := by
  rw [get?_keep]
  cases hg : t.get? k with
  | none => rfl
  | some x =>
    obtain ⟨hx, hk⟩ := get?_eq_some.mp hg
    rw [Option.filter_some, h x hx hk, if_pos rfl]

theorem filter_replace {rows : List ρ} {r : ρ} (hkey : ∀ x ∈ rows, key x = key r → p x = p r) :
    (rows.map (fun x => if key x = key r then r else x)).filter p =
      (rows.filter p).map (fun x => if key x = key r then r else x) := by
  induction rows with
  | nil => rfl
  | cons x rows ih =>
    have hrows := ih fun y hy => hkey y (List.mem_cons_of_mem x hy)
    by_cases hx : key x = key r
    · have hpx := hkey x List.mem_cons_self hx
      cases hpr : p r <;> simp [hx, hpr, hpx, hrows]
    · cases hpx : p x <;> simp [hx, hpx, hrows]

theorem get?_amend (t : Table κ ρ key) {f : ρ → ρ} (hf : ∀ r, key (f r) = key r) (k : κ) :
    (t.amend f hf).get? k = (t.get? k).map f := by
  simp only [get?, amend, List.find?_map, Function.comp_def, hf]

theorem keep_put {t : Table κ ρ key} {r : ρ} (hr : p r = true)
    (hkey : ∀ x ∈ t.rows, key x = key r → p x = true) :
    (t.put r).keep p = (t.keep p).put r := by
  apply ext_rows
  change (t.put r).rows.filter p = _
  cases h : t.get? (key r) with
  | none =>
    have hnone : (t.keep p).get? (key r) = none := by rw [get?_keep, h, Option.filter_none]
    rw [put_rows_new h, put_rows_new hnone, List.filter_append]
    simp [keep, hr]
  | some r₀ =>
    obtain ⟨hmem, he⟩ := get?_eq_some.mp h
    have hkept : r₀ ∈ (t.keep p).rows := mem_keep.mpr ⟨hmem, hkey r₀ hmem he⟩
    rw [put_rows_old hmem he.symm, put_rows_old hkept he.symm, filter_replace]
    · rfl
    · intro x hx hxk
      rw [hkey x hx hxk, hr]

theorem keep_put_other {t : Table κ ρ key} {r : ρ} (hr : p r = false)
    (hkey : ∀ x ∈ t.rows, key x = key r → p x = false) : (t.put r).keep p = t.keep p := by
  apply ext_rows
  change (t.put r).rows.filter p = t.rows.filter p
  cases h : t.get? (key r) with
  | none => simp [put_rows_new h, hr]
  | some r₀ =>
    obtain ⟨hmem, he⟩ := get?_eq_some.mp h
    rw [put_rows_old hmem he.symm, filter_replace fun x hx hxk => (hkey x hx hxk).trans hr.symm]
    refine (List.map_congr_left fun x hx => if_neg fun hxk => ?_).trans (List.map_id _)
    obtain ⟨hx, hpx⟩ := List.mem_filter.mp hx
    rw [hkey x hx hxk] at hpx
    cases hpx

end Part

end Table

section Queries

variable {ρ : Type} {p q : ρ → Bool}

theorem and_eq_of_imp (h : ∀ x, q x = true → p x = true) : (fun x => p x && q x) = q := by
  funext x
  cases hq : q x with
  | false => rw [Bool.and_false]
  | true => rw [h x hq, Bool.and_true]

theorem find?_part (h : ∀ x, q x = true → p x = true) (rows : List ρ) :
    (rows.filter p).find? q = rows.find? q := by
  rw [List.find?_filter]
  simp only [← Bool.and_eq_true, Bool.decide_eq_true, and_eq_of_imp h]

theorem any_part {rows : List ρ} (h : ∀ x ∈ rows, q x = true → p x = true) :
    (rows.filter p).any q = rows.any q := by
  rw [Bool.eq_iff_iff, List.any_eq_true, List.any_eq_true]
  constructor
  · rintro ⟨x, hx, hq⟩
    exact ⟨x, (List.mem_filter.mp hx).1, hq⟩
  · rintro ⟨x, hx, hq⟩
    exact ⟨x, List.mem_filter.mpr ⟨hx, h x hx hq⟩, hq⟩

theorem filter_part (h : ∀ x, q x = true → p x = true) (rows : List ρ) :
    (rows.filter p).filter q = rows.filter q := by
  simp only [List.filter_filter, Bool.and_comm (q _), and_eq_of_imp h]

theorem option_filter_part (h : ∀ x, q x = true → p x = true) (o : Option ρ) :
    (o.filter p).filter q = o.filter q := by
  rw [Option.filter_filter, and_eq_of_imp h]

theorem option_any_part (h : ∀ x, q x = true → p x = true) (o : Option ρ) :
    (o.filter p).any q = o.any q := by
  rw [Option.any_filter, and_eq_of_imp h]

end Queries

end TangraTicket.KeyedTable
