import Mathlib.Data.Int.Notation
import Mathlib.Data.Option.Basic
import Mathlib.Logic.Function.Basic
import Mathlib.Order.Defs.LinearOrder
import Mathlib.Algebra.Order.Ring.Int

/-!
A cache of what is made from rows, by key and version. As long as a row only ever gets a higher
version and a new key is one the cache does not know, what it holds under a row's version is what
that row makes.
-/

namespace TangraTicket.VersionedCache

open Function

variable {K ρ α : Type} {rows : K → Option ρ} {cache : K → Option α} {version : ρ → ℤ}
  {stamp : α → ℤ} {make : ρ → Option α}

def Current (version : ρ → ℤ) (stamp : α → ℤ) (make : ρ → Option α) (rows : K → Option ρ)
    (cache : K → Option α) : Prop :=
  ∀ k p row, cache k = some p → rows k = some row → stamp p ≤ version row ∧
    (stamp p = version row → make row = some p)

theorem Current.of_rows (h : Current version stamp make rows cache) {rows' : K → Option ρ}
    (hrows : ∀ k row, rows' k = some row → rows k = some row) : Current version stamp make rows' cache :=
  fun k p row hp hrow => h k p row hp (hrows k row hrow)

theorem Current.of_cache (h : Current version stamp make rows cache) {cache' : K → Option α}
    (hcache : ∀ k p, cache' k = some p → cache k = some p) : Current version stamp make rows cache' :=
  fun k p row hp hrow => h k p row (hcache k p hp) hrow

variable [DecidableEq K]

theorem Current.insert (h : Current version stamp make rows cache) {k : K} (hk : cache k = none) (row : ρ) :
    Current version stamp make (update rows k (some row)) cache := by
  intro k' p row' hp hrow
  by_cases hkk : k' = k
  · rw [hkk, hk] at hp
    cases hp
  · rw [update_of_ne hkk] at hrow
    exact h k' p row' hp hrow

theorem Current.advance (h : Current version stamp make rows cache) {k : K} {old new : ρ}
    (hold : rows k = some old) (hversion : version old < version new) :
    Current version stamp make (update rows k (some new)) cache := by
  intro k' p row' hp hrow
  by_cases hkk : k' = k
  · subst hkk
    rw [update_self, Option.some.injEq] at hrow
    subst hrow
    have hle := (h k' p old hp hold).1
    constructor
    · omega
    · intro heq
      omega
  · rw [update_of_ne hkk] at hrow
    exact h k' p row' hp hrow

theorem Current.fill (h : Current version stamp make rows cache) {k : K} {row : ρ} {p : α}
    (hmake : make row = some p) (hstamp : stamp p = version row)
    (hrow : ∀ row', rows k = some row' → version row < version row' ∨ row' = row) :
    Current version stamp make rows (update cache k (some p)) := by
  intro k' p' row' hp hrow'
  by_cases hkk : k' = k
  · subst hkk
    rw [update_self, Option.some.injEq] at hp
    subst hp
    rcases hrow row' hrow' with hlt | rfl
    · constructor
      · omega
      · intro heq
        omega
    · exact ⟨hstamp.le, fun _ => hmake⟩
  · rw [update_of_ne hkk] at hp
    exact h k' p' row' hp hrow'

end TangraTicket.VersionedCache
