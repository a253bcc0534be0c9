import Mathlib.Data.List.Induction
import TangraTicket.Library.KeyedTable

/-!
Sequences of writes to a table whose rows refer to one another by key: what they leave under a key,
and when they leave every reference with the row it refers to.
-/

namespace TangraTicket.ReadCommitted

open KeyedTable

variable {κ ρ : Type} [DecidableEq κ] {key : ρ → κ}

inductive Write (κ ρ : Type)
  | insert (r : ρ)
  | update (r : ρ)
  | remove (k : κ)

def Write.target (key : ρ → κ) : Write κ ρ → κ
  | .insert r | .update r => key r
  | .remove k => k

def Write.row? : Write κ ρ → Option ρ
  | .insert r | .update r => some r
  | .remove _ => none

def write (t : Table κ ρ key) : Write κ ρ → Table κ ρ key
  | .insert r | .update r => t.put r
  | .remove k => t.keep fun r => key r ≠ k

def writeAll (t : Table κ ρ key) (ws : List (Write κ ρ)) : Table κ ρ key := ws.foldl write t

theorem get?_write (t : Table κ ρ key) (w : Write κ ρ) (k : κ) :
    (write t w).get? k = if k = w.target key then w.row? else t.get? k := by
  cases w with
  | insert r => exact t.get?_put r k
  | update r => exact t.get?_put r k
  | remove k' =>
    simp only [write, Write.target, Write.row?, Table.get?_keep]
    cases hg : t.get? k with
    | none => exact (ite_self none).symm
    | some r =>
      obtain ⟨-, rfl⟩ := Table.get?_eq_some.mp hg
      by_cases hk : key r = k' <;> simp [hk]

def left (key : ρ → κ) (ws : List (Write κ ρ)) (k : κ) : Option (Option ρ) :=
  (ws.reverse.find? fun w => w.target key = k).map Write.row?

theorem left_concat (ws : List (Write κ ρ)) (w : Write κ ρ) (k : κ) :
    left key (ws ++ [w]) k = if k = w.target key then some w.row? else left key ws k := by
  by_cases hk : w.target key = k
  · simp [left, hk]
  · simp [left, hk, Ne.symm hk]

theorem left_eq_some {ws : List (Write κ ρ)} {k : κ} {o : Option ρ} (h : left key ws k = some o) :
    ∃ w ∈ ws, w.target key = k ∧ w.row? = o := by
  obtain ⟨w, hw, ho⟩ := Option.map_eq_some_iff.mp h
  have hmem := List.mem_of_find?_eq_some hw
  exact ⟨w, List.mem_reverse.mp hmem, by simpa using List.find?_some hw, ho⟩

theorem left_eq_none {ws : List (Write κ ρ)} {k : κ} :
    left key ws k = none ↔ ∀ w ∈ ws, w.target key ≠ k := by
  simp [left]

theorem get?_writeAll (t : Table κ ρ key) (ws : List (Write κ ρ)) (k : κ) :
    (writeAll t ws).get? k = (left key ws k).getD (t.get? k) := by
  induction ws using List.reverseRecOn with
  | nil => rfl
  | append_singleton ws w ih =>
    have hw : writeAll t (ws ++ [w]) = write (writeAll t ws) w := by simp [writeAll]
    rw [hw, get?_write, left_concat, ih]
    split_ifs <;> rfl

theorem writeAll_append (t : Table κ ρ key) (ws ws' : List (Write κ ρ)) :
    writeAll t (ws ++ ws') = writeAll (writeAll t ws) ws' := List.foldl_append

theorem get?_writeAll_some {t : Table κ ρ key} {ws : List (Write κ ρ)} {k : κ} {r : ρ}
    (h : (writeAll t ws).get? k = some r) :
    (∃ w ∈ ws, w.row? = some r) ∨ t.get? k = some r ∧ ∀ w ∈ ws, w.target key ≠ k := by
  rw [get?_writeAll] at h
  cases hl : left key ws k with
  | some o =>
    obtain ⟨w, hw, -, hrow⟩ := left_eq_some hl
    rw [hl] at h
    exact .inl ⟨w, hw, hrow.trans h⟩
  | none =>
    rw [hl] at h
    exact .inr ⟨h, left_eq_none.mp hl⟩

theorem get?_writeAll_of_untouched {t : Table κ ρ key} {ws : List (Write κ ρ)} {k : κ}
    (h : ∀ w ∈ ws, w.target key ≠ k) : (writeAll t ws).get? k = t.get? k := by
  rw [get?_writeAll, left_eq_none.mpr h]
  rfl

theorem get?_writeAll_of_puts {t : Table κ ρ key} {ws : List (Write κ ρ)}
    (hws : ∀ w ∈ ws, w.row? ≠ none) {k : κ} (h : t.get? k ≠ none) : (writeAll t ws).get? k ≠ none := by
  rw [get?_writeAll]
  cases hl : left key ws k with
  | some o =>
    obtain ⟨w, hw, -, hrow⟩ := left_eq_some hl
    exact hrow ▸ hws w hw
  | none => exact h

section References

variable (parents : ρ → List κ)

/-- Every row a row refers to is there. -/
def Closed (t : Table κ ρ key) : Prop := ∀ k r, t.get? k = some r → ∀ k' ∈ parents r, t.get? k' ≠ none

structure Lawful (t : Table κ ρ key) (ws : List (Write κ ρ)) : Prop where
  closed : Closed parents t → Closed parents (writeAll t ws)
  named : ∀ r', .update r' ∈ ws → ∀ k' ∈ parents r',
    (∃ r, t.get? (key r') = some r ∧ k' ∈ parents r) ∨ ∃ r, .insert r ∈ ws ∧ k' ∈ parents r

variable {parents}

theorem Lawful.append {t : Table κ ρ key} {ws ws' : List (Write κ ρ)} (h : Lawful parents t ws)
    (h' : Lawful parents (writeAll t ws) ws') : Lawful parents t (ws ++ ws') where
  closed ht := by
    rw [writeAll_append]
    exact h'.closed (h.closed ht)
  named r' hr' k' hk' := by
    have hinsert : ∀ r, .insert r ∈ ws ∨ .insert r ∈ ws' → k' ∈ parents r →
        ∃ r, .insert r ∈ ws ++ ws' ∧ k' ∈ parents r := fun r hr hk => ⟨r, List.mem_append.mpr hr, hk⟩
    have hfirst : ∀ r, .update r ∈ ws → k' ∈ parents r →
        (∃ r₀, t.get? (key r) = some r₀ ∧ k' ∈ parents r₀) ∨
        ∃ r, .insert r ∈ ws ++ ws' ∧ k' ∈ parents r := fun r hr hk =>
      (h.named r hr k' hk).imp_right fun ⟨r₁, hr₁, hk₁⟩ => hinsert r₁ (.inl hr₁) hk₁
    rcases List.mem_append.mp hr' with hr' | hr'
    · exact hfirst r' hr' hk'
    · obtain ⟨r, hr, hk⟩ | ⟨r, hr, hk⟩ := h'.named r' hr' k' hk'
      · obtain ⟨w, hw, hrow⟩ | ⟨hold, -⟩ := get?_writeAll_some hr
        · have hkey := (Table.get?_eq_some.mp hr).2
          cases w with
          | insert r₁ =>
            obtain rfl := Option.some.inj hrow
            exact .inr (hinsert r₁ (.inl hw) hk)
          | update r₁ =>
            obtain rfl := Option.some.inj hrow
            exact hkey ▸ hfirst r₁ hw hk
          | remove k => cases hrow
        · exact .inl ⟨r, hold, hk⟩
      · exact .inr (hinsert r (.inr hr) hk)

theorem Lawful.nil (t : Table κ ρ key) : Lawful parents t [] := ⟨id, nofun⟩

theorem lawful_of_puts {t : Table κ ρ key} {ws : List (Write κ ρ)} (hws : ∀ w ∈ ws, w.row? ≠ none)
    (hnew : Closed parents t → ∀ w ∈ ws, ∀ r, w.row? = some r → ∀ k' ∈ parents r,
      (writeAll t ws).get? k' ≠ none)
    (hnamed : ∀ r', .update r' ∈ ws → ∃ r, t.get? (key r') = some r ∧ parents r' ⊆ parents r) :
    Lawful parents t ws where
  closed ht := by
    intro k r hr k' hk'
    obtain ⟨w, hw, hrow⟩ | ⟨hold, -⟩ := get?_writeAll_some hr
    · exact hnew ht w hw r hrow k' hk'
    · exact get?_writeAll_of_puts hws (ht k r hold k' hk')
  named r' hr' k' hk' := by
    obtain ⟨r, hr, hsub⟩ := hnamed r' hr'
    exact .inl ⟨r, hr, hsub hk'⟩

end References

end TangraTicket.ReadCommitted
