import Mathlib.Data.List.Infix

/-!
The `LIKE` of SQL over any alphabet: one symbol for any text, one for any single character, one that
takes the next character literally.
-/

namespace TangraTicket.SqlLike

variable {α : Type} [DecidableEq α]

structure Symbols (α : Type) where
  any : α
  one : α
  escape : α
  any_ne_escape : any ≠ escape

inductive Item (α : Type)
  | any
  | one
  | lit (c : α)

variable (y : Symbols α)

def items : List α → Option (List (Item α))
  | [] => some []
  | c :: cs =>
    if c = y.escape then
      match cs with
      | [] => none
      | d :: ds => (items ds).map (.lit d :: ·)
    else (items cs).map ((if c = y.any then .any else if c = y.one then .one else .lit c) :: ·)

def accepts : List (Item α) → List α → Bool
  | [], text => text.isEmpty
  | .any :: ps, text => text.tails.any (accepts ps)
  | .one :: ps, text =>
    match text with
    | [] => false
    | _ :: text => accepts ps text
  | .lit c :: ps, text =>
    match text with
    | [] => false
    | d :: text => d = c && accepts ps text

def like (text pattern : List α) : Option Bool := (items y pattern).map (accepts · text)

def quoted (text : List α) : List α :=
  text.flatMap fun c => if c = y.escape ∨ c = y.any ∨ c = y.one then [y.escape, c] else [c]

theorem items_of_ne {c : α} (h : c ≠ y.escape) (cs : List α) :
    items y (c :: cs) = (items y cs).map
      ((if c = y.any then .any else if c = y.one then .one else .lit c) :: ·) := by
  rw [items.eq_def]
  exact if_neg h

theorem items_escape (c : α) (cs : List α) :
    items y (y.escape :: c :: cs) = (items y cs).map (.lit c :: ·) := by
  rw [items]
  exact if_pos rfl

theorem items_quoted (text pattern : List α) :
    items y (quoted y text ++ pattern) = (items y pattern).map (text.map .lit ++ ·) := by
  induction text with
  | nil => simp [quoted]
  | cons c text ih =>
    have hcons : quoted y (c :: text) ++ pattern =
        (if c = y.escape ∨ c = y.any ∨ c = y.one then [y.escape, c] else [c]) ++
        (quoted y text ++ pattern) :=
      List.append_assoc _ _ _
    rw [hcons]
    by_cases hspecial : c = y.escape ∨ c = y.any ∨ c = y.one
    · rw [if_pos hspecial, List.cons_append, List.cons_append, List.nil_append, items_escape]
      simp [ih, Function.comp_def]
    · simp only [not_or] at hspecial
      rw [if_neg (by simpa using hspecial), List.cons_append, List.nil_append, items_of_ne y hspecial.1,
        if_neg hspecial.2.1, if_neg hspecial.2.2]
      simp [ih, Function.comp_def]

theorem accepts_lits (cs : List α) (ps : List (Item α)) (text : List α) :
    accepts (cs.map .lit ++ ps) text = true ↔ ∃ rest, text = cs ++ rest ∧ accepts ps rest = true := by
  induction cs generalizing text with
  | nil => simp
  | cons c cs ih =>
    rw [List.map_cons, List.cons_append, accepts.eq_def]
    cases text with
    | nil => simp
    | cons d text => simp [ih, and_assoc]

theorem accepts_any (text : List α) : accepts [.any] text = true := by
  rw [accepts, List.any_eq_true]
  exact ⟨[], (List.mem_tails _ _).mpr List.nil_suffix, rfl⟩

theorem like_quoted (text word : List α) :
    like y text (y.any :: (quoted y word ++ [y.any])) = some (decide (word <:+: text)) := by
  have hend : items y [y.any] = some [.any] := by simp [items, y.any_ne_escape]
  have hitems : items y (y.any :: (quoted y word ++ [y.any])) =
      some (.any :: (word.map .lit ++ [.any])) := by
    rw [items_of_ne y y.any_ne_escape, if_pos rfl, items_quoted, hend]
    rfl
  rw [like, hitems, Option.map_some, Option.some_inj, Bool.eq_iff_iff, decide_eq_true_eq, accepts,
    List.any_eq_true, List.infix_iff_prefix_suffix]
  constructor
  · rintro ⟨rest, hrest, haccepts⟩
    obtain ⟨after, rfl, -⟩ := (accepts_lits word [.any] rest).mp haccepts
    exact ⟨word ++ after, List.prefix_append word after, (List.mem_tails _ _).mp hrest⟩
  · rintro ⟨rest, ⟨after, rfl⟩, hrest⟩
    exact ⟨word ++ after, (List.mem_tails _ _).mpr hrest,
      (accepts_lits word [.any] _).mpr ⟨after, rfl, accepts_any after⟩⟩

end TangraTicket.SqlLike
