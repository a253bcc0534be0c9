import Mathlib.Data.List.Infix
import TangraTicket.Library.GoScalars

/-!
Splitting, joining and searching text: `strings.Split`, `strings.Fields` followed by a join with
single blanks, and `strings.Contains`, on characters.
-/

namespace TangraTicket.GoText

theorem split_eq_splitOnP (sep : UInt8) (s : GoString) : split sep s = s.splitOnP (· == sep) := by
  induction s with
  | nil => rfl
  | cons b s ih =>
    rw [split, ih, List.splitOnP_cons_eq_if_modifyHead]
    cases hs : List.splitOnP (· == sep) s with
    | nil => exact absurd hs (List.splitOnP_ne_nil _ _)
    | cons w ws => simp

theorem split_join {sep : UInt8} {words : List GoString} (hne : words ≠ [])
    (hwords : ∀ w ∈ words, sep ∉ w) :
    split sep (join words [sep]) = words := by
  rw [split_eq_splitOnP]
  exact List.splitOn_intercalate sep hwords hne

theorem splitPieces_eq_splitOnP (sep : ℕ → Bool) (ps : List Piece) :
    splitPieces sep ps = ps.splitOnP fun p => sep p.rune := by
  induction ps with
  | nil => rfl
  | cons p ps ih =>
    rw [splitPieces, ih, List.splitOnP_cons_eq_if_modifyHead]
    cases hs : List.splitOnP (fun p => sep p.rune) ps with
    | nil => exact absurd hs (List.splitOnP_ne_nil _ _)
    | cons w ws => simp

theorem splitOnP_map {α β : Type} (f : α → β) (p : β → Bool) (l : List α) :
    (l.map f).splitOnP p = (l.splitOnP fun x => p (f x)).map (List.map f) := by
  induction l with
  | nil => rfl
  | cons x l ih =>
    rw [List.map_cons, List.splitOnP_cons_eq_if_modifyHead, List.splitOnP_cons_eq_if_modifyHead, ih]
    split_ifs
    · rfl
    · cases hs : List.splitOnP (fun x => p (f x)) l with
      | nil => exact absurd hs (List.splitOnP_ne_nil _ _)
      | cons w ws => rfl

theorem of_mem_splitOnP {α : Type} {p : α → Bool} {l w : List α} (hw : w ∈ l.splitOnP p) {x : α}
    (hx : x ∈ w) :
    x ∈ l ∧ p x = false := by
  induction l generalizing w with
  | nil =>
    rw [List.mem_singleton.mp hw] at hx
    cases hx
  | cons y l ih =>
    rw [List.splitOnP_cons_eq_if_modifyHead] at hw
    split_ifs at hw with hy
    · rcases List.mem_cons.mp hw with rfl | hw
      · cases hx
      · exact (ih hw hx).imp_left (List.mem_cons_of_mem y)
    · cases hs : List.splitOnP p l with
      | nil => exact absurd hs (List.splitOnP_ne_nil _ _)
      | cons v vs =>
        rw [hs, List.modifyHead_cons] at hw
        rcases List.mem_cons.mp hw with rfl | hw
        · rcases List.mem_cons.mp hx with rfl | hx
          · exact ⟨List.mem_cons_self, by simpa using hy⟩
          · exact (ih (by rw [hs]; exact List.mem_cons_self) hx).imp_left (List.mem_cons_of_mem y)
        · exact (ih (by rw [hs]; exact List.mem_cons_of_mem v hw) hx).imp_left (List.mem_cons_of_mem y)

def wordsOf (rs : List ℕ) : List (List ℕ) := (rs.splitOnP isSpace).filter fun w => !w.isEmpty

def spacedOut (ws : List (List ℕ)) : List ℕ := List.intercalate [0x20] ws

def collapsed (rs : List ℕ) : List ℕ := spacedOut (wordsOf rs)

structure Word (w : List ℕ) : Prop where
  nonempty : w ≠ []
  solid : ∀ r ∈ w, isSpace r = false

section Words

variable {rs : List ℕ} {ws : List (List ℕ)}

theorem word_of_mem {w : List ℕ} (h : w ∈ wordsOf rs) : Word w := by
  obtain ⟨hw, hne⟩ := List.mem_filter.mp h
  exact ⟨by simpa using hne, fun r hr => (of_mem_splitOnP hw hr).2⟩

theorem subset_of_mem_wordsOf {w : List ℕ} (h : w ∈ wordsOf rs) : w ⊆ rs :=
  fun _ hr => (of_mem_splitOnP (List.mem_filter.mp h).1 hr).1

theorem spacedOut_cons_cons (w w' : List ℕ) (ws : List (List ℕ)) :
    spacedOut (w :: w' :: ws) = w ++ 0x20 :: spacedOut (w' :: ws) := by
  rw [spacedOut, List.intercalate_cons_cons, List.append_assoc]
  rfl

theorem spacedOut_singleton (w : List ℕ) : spacedOut [w] = w := by simp [spacedOut]

theorem wordsOf_spacedOut (h : ∀ w ∈ ws, Word w) : wordsOf (spacedOut ws) = ws := by
  induction ws with
  | nil => rfl
  | cons w ws ih =>
    obtain ⟨hw, hws⟩ := List.forall_mem_cons.mp h
    have hkeep : ([w].filter fun w => !w.isEmpty) = [w] := by simp [hw.nonempty]
    cases ws with
    | nil => rw [spacedOut_singleton, wordsOf, List.splitOnP_eq_singleton hw.solid, hkeep]
    | cons w' ws =>
      rw [spacedOut_cons_cons, wordsOf, List.splitOnP_append_cons _ _ (by decide),
        List.splitOnP_eq_singleton hw.solid, List.filter_append, hkeep]
      exact congrArg (w :: ·) (ih hws)

theorem collapsed_collapsed (rs : List ℕ) : collapsed (collapsed rs) = collapsed rs := by
  rw [collapsed, collapsed, wordsOf_spacedOut fun _ hw => word_of_mem hw]

theorem mem_spacedOut {r : ℕ} (h : r ∈ spacedOut ws) : r = 0x20 ∨ ∃ w ∈ ws, r ∈ w := by
  induction ws with
  | nil => cases h
  | cons w ws ih =>
    cases ws with
    | nil =>
      rw [spacedOut_singleton] at h
      exact .inr ⟨w, List.mem_cons_self, h⟩
    | cons w' ws =>
      rw [spacedOut_cons_cons, List.mem_append, List.mem_cons] at h
      rcases h with h | h | h
      · exact .inr ⟨w, List.mem_cons_self, h⟩
      · exact .inl h
      · exact (ih h).imp_right fun ⟨v, hv, hr⟩ => ⟨v, List.mem_cons_of_mem w hv, hr⟩

theorem of_mem_collapsed {r : ℕ} (h : r ∈ collapsed rs) : r = 0x20 ∨ r ∈ rs ∧ isSpace r = false := by
  rcases mem_spacedOut h with h | ⟨w, hw, hr⟩
  · exact .inl h
  · exact .inr ⟨subset_of_mem_wordsOf hw hr, (word_of_mem hw).solid r hr⟩

def room (ws : List (List ℕ)) : ℕ := (ws.map fun w => w.length + 1).sum

theorem room_splitOnP (rs : List ℕ) : room (rs.splitOnP isSpace) = rs.length + 1 := by
  induction rs with
  | nil => rfl
  | cons r rs ih =>
    rw [List.splitOnP_cons_eq_if_modifyHead]
    split_ifs
    · rw [room, List.map_cons, List.sum_cons, ← room, ih, List.length_nil, List.length_cons]
      omega
    · cases hs : rs.splitOnP isSpace with
      | nil => exact absurd hs (List.splitOnP_ne_nil _ _)
      | cons w ws =>
        rw [hs, room, List.map_cons, List.sum_cons] at ih
        rw [List.modifyHead_cons, room, List.map_cons, List.sum_cons, List.length_cons, List.length_cons]
        omega

theorem length_spacedOut (ws : List (List ℕ)) : (spacedOut ws).length ≤ room ws - 1 := by
  induction ws with
  | nil => exact Nat.zero_le _
  | cons w ws ih =>
    rw [room, List.map_cons, List.sum_cons, ← room]
    cases ws with
    | nil =>
      rw [spacedOut_singleton]
      omega
    | cons w' ws =>
      have hpos : 0 < room (w' :: ws) := by
        rw [room, List.map_cons, List.sum_cons]
        omega
      rw [spacedOut_cons_cons, List.length_append, List.length_cons]
      omega

theorem room_filter_le (p : List ℕ → Bool) (ws : List (List ℕ)) : room (ws.filter p) ≤ room ws := by
  induction ws with
  | nil => exact le_refl _
  | cons w ws ih =>
    rw [List.filter_cons]
    split_ifs
    · exact Nat.add_le_add_left ih _
    · exact ih.trans (Nat.le_add_left _ _)

theorem length_collapsed_le (rs : List ℕ) : (collapsed rs).length ≤ rs.length := by
  have hsub : room (wordsOf rs) ≤ room (rs.splitOnP isSpace) := room_filter_le _ _
  have hwords := length_spacedOut (wordsOf rs)
  rw [room_splitOnP] at hsub
  rw [collapsed]
  omega

theorem mem_splitOnP {α : Type} {p : α → Bool} {l : List α} {x : α} (hx : x ∈ l) (hp : p x = false) :
    ∃ w ∈ l.splitOnP p, x ∈ w := by
  induction l with
  | nil => cases hx
  | cons y l ih =>
    rw [List.splitOnP_cons_eq_if_modifyHead]
    rcases List.mem_cons.mp hx with rfl | hx
    · rw [if_neg (by simp [hp])]
      cases hs : List.splitOnP p l with
      | nil => exact absurd hs (List.splitOnP_ne_nil _ _)
      | cons w ws => exact ⟨x :: w, List.mem_cons_self, List.mem_cons_self⟩
    · obtain ⟨w, hw, hxw⟩ := ih hx
      split_ifs
      · exact ⟨w, List.mem_cons_of_mem _ hw, hxw⟩
      · cases hs : List.splitOnP p l with
        | nil => exact absurd hs (List.splitOnP_ne_nil _ _)
        | cons v vs =>
          rw [hs] at hw
          rcases List.mem_cons.mp hw with rfl | hw
          · exact ⟨y :: w, List.mem_cons_self, List.mem_cons_of_mem y hxw⟩
          · exact ⟨w, List.mem_cons_of_mem _ hw, hxw⟩

theorem mem_spacedOut_of_mem {w : List ℕ} {r : ℕ} (hw : w ∈ ws) (hr : r ∈ w) : r ∈ spacedOut ws := by
  induction ws with
  | nil => cases hw
  | cons v ws ih =>
    cases ws with
    | nil => rwa [spacedOut_singleton, ← List.mem_singleton.mp hw]
    | cons v' ws =>
      rw [spacedOut_cons_cons, List.mem_append, List.mem_cons]
      rcases List.mem_cons.mp hw with rfl | hw
      · exact .inl hr
      · exact .inr (.inr (ih hw))

theorem mem_collapsed {r : ℕ} (hr : r ∈ rs) (hsolid : isSpace r = false) : r ∈ collapsed rs := by
  obtain ⟨w, hw, hrw⟩ := mem_splitOnP hr hsolid
  have hne : w ≠ [] := List.ne_nil_of_mem hrw
  exact mem_spacedOut_of_mem (List.mem_filter.mpr ⟨hw, by simpa using hne⟩) hrw

theorem collapsed_ne_of_double {front back : List ℕ} {r r' : ℕ} (hr : isSpace r = true)
    (hr' : isSpace r' = true) :
    collapsed (front ++ r :: r' :: back) ≠ front ++ r :: r' :: back := by
  intro h
  have hwords : wordsOf (front ++ r :: r' :: back) = wordsOf front ++ wordsOf back := by
    rw [wordsOf, List.splitOnP_append_cons _ _ hr, List.splitOnP_cons_eq_if_modifyHead, if_pos hr',
      List.filter_append]
    rfl
  have hlength := length_spacedOut (wordsOf (front ++ r :: r' :: back))
  have hfront : room (wordsOf front) ≤ front.length + 1 :=
    (room_filter_le _ _).trans_eq (room_splitOnP front)
  have hback : room (wordsOf back) ≤ back.length + 1 := (room_filter_le _ _).trans_eq (room_splitOnP back)
  have hroom : room (wordsOf front ++ wordsOf back) = room (wordsOf front) + room (wordsOf back) := by
    rw [room, List.map_append, List.sum_append]
    rfl
  rw [← collapsed, h, hwords, hroom, List.length_append, List.length_cons, List.length_cons] at hlength
  omega

theorem Scalars.collapsed (h : Scalars rs) : Scalars (collapsed rs) := by
  intro r hr
  rcases of_mem_collapsed hr with rfl | ⟨hr, -⟩
  · decide
  · exact h r hr

end Words

theorem fields_encode {rs : List ℕ} (h : Scalars rs) : fields (encode rs) = (wordsOf rs).map encode := by
  have hpieces : splitPieces isSpace (pieces (encode rs)) =
      (rs.splitOnP isSpace).map (List.map fun r => ⟨r, encodeRune r, true⟩) := by
    rw [splitPieces_eq_splitOnP, pieces_encode h, splitOnP_map]
  have hempty : ∀ w : List ℕ, (w.map fun r => (⟨r, encodeRune r, true⟩ : Piece)).isEmpty = w.isEmpty := by
    intro w
    cases w <;> rfl
  rw [fields, fieldsFunc, hpieces, wordsOf, List.filter_map, List.map_map]
  simp only [Function.comp_def, hempty, joinPieces_map_encodeRune]

theorem join_map_encode (ws : List (List ℕ)) : join (ws.map encode) " " = encode (spacedOut ws) := by
  induction ws with
  | nil => rfl
  | cons w ws ih =>
    cases ws with
    | nil => rw [spacedOut_singleton]; simp [join]
    | cons w' ws =>
      rw [spacedOut_cons_cons, encode_append, encode_cons, ← ih, join, List.map_cons, List.map_cons,
        List.intercalate_cons_cons, List.append_assoc]
      rfl

theorem join_fields_encode {rs : List ℕ} (h : Scalars rs) :
    join (fields (encode rs)) " " = encode (collapsed rs) := by
  rw [fields_encode h, join_map_encode, collapsed]

theorem infix_map_iff {α β : Type} {f : α → β} {w : List β} {l : List α} :
    w <:+: l.map f ↔ ∃ piece, piece <:+: l ∧ piece.map f = w := by
  constructor
  · rintro ⟨before, after, heq⟩
    obtain ⟨front, back, rfl, hfront, -⟩ := List.map_eq_append_iff.mp heq.symm
    obtain ⟨first, piece, rfl, -, hpiece⟩ := List.map_eq_append_iff.mp hfront
    exact ⟨piece, ⟨first, back, rfl⟩, hpiece⟩
  · rintro ⟨piece, h, rfl⟩
    exact h.map f

theorem contains_iff {s sub : GoString} : contains s sub = true ↔ sub <:+: s := by
  rw [contains, List.any_eq_true, List.infix_iff_prefix_suffix]
  constructor
  · rintro ⟨t, ht, hsub⟩
    exact ⟨t, List.isPrefixOf_iff_prefix.mp hsub, (List.mem_tails _ _).mp ht⟩
  · rintro ⟨t, hsub, ht⟩
    exact ⟨t, (List.mem_tails _ _).mpr ht, List.isPrefixOf_iff_prefix.mpr hsub⟩

end TangraTicket.GoText
