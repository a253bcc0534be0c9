import Mathlib.Logic.Relation
import TangraTicket.Library.GoCase
import TangraTicket.Library.GoFields
import TangraTicket.Services.Audit

/-!
What redaction hides. Two details that differ only under forbidden keys are redacted to the same
details; what is left has no such key and only short strings, and redacting it again changes
nothing.
-/

namespace TangraTicket.Services.Audit

open GoText

section Redaction

variable [GoLibrary]

/-- A run of the key's characters spells a forbidden word in some letter case. -/
def Forbidden (k : GoString) : Prop :=
  ∃ word ∈ forbidden, ∃ piece, piece <:+: runes k ∧ piece.map GoLibrary.lowerRune = runes word

omit [GoLibrary] in
theorem ascii_of_mem_forbidden : ∀ word ∈ forbidden, Ascii word ∧ word ≠ [] := by
  have htable : (forbidden.all fun word => (word.all fun b => b < 0x80) ∧ word ≠ []) = true := by
    decide +kernel
  intro word hword
  have h := List.all_eq_true.mp htable word hword
  simp only [decide_eq_true_eq, List.all_eq_true] at h
  exact h

theorem forbiddenKey_iff [LowerLaws] {k : GoString} : forbiddenKey k = true ↔ Forbidden k := by
  have hlower : Scalars ((runes k).map GoLibrary.lowerRune) := scalars_lower (scalars_runes k)
  rw [forbiddenKey, List.any_eq_true, Forbidden]
  refine exists_congr fun word => and_congr_right fun hword => ?_
  obtain ⟨hascii, hne⟩ := ascii_of_mem_forbidden word hword
  have hrunes : ∀ c ∈ runes word, c < 0x80 := by
    intro c hc
    rw [runes_ascii hascii] at hc
    obtain ⟨b, hb, rfl⟩ := List.mem_map.mp hc
    exact hascii b hb
  have hword : word = encode (runes word) := by rw [runes_ascii hascii, encode_toNat hascii]
  have hne : runes word ≠ [] := fun h => hne (by rw [hword, h]; rfl)
  rw [contains_iff, toLower, mapRunes_eq, List.filterMap_eq_map']
  conv_lhs => rw [hword]
  rw [encode_infix_encode hne hrunes hlower, infix_map_iff]

inductive Touch : Detail → Detail → Prop
  | entry {k : GoString} (hk : Forbidden k) (v : Detail) (es es' : List (GoString × Detail)) :
      Touch (.map (es ++ (k, v) :: es')) (.map (es ++ es'))
  | value {v v' : Detail} (h : Touch v v') (k : GoString) (es es' : List (GoString × Detail)) :
      Touch (.map (es ++ (k, v) :: es')) (.map (es ++ (k, v') :: es'))
  | item {x x' : Detail} (h : Touch x x') (xs ys : List Detail) : Touch (.list (xs ++ x :: ys))
      (.list (xs ++ x' :: ys))

/-- The details differ in entries under forbidden keys only. -/
def Alike : Detail → Detail → Prop := Relation.EqvGen Touch

theorem guardMap_append (es es' : List (GoString × Detail)) :
    guardMap (es ++ es') = guardMap es ++ guardMap es' := by
  induction es with
  | nil => rw [guardMap, List.nil_append, List.nil_append]
  | cons e es ih =>
    obtain ⟨k, v⟩ := e
    rw [List.cons_append, guardMap, guardMap, ih]
    split_ifs
    · rfl
    · rfl

theorem guardList_append (xs ys : List Detail) : guardList (xs ++ ys) = guardList xs ++ guardList ys := by
  induction xs with
  | nil => rw [guardList, List.nil_append, List.nil_append]
  | cons x xs ih => rw [List.cons_append, guardList, guardList, ih, List.cons_append]

theorem Touch.guardValue_eq [LowerLaws] {t t' : Detail} (h : Touch t t') :
    guardValue t = guardValue t' := by
  induction h with
  | entry hk v es es' =>
    rw [guardValue, guardValue, guardMap_append, guardMap_append, guardMap,
      if_pos (forbiddenKey_iff.mpr hk)]
  | value h k es es' ih =>
    rw [guardValue, guardValue, guardMap_append, guardMap_append, guardMap, guardMap, ih]
  | item h xs ys ih =>
    rw [guardValue, guardValue, guardList_append, guardList_append, guardList, guardList, ih]

theorem Alike.guardValue_eq [LowerLaws] {t t' : Detail} (h : Alike t t') :
    guardValue t = guardValue t' := by
  induction h with
  | rel t t' h => exact h.guardValue_eq
  | refl t => rfl
  | symm t t' h ih => exact ih.symm
  | trans t t' t'' h h' ih ih' => exact ih.trans ih'

mutual

def keys : Detail → List GoString
  | .str _ => []
  | .other _ => []
  | .list xs => keysList xs
  | .map es => keysMap es

def keysList : List Detail → List GoString
  | [] => []
  | x :: xs => keys x ++ keysList xs

def keysMap : List (GoString × Detail) → List GoString
  | [] => []
  | (k, v) :: es => k :: (keys v ++ keysMap es)

end

/-- The way down to a value. -/
inductive Place
  | key (k : GoString)
  | index (i : ℕ)

def under (p : Place) (leaf : List Place × GoString) : List Place × GoString := (p :: leaf.1, leaf.2)

mutual

def strings : Detail → List (List Place × GoString)
  | .str s => [([], s)]
  | .other _ => []
  | .list xs => stringsList 0 xs
  | .map es => stringsMap es

def stringsList : ℕ → List Detail → List (List Place × GoString)
  | _, [] => []
  | i, x :: xs => (strings x).map (under (.index i)) ++ stringsList (i + 1) xs

def stringsMap : List (GoString × Detail) → List (List Place × GoString)
  | [] => []
  | (k, v) :: es => (strings v).map (under (.key k)) ++ stringsMap es

end

mutual

theorem keys_guardValue [LowerLaws] (t : Detail) : ∀ k ∈ keys (guardValue t), ¬ Forbidden k := by
  match t with
  | .str s => rw [guardValue, keys]; exact fun k hk => by cases hk
  | .other text => rw [guardValue, keys]; exact fun k hk => by cases hk
  | .list xs => rw [guardValue, keys]; exact keys_guardList xs
  | .map es => rw [guardValue, keys]; exact keys_guardMap es

theorem keys_guardList [LowerLaws] (xs : List Detail) : ∀ k ∈ keysList (guardList xs), ¬ Forbidden k := by
  match xs with
  | [] => rw [guardList, keysList]; exact fun k hk => by cases hk
  | x :: xs =>
    rw [guardList, keysList]
    exact List.forall_mem_append.mpr ⟨keys_guardValue x, keys_guardList xs⟩

theorem keys_guardMap [LowerLaws] (es : List (GoString × Detail)) :
    ∀ k ∈ keysMap (guardMap es), ¬ Forbidden k := by
  match es with
  | [] => rw [guardMap, keysMap]; exact fun k hk => by cases hk
  | (k, v) :: es =>
    rw [guardMap]
    split_ifs with hk
    · exact keys_guardMap es
    · rw [keysMap]
      exact List.forall_mem_cons.mpr ⟨fun h => hk (forbiddenKey_iff.mpr h),
        List.forall_mem_append.mpr ⟨keys_guardValue v, keys_guardMap es⟩⟩

end

/-- At its place the original has a string that begins so, and this is at most 256 bytes of it. -/
def Cut (original : List (List Place × GoString)) (leaf : List Place × GoString) : Prop :=
  leaf.2.length ≤ 256 ∧ ∃ s, (leaf.1, s) ∈ original ∧ leaf.2 <+: s

section Cuts

omit [GoLibrary]

variable {leaves leaves' original original' : List (List Place × GoString)}

theorem cut_under (h : ∀ leaf ∈ leaves, Cut original leaf) (p : Place) :
    ∀ leaf ∈ leaves.map (under p), Cut (original.map (under p)) leaf := by
  intro leaf hleaf
  obtain ⟨x, hx, rfl⟩ := List.mem_map.mp hleaf
  obtain ⟨hlen, s, hs, hpre⟩ := h x hx
  exact ⟨hlen, s, List.mem_map.mpr ⟨(x.1, s), hs, rfl⟩, hpre⟩

theorem cut_append (h : ∀ leaf ∈ leaves, Cut original leaf) (h' : ∀ leaf ∈ leaves', Cut original' leaf) :
    ∀ leaf ∈ leaves ++ leaves', Cut (original ++ original') leaf := by
  intro leaf hleaf
  rcases List.mem_append.mp hleaf with hleaf | hleaf
  · obtain ⟨hlen, s, hs, hpre⟩ := h leaf hleaf
    exact ⟨hlen, s, List.mem_append_left _ hs, hpre⟩
  · obtain ⟨hlen, s, hs, hpre⟩ := h' leaf hleaf
    exact ⟨hlen, s, List.mem_append_right _ hs, hpre⟩

theorem cut_nil : ∀ leaf ∈ ([] : List (List Place × GoString)), Cut original leaf :=
  fun leaf hleaf => by cases hleaf

end Cuts

mutual

theorem strings_guardValue (t : Detail) : ∀ leaf ∈ strings (guardValue t), Cut (strings t) leaf := by
  match t with
  | .str s =>
    rw [guardValue, strings, strings]
    intro leaf hleaf
    rw [List.mem_singleton.mp hleaf]
    refine ⟨?_, s, List.mem_cons_self, ?_⟩
    · dsimp only
      split_ifs with hlong
      · exact List.length_take_le 256 s
      · omega
    · dsimp only
      split_ifs
      · exact List.take_prefix 256 s
      · exact List.prefix_refl s
  | .other text => rw [guardValue, strings]; exact cut_nil
  | .list xs => rw [guardValue, strings, strings]; exact strings_guardList 0 xs
  | .map es => rw [guardValue, strings, strings]; exact strings_guardMap es

theorem strings_guardList (i : ℕ) (xs : List Detail) :
    ∀ leaf ∈ stringsList i (guardList xs), Cut (stringsList i xs) leaf := by
  match xs with
  | [] => rw [guardList, stringsList]; exact cut_nil
  | x :: xs =>
    rw [guardList, stringsList, stringsList]
    exact cut_append (cut_under (strings_guardValue x) _) (strings_guardList (i + 1) xs)

theorem strings_guardMap (es : List (GoString × Detail)) :
    ∀ leaf ∈ stringsMap (guardMap es), Cut (stringsMap es) leaf := by
  match es with
  | [] => rw [guardMap, stringsMap]; exact cut_nil
  | (k, v) :: es =>
    rw [guardMap, stringsMap]
    split_ifs
    · exact List.nil_append (stringsMap (guardMap es)) ▸ cut_append cut_nil (strings_guardMap es)
    · rw [stringsMap]
      exact cut_append (cut_under (strings_guardValue v) _) (strings_guardMap es)

end

mutual

theorem guardValue_guardValue (t : Detail) : guardValue (guardValue t) = guardValue t := by
  match t with
  | .str s =>
    rw [guardValue, guardValue]
    split_ifs with hlong hcut
    · rw [List.take_take, min_self]
    · rfl
    · rfl
  | .other text => rw [guardValue, guardValue]
  | .list xs => rw [guardValue, guardValue, guardList_guardList xs]
  | .map es => rw [guardValue, guardValue, guardMap_guardMap es]

theorem guardList_guardList (xs : List Detail) : guardList (guardList xs) = guardList xs := by
  match xs with
  | [] => rw [guardList, guardList]
  | x :: xs => rw [guardList, guardList, guardValue_guardValue x, guardList_guardList xs]

theorem guardMap_guardMap (es : List (GoString × Detail)) : guardMap (guardMap es) = guardMap es := by
  match es with
  | [] => rw [guardMap, guardMap]
  | (k, v) :: es =>
    rw [guardMap]
    split_ifs with hk
    · exact guardMap_guardMap es
    · rw [guardMap, if_neg hk, guardValue_guardValue v, guardMap_guardMap es]

end

/-- Nothing under a forbidden key shows in the redacted details. -/
theorem redact_leaks_nothing [LowerLaws] (m m' : List (GoString × Detail)) :
    (Alike (.map m) (.map m') → redact m = redact m') ∧
    (∀ k ∈ keysMap (redact m), ¬ Forbidden k) ∧
    (∀ leaf ∈ stringsMap (redact m), Cut (stringsMap m) leaf) ∧
    redact (redact m) = redact m := by
  refine ⟨fun h => ?_, keys_guardMap m, strings_guardMap m, guardMap_guardMap m⟩
  have heq := h.guardValue_eq
  rw [guardValue, guardValue] at heq
  exact Detail.map.inj heq

end Redaction

theorem nested_token_hidden :
    letI := asciiLibrary
    redact [("a", .list [.map [("userToken", .str "x")]])] = redact [("a", .list [.map []])] := by
  let := asciiLibrary
  have := asciiLowerLaws
  have hkey : Forbidden "userToken" := forbiddenKey_iff.mp (by decide +kernel)
  have hmap : Touch (.map [("userToken", .str "x")]) (.map []) := .entry hkey _ [] []
  exact (redact_leaks_nothing _ _).1 (.rel _ _ (.value (.item hmap [] []) "a" [] []))

end TangraTicket.Services.Audit
