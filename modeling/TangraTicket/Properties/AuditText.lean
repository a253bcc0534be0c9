import TangraTicket.Library.GoCut
import TangraTicket.Properties.AuditRedaction

/-!
The text of audit rows. A string is cut at 256 bytes, wherever that is in its characters.
-/

namespace TangraTicket.Services.Audit

open GoText

/-- The cut at 256 bytes, if there is one, does not split a character. -/
def Whole (s : GoString) : Prop := ∀ b ∈ (s.drop 256).head?, isCont b = false

def ShortText (s : GoString) : Prop := validString s = true ∧ s.length ≤ 256

/-- The strings of the row can be stored: its reason and, at any depth, the strings and keys of its
detail. -/
structure TextRow (row : AuditRow) : Prop where
  reason : ShortText row.reason
  strings : ∀ leaf ∈ stringsMap row.detail, ShortText leaf.2
  keys : ∀ k ∈ keysMap row.detail, validString k = true

/-- All strings of the event are valid text. -/
structure Event.ValidText (e : Event) : Prop where
  reason : validString e.reason = true
  strings : ∀ leaf ∈ stringsMap e.details, validString leaf.2 = true
  keys : ∀ k ∈ keysMap e.details, validString k = true

theorem shortText_truncate_iff {s : GoString} (hs : validString s = true) :
    ShortText (truncate s) ↔ Whole s := by
  rw [ShortText, truncate, Whole]
  split_ifs with hlong
  · rw [validString_take_iff hs, and_iff_left (List.length_take_le 256 s)]
  · rw [List.drop_eq_nil_of_le (by omega)]
    exact iff_of_true ⟨hs, by omega⟩ fun b hb => absurd hb (by simp)

section Kept

variable [GoLibrary]

mutual

def kept : Detail → List GoString
  | .str s => [s]
  | .other _ => []
  | .list xs => keptList xs
  | .map es => keptMap es

def keptList : List Detail → List GoString
  | [] => []
  | x :: xs => kept x ++ keptList xs

def keptMap : List (GoString × Detail) → List GoString
  | [] => []
  | (k, v) :: es => if forbiddenKey k then keptMap es else kept v ++ keptMap es

end

omit [GoLibrary] in
theorem map_under (p : Place) (leaves : List (List Place × GoString)) :
    (leaves.map (under p)).map Prod.snd = leaves.map Prod.snd := by
  rw [List.map_map]
  rfl

mutual

theorem snd_strings_guardValue (t : Detail) :
    (strings (guardValue t)).map Prod.snd = (kept t).map truncate := by
  match t with
  | .str s => rw [guardValue, strings, kept]; rfl
  | .other text => rw [guardValue, strings, kept]; rfl
  | .list xs => rw [guardValue, strings, kept, snd_strings_guardList 0 xs]
  | .map es => rw [guardValue, strings, kept, snd_strings_guardMap es]

theorem snd_strings_guardList (i : ℕ) (xs : List Detail) :
    (stringsList i (guardList xs)).map Prod.snd = (keptList xs).map truncate := by
  match xs with
  | [] => rw [guardList, stringsList, keptList]; rfl
  | x :: xs =>
    rw [guardList, stringsList, keptList, List.map_append, List.map_append, map_under,
      snd_strings_guardValue x, snd_strings_guardList (i + 1) xs]

theorem snd_strings_guardMap (es : List (GoString × Detail)) :
    (stringsMap (guardMap es)).map Prod.snd = (keptMap es).map truncate := by
  match es with
  | [] => rw [guardMap, stringsMap, keptMap]; rfl
  | (k, v) :: es =>
    rw [guardMap, keptMap]
    split_ifs
    · exact snd_strings_guardMap es
    · rw [stringsMap, List.map_append, List.map_append, map_under, snd_strings_guardValue v,
        snd_strings_guardMap es]

end

mutual

theorem kept_subset (t : Detail) : kept t ⊆ (strings t).map Prod.snd := by
  match t with
  | .str s => rw [kept, strings]; exact List.Subset.refl _
  | .other text => rw [kept]; exact List.nil_subset _
  | .list xs => rw [kept, strings]; exact keptList_subset 0 xs
  | .map es => rw [kept, strings]; exact keptMap_subset es

theorem keptList_subset (i : ℕ) (xs : List Detail) : keptList xs ⊆ (stringsList i xs).map Prod.snd := by
  match xs with
  | [] => rw [keptList]; exact List.nil_subset _
  | x :: xs =>
    rw [keptList, stringsList, List.map_append, map_under]
    exact List.append_subset.mpr ⟨fun s hs => List.mem_append_left _ (kept_subset x hs),
      fun s hs => List.mem_append_right _ (keptList_subset (i + 1) xs hs)⟩

theorem keptMap_subset (es : List (GoString × Detail)) : keptMap es ⊆ (stringsMap es).map Prod.snd := by
  match es with
  | [] => rw [keptMap]; exact List.nil_subset _
  | (k, v) :: es =>
    rw [keptMap, stringsMap, List.map_append, map_under]
    split_ifs
    · exact fun s hs => List.mem_append_right _ (keptMap_subset es hs)
    · exact List.append_subset.mpr ⟨fun s hs => List.mem_append_left _ (kept_subset v hs),
        fun s hs => List.mem_append_right _ (keptMap_subset es hs)⟩

end

mutual

theorem keys_guardValue_subset (t : Detail) : keys (guardValue t) ⊆ keys t := by
  match t with
  | .str s => rw [guardValue, keys]; exact List.nil_subset _
  | .other text => rw [guardValue]; exact List.Subset.refl _
  | .list xs => rw [guardValue, keys, keys]; exact keys_guardList_subset xs
  | .map es => rw [guardValue, keys, keys]; exact keys_guardMap_subset es

theorem keys_guardList_subset (xs : List Detail) : keysList (guardList xs) ⊆ keysList xs := by
  match xs with
  | [] => rw [guardList]; exact List.Subset.refl _
  | x :: xs =>
    rw [guardList, keysList, keysList]
    exact List.append_subset.mpr ⟨fun k hk => List.mem_append_left _ (keys_guardValue_subset x hk),
      fun k hk => List.mem_append_right _ (keys_guardList_subset xs hk)⟩

theorem keys_guardMap_subset (es : List (GoString × Detail)) : keysMap (guardMap es) ⊆ keysMap es := by
  match es with
  | [] => rw [guardMap]; exact List.Subset.refl _
  | (k, v) :: es =>
    rw [guardMap, keysMap]
    split_ifs
    · exact fun k' hk' => List.mem_cons_of_mem k (List.mem_append_right _ (keys_guardMap_subset es hk'))
    · rw [keysMap]
      exact List.cons_subset_cons k (List.append_subset.mpr
        ⟨fun k' hk' => List.mem_append_left _ (keys_guardValue_subset v hk'),
          fun k' hk' => List.mem_append_right _ (keys_guardMap_subset es hk')⟩)

end

theorem eq_rowOf_of_record {e : Event} {w w' : Writer} {id : GoString} {now : Store.Time} {row : AuditRow}
    (hrecord : w.record e id now = (.ok (), w')) (hrow : w'.queue = w.queue ++ [row]) :
    row = rowOf e id now := by
  rw [Writer.record] at hrecord
  cases hvalid : validate e with
  | error err =>
    rw [hvalid] at hrecord
    cases hrecord
  | ok =>
    rw [hvalid] at hrecord
    dsimp only at hrecord
    split_ifs at hrecord
    · cases hrecord
    · obtain rfl := (Prod.mk.inj hrecord).2
      exact (List.singleton_inj.mp (List.append_cancel_left hrow)).symm
    · obtain rfl := (Prod.mk.inj hrecord).2
      exact absurd (congrArg List.length hrow) (by simp)

end Kept

def refusal (reason : GoString) : Event where
  tenantID := "acme"
  eventType := "access.refused"
  actorKind := "system"
  subjectKind := "system"
  outcome := "refused"
  reason := reason

def splitReason : GoString := List.replicate 255 0x61 ++ encode [0xE9]

theorem validText_refusal {reason : GoString} (h : validString reason = true) :
    (refusal reason).ValidText := by
  refine ⟨h, fun leaf hleaf => ?_, fun k hk => ?_⟩
  · rw [refusal, stringsMap] at hleaf
    cases hleaf
  · rw [refusal, keysMap] at hk
    cases hk

def wholeReason : GoString := List.replicate 254 0x61 ++ encode [0xE9, 0xE9, 0xE9]

end TangraTicket.Services.Audit
