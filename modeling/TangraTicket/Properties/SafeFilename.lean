import TangraTicket.Mailparse.Clean

/-!
Attachment names. `safeFilename` works on characters: the steps are followed on the list of them,
where the one way past the leading dots shows.
-/

namespace TangraTicket.Mailparse

open GoText

def isSeparator (r : ℕ) : Bool := r = 0x2F || r = 0x5C

def isDotOrBlank (r : ℕ) : Bool := r = 0x2E || r = 0x20

def trimmed (rs : List ℕ) : List ℕ := (rs.dropWhile isSpace).rdropWhile isSpace

def lastElement (rs : List ℕ) : List ℕ := (rs.rdropWhile isSeparator).rtakeWhile fun r => !isSeparator r

def baseRunes (rs : List ℕ) : List ℕ :=
  if rs = [] then [0x2E] else if rs.rdropWhile isSeparator = [] then [0x2F] else lastElement rs

def withoutControls (rs : List ℕ) : List ℕ := rs.map fun r => if isControl r then 0x5F else r

def bareRunes (rs : List ℕ) : List ℕ := trimmed ((withoutControls (baseRunes rs)).dropWhile isDotOrBlank)

def cutRunes (n : ℕ) (rs : List ℕ) : List ℕ := if rs.length ≤ n then rs else trimmed (rs.take n)

def safeRunes (rs : List ℕ) : List ℕ :=
  if bareRunes rs = [] ∨ bareRunes rs = [0x2F] then runes "attachment"
  else cutRunes maxFilename (bareRunes rs)

theorem trimmed_starts (rs : List ℕ) : trimmed rs <+: rs.dropWhile isSpace :=
  List.rdropWhile_prefix isSpace _

theorem trimmed_sublist (rs : List ℕ) : (trimmed rs).Sublist rs :=
  (trimmed_starts rs).sublist.trans (List.dropWhile_sublist _)

theorem trimmed_subset (rs : List ℕ) : trimmed rs ⊆ rs := (trimmed_sublist rs).subset

theorem trimmed_trimmed (rs : List ℕ) : trimmed (trimmed rs) = trimmed rs := by
  rw [trimmed, dropWhile_of_start (trimmed_starts rs), trimmed, List.rdropWhile_idempotent]

section Encoded

variable {rs : List ℕ}

theorem slashed_encode (h : Scalars rs) :
    replaceAll (encode rs) "\\" "/" = encode (rs.map fun r => if r = 0x5C then 0x2F else r) := by
  have hbyte : (goString "\\", goString "/") = ([0x5C], [0x2F]) := by decide
  obtain ⟨hold, hnew⟩ := Prod.mk.inj hbyte
  rw [hold, hnew, replaceAll_byte]
  refine map_encode h (fun r hr => ?_) (fun b hb => ?_) fun r hr => ?_
  · have hr' : r.toUInt8 = 0x5C ↔ r = 0x5C := by
      rw [← UInt8.toNat_inj, toNat_toUInt8 (by omega)]
      rfl
    simp only [hr']
    split
    · exact ⟨by omega, rfl⟩
    · exact ⟨hr, rfl⟩
  · rw [if_neg]
    rintro rfl
    exact absurd hb (by decide)
  · rw [if_neg]
    omega

theorem pathBase_encode (h : Scalars rs) :
    pathBase (encode rs) = encode
      (if rs = [] then [0x2E] else if rs.rdropWhile (fun r => r = 0x2F) = [] then [0x2F]
        else (rs.rdropWhile fun r => r = 0x2F).rtakeWhile fun r => !decide (r = 0x2F)) := by
  have hslash : ∀ c ∈ ([0x2F] : GoString), c < 0x80 := by decide +kernel
  have hrune : (onRune fun b => ([0x2F] : GoString).contains b) = fun r => decide (r = 0x2F) := by
    funext r
    rw [onRune_contains hslash, Bool.eq_iff_iff]
    simp
  have htest := asciiTest_contains hslash
  have hstart := List.rdropWhile_prefix (fun r => decide (r = 0x2F)) rs
  have hdrop : Scalars (rs.rdropWhile fun r => r = 0x2F) := h.of_subset hstart.subset
  simp only [pathBase, trimRight, htest.rdropWhile_encode h, hrune, encode_eq_nil h, encode_eq_nil hdrop]
  split
  · rfl
  · split
    · rfl
    · rw [htest.rtakeWhile_encode hdrop, hrune]

theorem rtakeWhile_map {α β : Type} (f : α → β) (p : β → Bool) (l : List α) :
    (l.map f).rtakeWhile p = (l.rtakeWhile (p ∘ f)).map f := by
  simp only [List.rtakeWhile, ← List.map_reverse, List.takeWhile_map]

theorem not_separator_of_mem_lastElement {r : ℕ} (h : r ∈ lastElement rs) : isSeparator r = false := by
  have hall := List.mem_takeWhile_imp (List.mem_reverse.mp h)
  simpa using hall

theorem base_slashed (rs : List ℕ) :
    (if (rs.map fun r => if r = 0x5C then 0x2F else r) = [] then [0x2E]
      else if (rs.map fun r => if r = 0x5C then 0x2F else r).rdropWhile (fun r => r = 0x2F) = [] then [0x2F]
      else ((rs.map fun r => if r = 0x5C then 0x2F else r).rdropWhile fun r => r = 0x2F).rtakeWhile
        fun r => !decide (r = 0x2F)) = baseRunes rs := by
  have hsep : ((fun r => decide (r = 0x2F)) ∘ fun r => if r = 0x5C then 0x2F else r) = isSeparator := by
    funext r
    by_cases hr : r = 0x5C <;> simp [isSeparator, hr]
  have hnot : ((fun r => !decide (r = 0x2F)) ∘ fun r => if r = 0x5C then 0x2F else r) = fun r =>
      !isSeparator r := by
    funext r
    rw [← hsep]
    rfl
  have hlast : (lastElement rs).map (fun r => if r = 0x5C then 0x2F else r) = (lastElement rs).map id := by
    refine List.map_congr_left fun r hr => ?_
    have hr := not_separator_of_mem_lastElement hr
    rw [if_neg]
    · rfl
    · rintro rfl
      exact absurd hr (by decide)
  rw [rdropWhile_map, hsep, rtakeWhile_map, hnot]
  simp only [List.map_eq_nil_iff]
  unfold baseRunes
  split
  · rfl
  · split
    · rfl
    · exact hlast.trans (List.map_id _)

theorem scalars_baseRunes (h : Scalars rs) : Scalars (baseRunes rs) := by
  unfold baseRunes
  split
  · decide
  · split
    · decide
    · have hstart := List.rdropWhile_prefix isSeparator rs
      exact h.of_subset fun r hr => hstart.subset ((List.rtakeWhile_suffix _ _).subset hr)

theorem scalars_withoutControls (h : Scalars rs) : Scalars (withoutControls rs) := by
  intro r hr
  obtain ⟨x, hx, rfl⟩ := List.mem_map.mp hr
  split
  · decide
  · exact h x hx

theorem scalars_bareRunes (h : Scalars rs) : Scalars (bareRunes rs) :=
  (scalars_withoutControls (scalars_baseRunes h)).of_subset fun _ hr =>
    (List.dropWhile_sublist _).subset (trimmed_subset _ hr)

theorem trimLeft_encode (h : Scalars rs) :
    trimLeft (encode rs) ". " = encode (rs.dropWhile isDotOrBlank) := by
  have hcut : ∀ c ∈ goString ". ", c < 0x80 := by decide +kernel
  have hrune : (onRune fun b => (goString ". ").contains b) = isDotOrBlank := by
    funext r
    rw [onRune_contains hcut, show goString ". " = [0x2E, 0x20] by decide, Bool.eq_iff_iff]
    simp [isDotOrBlank]
  rw [trimLeft, (asciiTest_contains hcut).dropWhile_encode h, hrune]

theorem truncRunes_encode (h : Scalars rs) (n : ℕ) : truncRunes (encode rs) n = encode (cutRunes n rs) := by
  rw [truncRunes, runeCount_encode h, runes_encode h, cutRunes]
  split
  · rfl
  · exact trimSpace_encode (h.of_subset (List.take_subset n rs))

theorem safeFilename_encode {name : GoString} (h : Scalars rs) (hname : toValidUTF8 name "_" = encode rs) :
    safeFilename name = encode (safeRunes rs) := by
  have hslashed : Scalars (rs.map fun r => if r = 0x5C then 0x2F else r) := by
    intro r hr
    obtain ⟨x, hx, rfl⟩ := List.mem_map.mp hr
    split
    · decide
    · exact h x hx
  have hbase := scalars_baseRunes h
  have hclean := scalars_withoutControls hbase
  have hbare := scalars_bareRunes h
  have hcontrols : mapRunes (fun r => some (if isControl r then 0x5F else r)) (encode (baseRunes rs)) =
      encode (withoutControls (baseRunes rs)) := by
    rw [mapRunes_eq, runes_encode hbase, List.filterMap_eq_map']
    rfl
  have hslash : goString "/" = encode [0x2F] := by decide
  have htrim : trimSpace (encode ((withoutControls (baseRunes rs)).dropWhile isDotOrBlank)) =
      encode (bareRunes rs) :=
    trimSpace_encode (hclean.of_subset (List.dropWhile_sublist _).subset)
  have hsep : encode (bareRunes rs) = encode [0x2F] ↔ bareRunes rs = [0x2F] :=
    ⟨encode_inj hbare (by decide), congrArg encode⟩
  rw [safeFilename, hname, slashed_encode h, pathBase_encode hslashed, base_slashed, hcontrols,
    trimLeft_encode hclean, htrim, hslash, truncRunes_encode hbare]
  simp only [encode_eq_nil hbare, hsep]
  unfold safeRunes
  split
  · exact (encode_runes (by decide +kernel)).symm
  · rfl

end Encoded

def isBlank (r : ℕ) : Bool := isSpace r && !isControl r

/-- In the last element of the name, a dot comes first after dots, blanks and then other white space. -/
def HidesDot (rs : List ℕ) : Prop :=
  (((lastElement rs).dropWhile isDotOrBlank).dropWhile isBlank).head? = some 0x2E

structure Plain (rs : List ℕ) : Prop where
  nonempty : rs ≠ []
  chars : ∀ r ∈ rs, isSeparator r = false ∧ isControl r = false
  trim : trimmed rs = rs

section Runes

variable {rs : List ℕ}

theorem head_of_dropWhile {p : ℕ → Bool} (h : rs.dropWhile p = rs) : ∀ r ∈ rs.head?, p r = false := by
  intro r hr
  cases rs with
  | nil => cases hr
  | cons x rs =>
    obtain rfl := Option.some.inj hr
    rw [Bool.eq_false_iff]
    intro hp
    rw [List.dropWhile_cons_of_pos hp] at h
    have hlen := (List.dropWhile_sublist (l := rs) p).length_le
    rw [h, List.length_cons] at hlen
    omega

theorem dropWhile_of_trimmed (h : trimmed rs = rs) : rs.dropWhile isSpace = rs := by
  have hpre := trimmed_starts rs
  rw [h] at hpre
  exact (hpre.eq_of_length_le (List.dropWhile_sublist _).length_le).symm

theorem head_trimmed (rs : List ℕ) : (trimmed rs).head? = (rs.dropWhile isSpace).head? := by
  unfold trimmed
  cases hd : rs.dropWhile isSpace with
  | nil => rfl
  | cons x xs =>
    have hx : isSpace x = false := by
      have hidem : (rs.dropWhile isSpace).dropWhile isSpace = rs.dropWhile isSpace :=
        dropWhile_of_start (List.prefix_refl _)
      exact head_of_dropWhile hidem x (by rw [hd]; rfl)
    have hne : (x :: xs).rdropWhile isSpace ≠ [] := by
      rw [ne_eq, List.rdropWhile_eq_nil_iff]
      intro hall
      simp [hall x List.mem_cons_self] at hx
    obtain ⟨rest, hrest⟩ := List.rdropWhile_prefix isSpace (x :: xs)
    cases hr : (x :: xs).rdropWhile isSpace with
    | nil => exact absurd hr hne
    | cons y ys =>
      rw [hr, List.cons_append, List.cons.injEq] at hrest
      rw [hrest.1]
      rfl

theorem Plain.cut (h : Plain rs) {n : ℕ} (hn : 0 < n) :
    Plain (cutRunes n rs) ∧ (cutRunes n rs).length ≤ n ∧ (cutRunes n rs).head? = rs.head? := by
  unfold cutRunes
  split
  · exact ⟨h, ‹_›, rfl⟩
  · have htake : (rs.take n).dropWhile isSpace = rs.take n := by
      have hpre : rs.take n <+: rs.dropWhile isSpace := by
        rw [dropWhile_of_trimmed h.trim]
        exact List.take_prefix n rs
      exact dropWhile_of_start hpre
    have hhead : (trimmed (rs.take n)).head? = rs.head? := by
      rw [head_trimmed, htake, List.head?_take, if_neg (by omega)]
    refine ⟨⟨?_, ?_, trimmed_trimmed _⟩, ?_, hhead⟩
    · intro hnil
      rw [hnil] at hhead
      exact h.nonempty (List.head?_eq_none_iff.mp hhead.symm)
    · exact fun r hr => h.chars r (List.take_subset n rs (trimmed_subset _ hr))
    · exact (trimmed_sublist _).length_le.trans (List.length_take_le n rs)

theorem Plain.baseRunes_eq (h : Plain rs) : baseRunes rs = rs := by
  have hdrop : rs.rdropWhile isSeparator = rs := by
    rw [List.rdropWhile_eq_self_iff]
    exact fun hne => by simp [(h.chars _ (List.getLast_mem hne)).1]
  have hlast : lastElement rs = rs := by
    rw [lastElement, hdrop, List.rtakeWhile_eq_self_iff]
    exact fun r hr => by simp [(h.chars r hr).1]
  rw [baseRunes, if_neg h.nonempty, hdrop, if_neg h.nonempty, hlast]

theorem Plain.withoutControls_eq (h : Plain rs) : withoutControls rs = rs := by
  refine (List.map_congr_left fun r hr => ?_).trans (List.map_id rs)
  simp [(h.chars r hr).2]

theorem Plain.safeRunes_eq (h : Plain rs) (hdot : rs.head? ≠ some 0x2E) (hlen : rs.length ≤ maxFilename) :
    safeRunes rs = rs := by
  have hspace := head_of_dropWhile (dropWhile_of_trimmed h.trim)
  have hstart : rs.dropWhile isDotOrBlank = rs := by
    cases hrs : rs with
    | nil => rfl
    | cons x xs =>
      refine List.dropWhile_cons_of_neg ?_
      have hx := hspace x (by rw [hrs]; rfl)
      have hxdot : x ≠ 0x2E := fun hx => hdot (by rw [hrs, hx]; rfl)
      have hxblank : x ≠ 0x20 := by
        rintro rfl
        exact absurd hx (by decide)
      simp [isDotOrBlank, hxdot, hxblank]
  have hbare : bareRunes rs = rs := by rw [bareRunes, h.baseRunes_eq, h.withoutControls_eq, hstart, h.trim]
  have hslash : rs ≠ [0x2F] := by
    rintro rfl
    exact absurd (h.chars 0x2F List.mem_cons_self).1 (by decide)
  rw [safeRunes, hbare, if_neg (by simp [h.nonempty, hslash]), cutRunes, if_pos hlen]

theorem withoutControls_dropWhile {p q : ℕ → Bool}
    (h : ∀ r, p (if isControl r then 0x5F else r) = q r) (rs : List ℕ) :
    (withoutControls rs).dropWhile p = withoutControls (rs.dropWhile q) := by
  have hpq : p ∘ (fun r => if isControl r then 0x5F else r) = q := funext h
  rw [withoutControls, List.dropWhile_map, hpq]
  rfl

theorem head_withoutControls (rs : List ℕ) :
    (withoutControls rs).head? = some 0x2E ↔ rs.head? = some 0x2E := by
  cases rs with
  | nil => rfl
  | cons x xs =>
    simp only [withoutControls, List.map_cons, List.head?_cons, Option.some.injEq]
    split
    · rename_i hx
      refine ⟨fun h => absurd h (by decide), ?_⟩
      rintro rfl
      exact absurd hx (by decide)
    · rfl

theorem isDotOrBlank_uncontrolled (r : ℕ) :
    isDotOrBlank (if isControl r then 0x5F else r) = isDotOrBlank r := by
  split
  · rename_i hr
    have hdot : r ≠ 0x2E := by
      rintro rfl
      exact absurd hr (by decide)
    have hblank : r ≠ 0x20 := by
      rintro rfl
      exact absurd hr (by decide)
    simp [isDotOrBlank, hdot, hblank]
  · rfl

theorem isSpace_uncontrolled (r : ℕ) : isSpace (if isControl r then 0x5F else r) = isBlank r := by
  unfold isBlank
  cases isControl r with
  | true => simp only [if_true, Bool.not_true, Bool.and_false]; decide
  | false => simp

theorem head_bareRunes (rs : List ℕ) : (bareRunes rs).head? = some 0x2E ↔ HidesDot rs := by
  have hnone : lastElement rs = [] → ¬ HidesDot rs := by
    intro h
    rw [HidesDot, h]
    nofun
  unfold bareRunes baseRunes
  split_ifs with hnil hslash
  · refine iff_of_false (by decide +kernel) (hnone ?_)
    rw [hnil]
    rfl
  · refine iff_of_false (by decide +kernel) (hnone ?_)
    rw [lastElement, hslash]
    rfl
  · rw [head_trimmed, withoutControls_dropWhile isDotOrBlank_uncontrolled,
      withoutControls_dropWhile isSpace_uncontrolled, head_withoutControls]
    rfl

theorem plain_bareRunes (hnil : bareRunes rs ≠ []) (hslash : bareRunes rs ≠ [0x2F]) :
    Plain (bareRunes rs) := by
  refine ⟨hnil, fun r hr => ?_, trimmed_trimmed _⟩
  have hbase : baseRunes rs = lastElement rs := by
    unfold bareRunes at hnil hslash
    unfold baseRunes at hnil hslash ⊢
    split_ifs at hnil hslash ⊢
    · exact absurd (by decide +kernel) hnil
    · exact absurd (by decide +kernel) hslash
    · rfl
  have hr := (List.dropWhile_sublist _).subset (trimmed_subset _ hr)
  rw [hbase] at hr
  obtain ⟨x, hx, rfl⟩ := List.mem_map.mp hr
  split
  · exact ⟨by decide, by decide⟩
  · rename_i hcontrol
    exact ⟨not_separator_of_mem_lastElement hx, Bool.eq_false_iff.mpr hcontrol⟩

theorem cutRunes_subset (n : ℕ) (rs : List ℕ) : cutRunes n rs ⊆ rs := by
  unfold cutRunes
  split
  · exact List.Subset.refl _
  · exact fun r hr => List.take_subset n rs (trimmed_subset _ hr)

end Runes

/-- What a stored attachment name is for: a single, visible, bounded path element that is its own
safe name. -/
structure SafeName (s : GoString) : Prop where
  nonempty : s ≠ []
  valid : validString s = true
  short : runeCount s ≤ 200
  chars : ∀ r ∈ runes s, r ≠ 0x2F ∧ r ≠ 0x5C ∧ isControl r = false
  start : ∀ r ∈ (runes s).head?, r ≠ 0x2E ∧ isSpace r = false
  notDots : s ≠ goString "." ∧ s ≠ goString ".."
  fixed : safeFilename s = s

theorem Plain.safeName {rs : List ℕ} (h : Plain rs) (hs : Scalars rs) (hlen : rs.length ≤ maxFilename)
    (hdot : rs.head? ≠ some 0x2E) : SafeName (encode rs) := by
  have hspace := head_of_dropWhile (dropWhile_of_trimmed h.trim)
  have hne : ∀ ds : List ℕ, Scalars (0x2E :: ds) → encode rs ≠ encode (0x2E :: ds) := by
    intro ds hds heq
    rw [encode_inj hs hds heq] at hdot
    exact hdot rfl
  refine ⟨?_, validString_encode hs, ?_, ?_, ?_, ⟨?_, ?_⟩, ?_⟩
  · rw [ne_eq, encode_eq_nil hs]
    exact h.nonempty
  · rw [runeCount_encode hs]
    exact hlen
  · rw [runes_encode hs]
    intro r hr
    have hr := h.chars r hr
    simp only [isSeparator, Bool.or_eq_false_iff, decide_eq_false_iff_not] at hr
    exact ⟨hr.1.1, hr.1.2, hr.2⟩
  · rw [runes_encode hs]
    intro r hr
    refine ⟨?_, hspace r hr⟩
    rintro rfl
    exact hdot hr
  · rw [show goString "." = encode [0x2E] by decide]
    exact hne [] (by decide)
  · rw [show goString ".." = encode [0x2E, 0x2E] by decide]
    exact hne [0x2E] (by decide)
  · rw [safeFilename_encode hs (toValidUTF8_encode hs _), h.safeRunes_eq hdot hlen]

theorem safeName_attachment : SafeName (encode (runes "attachment")) := by
  refine Plain.safeName ⟨?_, ?_, ?_⟩ (scalars_runes _) ?_ ?_ <;> decide +kernel

/-- The name is safe just if no dot hides behind white space that only the second trim removes. -/
theorem safeFilename_safe_iff (name : GoString) :
    SafeName (safeFilename name) ↔ ¬ HidesDot (runes (toValidUTF8 name "_")) := by
  obtain ⟨rs, hs, hname⟩ := exists_toValidUTF8 (show Scalars [0x5F] by decide) name
  have hname : toValidUTF8 name "_" = encode rs := hname
  rw [hname, runes_encode hs, safeFilename_encode hs hname, safeRunes, ← head_bareRunes]
  split
  · rename_i hnone
    refine iff_of_true safeName_attachment ?_
    rcases hnone with hnone | hnone <;> rw [hnone] <;> decide
  · rename_i hsome
    obtain ⟨hnil, hslash⟩ := not_or.mp hsome
    obtain ⟨hcut, hlen, hhead⟩ := (plain_bareRunes hnil hslash).cut (n := maxFilename) (by decide)
    have hscalars : Scalars (cutRunes maxFilename (bareRunes rs)) :=
      (scalars_bareRunes hs).of_subset (cutRunes_subset _ _)
    rw [← hhead]
    refine ⟨fun h hdot => ?_, hcut.safeName hscalars hlen⟩
    exact (h.start 0x2E (by rw [runes_encode hscalars]; exact hdot)).1 rfl

/-- A no-break space before the dots: what is left is the parent directory. -/
theorem parent_directory_kept :
    safeFilename [0xC2, 0xA0, 0x2E, 0x2E] = goString ".." ∧ ¬ SafeName
      (safeFilename [0xC2, 0xA0, 0x2E, 0x2E]) := by
  have hdots : safeFilename [0xC2, 0xA0, 0x2E, 0x2E] = goString ".." := by decide +kernel
  exact ⟨hdots, fun h => h.notDots.2 hdots⟩

end TangraTicket.Mailparse
