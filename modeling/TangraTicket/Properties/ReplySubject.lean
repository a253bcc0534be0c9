import TangraTicket.Library.GoCase
import TangraTicket.Library.GoFields
import TangraTicket.Services.Mail

/-!
Reply subjects. `ReplySubject` puts the original on one line and adds the prefix only where it finds
none, so a prefix that stands there twice stays, and a subject that begins with the word "re" gets
none.
-/

namespace TangraTicket.Services.Threading

open GoText

/-- What follows the letters `re` and a mark, in any letter case. -/
def afterMark (mark : ℕ) : List ℕ → Option (List ℕ)
  | R :: e :: c :: rest => if (R = 0x52 ∨ R = 0x72) ∧ (e = 0x45 ∨ e = 0x65) ∧ c = mark then
      some rest else none
  | _ => none

def afterRe : List ℕ → Option (List ℕ) := afterMark 0x3A

def blanked (rs : List ℕ) : List ℕ := rs.map fun r => if isControl r then 0x20 else r

/-- The original on one line: control characters are blanks, white space is collapsed. -/
def lineOf (original : GoString) : List ℕ := collapsed (blanked (runes original))

def noSubjectRunes : List ℕ := [0x28, 0x6E, 0x6F, 0x20, 0x73, 0x75, 0x62, 0x6A, 0x65, 0x63, 0x74, 0x29]

def withRe (line : List ℕ) : List ℕ :=
  if (afterRe line).isSome || (afterMark 0x20 line).isSome then line else [0x52, 0x65, 0x3A, 0x20] ++ line

def replied (line : List ℕ) : List ℕ := withRe (if line = [] then noSubjectRunes else line)

structure Tidy (rs : List ℕ) : Prop where
  scalars : Scalars rs
  plain : ∀ r ∈ rs, isControl r = false
  spaced : collapsed rs = rs

inductive Bare : List ℕ → List ℕ → Prop
  | done {rs : List ℕ} : afterRe rs = none → Bare rs rs
  | strip {rs rest bare : List ℕ} : afterRe rs = some rest →
      Bare (rest.dropWhile isSpace) bare → Bare rs bare

/-- The reply subject has one prefix, and the original's text behind it. -/
structure SingleRe [GoLibrary] (original : GoString) : Prop where
  valid : validString (replySubject original) = true
  tidy : Tidy (runes (replySubject original))
  again : replySubject (replySubject original) = replySubject original
  single : ∃ rest, afterRe (runes (replySubject original)) = some rest ∧
    afterRe (rest.dropWhile isSpace) = none ∧
    Bare (lineOf original) (rest.dropWhile isSpace)

theorem afterMark_isSome {mark : ℕ} {rs : List ℕ} :
    (afterMark mark rs).isSome = true ↔
      ∃ R e rest, rs = R :: e :: mark :: rest ∧ (R = 0x52 ∨ R = 0x72) ∧ (e = 0x45 ∨ e = 0x65) := by
  constructor
  · intro h
    match rs, h with
    | R :: e :: c :: rest, h =>
      rw [afterMark] at h
      split_ifs at h with hre
      · exact ⟨R, e, rest, by rw [hre.2.2], hre.1, hre.2.1⟩
      · cases h
  · rintro ⟨R, e, rest, rfl, hR, he⟩
    rw [afterMark, if_pos ⟨hR, he, rfl⟩]
    rfl

section Prefix

variable [GoLibrary] [LowerLaws] [LowerAscii] {rs : List ℕ}

theorem hasPrefix_lower (h : Scalars rs) {mark : ℕ} (hmark : mark < 0x41) :
    hasPrefix (toLower (encode rs)) (encode [0x72, 0x65, mark]) = (afterMark mark rs).isSome := by
  rw [Bool.eq_iff_iff, hasPrefix, List.isPrefixOf_iff_prefix, toLower_encode h,
    encode_prefix_encode (by simp; omega) (scalars_lower h), afterMark_isSome]
  constructor
  · rintro ⟨rest, hrest⟩
    obtain ⟨R, rs₁, rfl, hR, h₁⟩ := List.map_eq_cons_iff.mp hrest.symm
    obtain ⟨e, rs₂, rfl, he, h₂⟩ := List.map_eq_cons_iff.mp h₁
    obtain ⟨c, rs₃, rfl, hc, -⟩ := List.map_eq_cons_iff.mp h₂
    rw [lowerRune_letter (by omega) (by omega) (by omega)] at hR he
    rw [lowerRune_mark hmark] at hc
    exact ⟨R, e, rs₃, by rw [hc], hR, he⟩
  · rintro ⟨R, e, rest, rfl, hR, he⟩
    have hR : GoLibrary.lowerRune R = 0x72 := (lowerRune_letter (by omega) (by omega) (by omega)).mpr hR
    have he : GoLibrary.lowerRune e = 0x65 := (lowerRune_letter (by omega) (by omega) (by omega)).mpr he
    have hc : GoLibrary.lowerRune mark = mark := (lowerRune_mark hmark).mpr rfl
    rw [List.map_cons, List.map_cons, List.map_cons, hR, he, hc]
    exact List.prefix_append _ _

theorem hasRePrefix_encode (h : Scalars rs) :
    hasRePrefix (encode rs) = ((afterRe rs).isSome || (afterMark 0x20 rs).isSome) := by
  have hcolon : goString "re:" = encode [0x72, 0x65, 0x3A] := by decide
  have hblank : goString "re " = encode [0x72, 0x65, 0x20] := by decide
  rw [hasRePrefix, hcolon, hblank, hasPrefix_lower h (by omega), hasPrefix_lower h (by omega), afterRe]

end Prefix

theorem of_mem_blanked {rs : List ℕ} (h : Scalars rs) {r : ℕ} (hr : r ∈ blanked rs) :
    Scalar r ∧ isControl r = false := by
  obtain ⟨x, hx, rfl⟩ := List.mem_map.mp hr
  split_ifs with hcontrol
  · decide
  · exact ⟨h x hx, by simpa using hcontrol⟩

theorem tidy_lineOf (original : GoString) : Tidy (lineOf original) := by
  have hof := @of_mem_blanked (runes original) (scalars_runes original)
  refine ⟨Scalars.collapsed fun r hr => (hof hr).1, fun r hr => ?_, collapsed_collapsed _⟩
  rcases of_mem_collapsed hr with rfl | ⟨hr, -⟩
  · decide
  · exact (hof hr).2

theorem replySubject_eq [GoLibrary] [LowerLaws] [LowerAscii] (original : GoString) :
    replySubject original = encode (replied (lineOf original)) := by
  have hblanked : Scalars (blanked (runes original)) := fun r hr =>
    (of_mem_blanked (scalars_runes original) hr).1
  have hline : join (fields (mapRunes (fun r => some (if isControl r then 0x20 else r)) original)) " " =
      encode (lineOf original) := by
    rw [mapRunes_eq, List.filterMap_eq_map', lineOf, ← join_fields_encode hblanked, blanked]
  have hscalars : Scalars (lineOf original) := (tidy_lineOf original).scalars
  have hnone : noSubject = encode noSubjectRunes := by decide
  have hre : goString "Re: " = encode [0x52, 0x65, 0x3A, 0x20] := by decide
  simp only [replySubject, hline, encode_eq_nil hscalars, hnone, ← apply_ite encode]
  have hgiven : Scalars (if lineOf original = [] then noSubjectRunes else lineOf original) := by
    split_ifs
    · decide
    · exact hscalars
  rw [hasRePrefix_encode hgiven, hre, ← encode_append, ← apply_ite encode, replied, withRe]

section Tidy

variable {line : List ℕ}

theorem Tidy.lineOf_encode (h : Tidy line) : lineOf (encode line) = line := by
  have hblanked : blanked line = line := by
    rw [blanked]
    conv_rhs => rw [← List.map_id line]
    refine List.map_congr_left fun r hr => ?_
    rw [h.plain r hr]
    rfl
  rw [lineOf, runes_encode h.scalars, hblanked, h.spaced]

theorem exists_wordsOf (h : Tidy line) (hne : line ≠ []) :
    ∃ w ws, line = spacedOut (w :: ws) ∧ ∀ v ∈ w :: ws, Word v := by
  have heq : line = spacedOut (wordsOf line) := h.spaced.symm
  cases hws : wordsOf line with
  | nil => exact absurd (by rw [heq, hws]; rfl) hne
  | cons w ws => exact ⟨w, ws, by rw [← hws]; exact heq, fun v hv => word_of_mem (by rw [hws]; exact hv)⟩

theorem Tidy.dropWhile (h : Tidy line) : line.dropWhile isSpace = line := by
  by_cases hne : line = []
  · rw [hne]
    rfl
  · obtain ⟨w, ws, rfl, hwords⟩ := exists_wordsOf h hne
    have hw := hwords w List.mem_cons_self
    obtain ⟨c, cs, rfl⟩ := List.exists_cons_of_ne_nil hw.nonempty
    have hc : isSpace c = false := hw.solid c List.mem_cons_self
    cases ws with
    | nil => rw [spacedOut_singleton, List.dropWhile_cons_of_neg (by simp [hc])]
    | cons w' ws => rw [spacedOut_cons_cons, List.cons_append, List.dropWhile_cons_of_neg (by simp [hc])]

theorem Tidy.prefixed (h : Tidy line) (hne : line ≠ []) : Tidy ([0x52, 0x65, 0x3A, 0x20] ++ line) := by
  have hfront : ∀ r ∈ [0x52, 0x65, 0x3A, 0x20], Scalar r ∧ isControl r = false := by decide
  refine ⟨?_, ?_, ?_⟩
  · exact Scalars.append_iff.mpr ⟨fun r hr => (hfront r hr).1, h.scalars⟩
  · exact List.forall_mem_append.mpr ⟨fun r hr => (hfront r hr).2, h.plain⟩
  · obtain ⟨w, ws, rfl, hwords⟩ := exists_wordsOf h hne
    have hwords : ∀ v ∈ [0x52, 0x65, 0x3A] :: w :: ws, Word v :=
      List.forall_mem_cons.mpr ⟨⟨by simp, by decide⟩, hwords⟩
    have hout := spacedOut_cons_cons [0x52, 0x65, 0x3A] w ws
    rw [collapsed, show [0x52, 0x65, 0x3A, 0x20] ++ spacedOut (w :: ws) = _ from hout.symm,
      wordsOf_spacedOut hwords]

theorem tidy_noSubject : Tidy noSubjectRunes := ⟨by decide, by decide, by decide⟩

theorem Tidy.withRe (h : Tidy line) (hne : line ≠ []) : Tidy (withRe line) := by
  rw [Threading.withRe]
  split_ifs
  · exact h
  · exact h.prefixed hne

theorem Tidy.replied (h : Tidy line) : Tidy (replied line) := by
  rw [Threading.replied]
  split_ifs with hne
  · exact tidy_noSubject.withRe (by decide)
  · exact h.withRe hne

theorem withRe_of_mark (h : ((afterRe line).isSome || (afterMark 0x20 line).isSome) = true) :
    withRe line = line := if_pos h

theorem mark_withRe (line : List ℕ) :
    ((afterRe (withRe line)).isSome || (afterMark 0x20 (withRe line)).isSome) = true := by
  rw [withRe]
  split_ifs with hmark
  · exact hmark
  · rfl

theorem replied_replied (line : List ℕ) : replied (replied line) = replied line := by
  have hmark := mark_withRe (if line = [] then noSubjectRunes else line)
  rw [← replied] at hmark
  have hne : replied line ≠ [] := by
    intro h
    rw [h] at hmark
    cases hmark
  conv_lhs => rw [replied, if_neg hne]
  exact withRe_of_mark hmark

end Tidy

theorem afterRe_of_blank {rs : List ℕ} (h : (afterMark 0x20 rs).isSome = true) : afterRe rs = none := by
  obtain ⟨R, e, rest, rfl, -, -⟩ := afterMark_isSome.mp h
  exact if_neg fun hre => absurd hre.2.2 (by decide)

theorem single_line_iff {line : List ℕ} (h : Tidy line) :
    (∃ rest, afterRe (replied line) = some rest ∧ afterRe (rest.dropWhile isSpace) = none ∧
      Bare line (rest.dropWhile isSpace)) ↔
    line ≠ [] ∧ (afterMark 0x20 line).isSome = false ∧
      ∀ rest, afterRe line = some rest → afterRe (rest.dropWhile isSpace) = none := by
  by_cases hne : line = []
  · subst hne
    refine iff_of_false ?_ fun hcond => hcond.1 rfl
    rintro ⟨rest, hrest, -, hbare⟩
    obtain rfl : rest = 0x20 :: noSubjectRunes := Option.some_inj.mp (hrest.symm.trans (by decide))
    rcases hbare with hdone | ⟨hstrip, -⟩
    cases hstrip
  rw [replied, if_neg hne]
  by_cases hblank : (afterMark 0x20 line).isSome = true
  · rw [withRe_of_mark (by rw [hblank, Bool.or_true]), afterRe_of_blank hblank]
    exact iff_of_false (fun ⟨_, hrest, _⟩ => by cases hrest) fun hcond => by simp [hblank] at hcond
  rw [Bool.not_eq_true] at hblank
  cases hre : afterRe line with
  | none =>
    have hout : withRe line = [0x52, 0x65, 0x3A, 0x20] ++ line := by simp [withRe, hre, hblank]
    have hafter : afterRe (withRe line) = some (0x20 :: line) := by rw [hout]; rfl
    have hdrop : (0x20 :: line).dropWhile isSpace = line :=
      (List.dropWhile_cons_of_pos (by decide)).trans h.dropWhile
    refine iff_of_true ⟨0x20 :: line, hafter, ?_, ?_⟩ ⟨hne, hblank, fun _ hrest => by cases hrest⟩
    · rw [hdrop, hre]
    · rw [hdrop]
      exact .done hre
  | some rest =>
    rw [withRe_of_mark (by rw [hre]; rfl), hre]
    constructor
    · rintro ⟨_, ⟨⟩, hone, -⟩
      exact ⟨hne, hblank, fun _ hrest => by cases hrest; exact hone⟩
    · rintro ⟨-, -, hone⟩
      exact ⟨rest, rfl, hone rest rfl, .strip hre (.done (hone rest rfl))⟩

theorem single_re_iff [GoLibrary] [LowerLaws] [LowerAscii] (original : GoString) :
    SingleRe original ↔
      lineOf original ≠ [] ∧ (afterMark 0x20 (lineOf original)).isSome = false ∧
        ∀ rest, afterRe (lineOf original) = some rest → afterRe (rest.dropWhile isSpace) = none := by
  have hline := tidy_lineOf original
  have hrunes : runes (replySubject original) = replied (lineOf original) := by
    rw [replySubject_eq, runes_encode hline.replied.scalars]
  rw [← single_line_iff hline, ← hrunes]
  refine ⟨fun h => h.single, fun h => ⟨?_, ?_, ?_, h⟩⟩
  · rw [replySubject_eq]
    exact validString_encode hline.replied.scalars
  · rw [hrunes]
    exact hline.replied
  · rw [replySubject_eq (replySubject original), replySubject_eq original,
      hline.replied.lineOf_encode, replied_replied]

/-- A prefix that stands there twice stays, and a subject that begins with the word "re" gets none. -/
theorem prefix_twice_or_none :
    letI := asciiLibrary
    (replySubject "Re: Re: x" = "Re: Re: x" ∧ ¬ SingleRe "Re: Re: x") ∧
      (replySubject "re entry" = "re entry" ∧ ¬ SingleRe "re entry") := by
  let := asciiLibrary
  have htwice : afterRe (runes (replySubject "Re: Re: x")) =
    some [0x20, 0x52, 0x65, 0x3A, 0x20, 0x78] := by decide +kernel
  have hnone : afterRe (runes (replySubject "re entry")) = none := by decide +kernel
  refine ⟨⟨by decide +kernel, fun h => ?_⟩, ⟨by decide +kernel, fun h => ?_⟩⟩
  · obtain ⟨rest, hrest, hone, -⟩ := h.single
    obtain rfl := Option.some_inj.mp (htwice.symm.trans hrest)
    exact absurd hone (by decide)
  · obtain ⟨rest, hrest, -⟩ := h.single
    cases hnone.symm.trans hrest

theorem single_re_of_greeting : letI := asciiLibrary; SingleRe "RE: hello" := by
  have hline : lineOf "RE: hello" = [0x52, 0x45, 0x3A, 0x20, 0x68, 0x65, 0x6C, 0x6C, 0x6F] := by
    decide +kernel
  refine (@single_re_iff asciiLibrary asciiLowerLaws lowerAscii_ascii "RE: hello").mpr ?_
  rw [hline]
  refine ⟨by decide, by decide, fun rest hrest => ?_⟩
  obtain rfl := Option.some_inj.mp hrest
  decide

end TangraTicket.Services.Threading
