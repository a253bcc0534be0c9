import TangraTicket.Mailparse.Laws
import TangraTicket.Mailparse.Walk
import TangraTicket.Properties.ReplySubject
import TangraTicket.Properties.SafeFilename
import TangraTicket.Properties.SubjectLines

/-!
The way of a reply subject through the mailer and back through the parser. What is encoded comes
back; a short ASCII subject is written as it is, and a word in it that looks encoded is decoded on
the way back.
-/

namespace TangraTicket.Mailparse

open GoText Services EncodedWord HeaderBlock Threading

/-- What is written for addresses and dates are lines. -/
class WriterLaws [Mailer.MailWriter] : Prop where
  addressString : ∀ name address, Mailer.headerSafe name = true → Mailer.headerSafe address = true →
    HeaderLine (Mailer.MailWriter.addressString name address)
  formatDate : ∀ now, HeaderLine (Mailer.MailWriter.formatDate now)

def storedSubject (v : GoString) : GoString := orNoSubject (truncRunes (oneLine v) maxSubjectRunes)

theorem oneLine_eq (v : GoString) : oneLine v = encode (lineOf (toValidUTF8 v replacementChar)) := by
  have hblanked : Scalars (blanked (runes (toValidUTF8 v replacementChar))) :=
    fun r hr => (of_mem_blanked (scalars_runes _) hr).1
  rw [oneLine, mapRunes_eq, List.filterMap_eq_map', lineOf, ← join_fields_encode hblanked, blanked]

theorem storedSubject_tidy {rs : List ℕ} (h : Tidy rs) (hne : rs ≠ [])
    (hlength : rs.length ≤ maxSubjectRunes) :
    storedSubject (encode rs) = encode rs := by
  have hempty : encode rs ≠ [] := fun hnil => hne ((encode_eq_nil h.scalars).mp hnil)
  rw [storedSubject, oneLine_eq, toValidUTF8_encode h.scalars, h.lineOf_encode, truncRunes,
    runeCount_encode h.scalars, if_pos hlength, orNoSubject, if_neg hempty]

theorem exists_valid (v : GoString) :
    ∃ vs, Scalars vs ∧ toValidUTF8 v replacementChar = encode vs ∧
    (0xFFFD ∉ vs → vs.length ≤ weight v) := by
  suffices hgo : ∀ bad, ∃ vs, Scalars vs ∧ toValidFrom replacementChar bad (pieces v) = encode vs ∧
      (0xFFFD ∉ vs → vs.length ≤ weight v) from hgo false
  induction v using decode_induction with
  | nil => exact fun _ => ⟨[], fun _ hr => absurd hr List.not_mem_nil, rfl, fun _ => Nat.zero_le _⟩
  | formed bs r t hbs ih =>
    intro bad
    obtain ⟨vs, hvs, heq, hlength⟩ := ih false
    refine ⟨r :: vs, Scalars.cons_iff.mpr ⟨hbs.scalar, hvs⟩, ?_, fun hnone => ?_⟩
    · rw [hbs.pieces_append, toValidFrom, if_pos rfl, heq, encode_cons, ← hbs.eq_encodeRune]
    · have hrest := hlength (fun hmem => hnone (List.mem_cons_of_mem r hmem))
      rw [weight_append, weight_of_encodes hbs, List.length_cons]
      omega
  | bad b t hb ih =>
    intro bad
    obtain ⟨vs, hvs, heq, hlength⟩ := ih true
    rw [hb.pieces_cons, toValidFrom, if_neg (by simp [badByte]), heq]
    cases bad with
    | true =>
      refine ⟨vs, hvs, rfl, fun hnone => (hlength hnone).trans ?_⟩
      rw [← List.singleton_append, weight_append]
      exact Nat.le_add_left _ _
    | false =>
      refine ⟨0xFFFD :: vs, Scalars.cons_iff.mpr ⟨by decide, hvs⟩, ?_, fun hnone =>
        absurd List.mem_cons_self hnone⟩
      rw [encode_cons]
      rfl

theorem length_cutRunes {line : List ℕ} (h : Tidy line) {n : ℕ} (hn : n < line.length) (hn' : 2 ≤ n) :
    n ≤ (cutRunes n line).length + 1 := by
  have hline : line = line.take n ++ line.drop n := (List.take_append_drop n line).symm
  have hhead : (line.take n).dropWhile isSpace = line.take n := by
    obtain ⟨c, cs, hcs⟩ :=
      List.exists_cons_of_ne_nil (List.ne_nil_of_length_pos (by omega : 0 < line.length))
    have hfirst : isSpace c = false := by
      by_contra hspace
      have hdrop := h.dropWhile
      rw [hcs, List.dropWhile_cons_of_pos (by simpa using hspace)] at hdrop
      have hle := (List.dropWhile_suffix isSpace (l := cs)).length_le
      rw [hdrop, List.length_cons] at hle
      omega
    obtain ⟨m, rfl⟩ : ∃ m, n = m + 1 := ⟨n - 1, by omega⟩
    rw [hcs, List.take_succ_cons, List.dropWhile_cons_of_neg (by simp [hfirst])]
  rw [cutRunes, if_neg (by omega), trimmed, hhead]
  by_contra hshort
  have hsplit := List.rdropWhile_append_rtakeWhile (p := isSpace) (l := line.take n)
  have hlength := congrArg List.length hsplit
  rw [List.length_append, List.length_take, min_eq_left hn.le] at hlength
  -- two blanks or more have been cut off the end
  rcases htail : (line.take n).rtakeWhile isSpace with _ | ⟨r, _ | ⟨r', rest⟩⟩
  · rw [htail, List.length_nil] at hlength
    omega
  · rw [htail, List.length_singleton] at hlength
    omega
  · have hspaces : ∀ x ∈ (line.take n).rtakeWhile isSpace, isSpace x = true := fun x hx =>
      List.mem_rtakeWhile_imp hx
    rw [htail] at hspaces hsplit
    have hdouble : collapsed ((line.take n).rdropWhile isSpace ++ r :: r' :: (rest ++ line.drop n)) ≠ _ :=
      collapsed_ne_of_double (hspaces r (by simp)) (hspaces r' (by simp))
    apply hdouble
    have heq : (line.take n).rdropWhile isSpace ++ r :: r' :: (rest ++ line.drop n) = line := by
      conv_rhs => rw [hline, ← hsplit]
      simp
    rw [heq, h.spaced]

theorem length_le_weight {v : GoString} {rs : List ℕ} (hrs : Scalars rs) (h : storedSubject v = encode rs)
    (hplain : 0xFFFD ∉ rs) (hgiven : rs ≠ noSubjectRunes) (hlength : rs.length ≤ 994) :
    rs.length ≤ weight v := by
  obtain ⟨vs, hvs, hvalid, hweight⟩ := exists_valid v
  have htidy := tidy_lineOf (toValidUTF8 v replacementChar)
  have hcutscalars : Scalars (cutRunes maxSubjectRunes (lineOf (toValidUTF8 v replacementChar))) := by
    intro r hr
    rw [cutRunes] at hr
    split_ifs at hr
    · exact htidy.scalars r hr
    · exact htidy.scalars r (List.take_subset _ _ (trimmed_subset _ hr))
  rw [storedSubject, oneLine_eq, truncRunes_encode htidy.scalars, orNoSubject] at h
  split_ifs at h
  · have hnone : noSubject = encode noSubjectRunes := by decide
    rw [hnone] at h
    exact absurd (encode_inj hrs tidy_noSubject.scalars h.symm) hgiven
  · have hcut := encode_inj hcutscalars hrs h
    have hwhole : (lineOf (toValidUTF8 v replacementChar)).length ≤ maxSubjectRunes := by
      by_contra hlong
      have hle := length_cutRunes htidy (n := maxSubjectRunes) (by omega) (by decide)
      rw [hcut, maxSubjectRunes] at hle
      omega
    rw [cutRunes, if_pos hwhole, lineOf, hvalid, runes_encode hvs] at hcut
    have hnone : 0xFFFD ∉ vs := by
      intro hmem
      apply hplain
      rw [← hcut]
      exact mem_collapsed (List.mem_map.mpr ⟨0xFFFD, hmem, by decide⟩) (by decide)
    calc rs.length ≤ (blanked vs).length := by rw [← hcut]; exact length_collapsed_le _
      _ = vs.length := List.length_map _
      _ ≤ weight v := hweight hnone

theorem join_words (w : GoString) (ws : List GoString) :
    join (w :: ws) " " = w ++ ws.flatMap fun x => 0x20 :: x := by
  have hblank : goString " " = [0x20] := by decide
  induction ws generalizing w with
  | nil => simp [join]
  | cons w' ws ih =>
    rw [join, List.intercalate_cons_cons, ← join, ih, hblank, List.flatMap_cons]
    simp

theorem encode_flatten (parts : List (List ℕ)) : encode parts.flatten = (parts.map encode).flatten := by
  induction parts with
  | nil => rfl
  | cons part parts ih => rw [List.flatten_cons, encode_append, ih, List.map_cons, List.flatten_cons]

theorem length_le_flatMap (f : GoString → GoString) (l : List GoString) :
    l.length ≤ (l.flatMap fun x => 0x20 :: f x).length := by
  induction l with
  | nil => exact le_refl _
  | cons x l ih =>
    rw [List.flatMap_cons, List.length_append, List.length_cons, List.length_cons]
    omega

theorem ascii_of_plain {rs : List ℕ} (hrs : Scalars rs) (h : needsEncoding (encode rs) = false) :
    ∀ r ∈ rs, r < 0x80 := by
  intro r hr
  rw [needsEncoding, runes_encode hrs, List.any_eq_false] at h
  have hplain := h r hr
  simp at hplain
  omega

theorem length_encode_ascii {rs : List ℕ} (h : ∀ r ∈ rs, r < 0x80) : (encode rs).length = rs.length := by
  induction rs with
  | nil => rfl
  | cons r rs ih =>
    obtain ⟨hr, hrs⟩ := List.forall_mem_cons.mp h
    rw [encode_cons, encodeRune_ascii hr, List.length_append, ih hrs, List.length_singleton,
      List.length_cons]
    omega

section Decoding

variable [GoLibrary]

theorem convertWord_utf8 (reader : CharsetReader) (content : GoString) :
    convertWord reader "utf-8" content = some content :=
  if_pos (by simp [equalFold])

variable [MailLibrary] [WordLaws]

theorem weight_wordReader {charset content text : GoString} (h : wordReader charset content = some text) :
    weight text ≤ content.length := by
  rw [wordReader] at h
  split at h
  · rename_i cs hcs
    obtain ⟨text', htext, hcount⟩ := WordLaws.decodeText cs content
    rw [htext, Option.some.injEq] at h
    rw [← h]
    exact (weight_le_runeCount text').trans hcount
  · rw [← Option.some.inj h]
    exact weight_le_length content

theorem weight_convertWord {charset content text : GoString}
    (h : convertWord wordReader charset content = some text) :
    weight text ≤ content.length := by
  rw [convertWord] at h
  split_ifs at h
  · rw [← Option.some.inj h]
    exact weight_le_length content
  · rw [← Option.some.inj h, weight_encode, List.length_map]
    intro r hr
    obtain ⟨b, -, rfl⟩ := List.mem_map.mp hr
    exact .inl (by have := b.toNat_lt; omega)
  · rw [← Option.some.inj h]
    clear h
    induction content with
    | nil => exact le_refl _
    | cons c content ih =>
      rw [List.flatMap_cons, weight_append, List.length_cons]
      split_ifs
      · have hone := weight_le_length [c]
        simp only [List.length_singleton] at hone
        omega
      · have hone : weight (encode [0xFFFD]) = 1 := by decide
        omega
  · exact weight_wordReader h

theorem convertWord_total (charset content : GoString) :
    ∃ text, convertWord wordReader charset content = some text := by
  rw [convertWord]
  split_ifs
  · exact ⟨_, rfl⟩
  · exact ⟨_, rfl⟩
  · exact ⟨_, rfl⟩
  · rw [wordReader]
    split
    · obtain ⟨text, htext, -⟩ := WordLaws.decodeText ‹Charset› content
      exact ⟨text, htext⟩
    · exact ⟨content, rfl⟩

theorem decodeFrom_total (rounds : ℕ) (between : Bool) (header : GoString) :
    ∃ t, decodeFrom (convertWord wordReader) rounds between header = some t := by
  induction rounds generalizing between header with
  | zero => exact ⟨header, rfl⟩
  | succ rounds ih =>
    rw [decodeFrom]
    split
    · exact ⟨header, rfl⟩
    · rename_i before s hcut
      split
      · exact ⟨header, rfl⟩
      · rename_i w rest hscan
        split
        · obtain ⟨t, ht⟩ := ih false s
          exact ⟨_, by rw [ht]; rfl⟩
        · rename_i content hcontent
          obtain ⟨text, htext⟩ := convertWord_total w.charset content
          obtain ⟨t, ht⟩ := ih true rest
          exact ⟨_, by rw [htext, ht]; rfl⟩

def readSubject (value : GoString) : GoString :=
  storedSubject ((MailLibrary.decodeHeader wordReader value).getD value)

/-- An ASCII subject that is written as it is and holds what can be read as an encoded word. -/
def LooksEncoded (s : GoString) : Prop :=
  needsEncoding s = false ∧ s.length ≤ 66 ∧ holdsWord s.length s = true

def subjectLines (s : GoString) : List GoString :=
  if (qEncode s).length ≤ 66 then [qEncode s] else Mailer.subjectWords s

theorem readSubject_eq (value : GoString) :
    readSubject value = storedSubject ((decodeHeader (convertWord wordReader) value).getD value) := by
  rw [readSubject, WordLaws.decodeHeader]

theorem readSubject_encoded {rs : List ℕ} (h : Tidy rs) (hne : rs ≠ [])
    (hlength : rs.length ≤ maxSubjectRunes) {value : GoString}
    (hdecode : decodeHeader (convertWord wordReader) value = some (encode rs)) :
    readSubject value = encode rs := by
  rw [readSubject_eq, hdecode, Option.getD_some, storedSubject_tidy h hne hlength]

theorem readSubject_plain {rs : List ℕ} (h : Tidy rs) (hne : rs ≠ []) (hgiven : rs ≠ noSubjectRunes)
    (hplain : needsEncoding (encode rs) = false) (hlength : (encode rs).length ≤ 66) :
    readSubject (encode rs) = encode rs ↔ holdsWord (encode rs).length (encode rs) = false := by
  have hascii := ascii_of_plain h.scalars hplain
  have hsize := length_encode_ascii hascii
  constructor
  · intro hread
    by_contra hholds
    rw [Bool.not_eq_false] at hholds
    obtain ⟨t, ht⟩ := decodeFrom_total (encode rs).length false (encode rs)
    have hshort := (weight_decodeFrom (fun _ _ _ => weight_convertWord) ht).2 hholds
    rw [readSubject_eq, decodeHeader, ht, Option.getD_some] at hread
    have hle := length_le_weight h.scalars hread (fun hmem => absurd (hascii _ hmem) (by decide))
      hgiven (by omega)
    omega
  · intro hnone
    exact readSubject_encoded h hne (by rw [maxSubjectRunes]; omega)
      (decodeFrom_of_not_holdsWord hnone false)

omit [WordLaws] in
theorem decodeHeader_words {parts : List (List ℕ)} (hne : parts ≠ []) :
    decodeHeader (convertWord wordReader) (join (parts.map fun p => bWord (encode p)) " ") =
    some (encode parts.flatten) := by
  obtain ⟨first, rest, rfl⟩ := List.exists_cons_of_ne_nil hne
  have hjoin : join ((first :: rest).map fun p => bWord (encode p)) " " =
      bWord (encode first) ++ (rest.map encode).flatMap fun bs => 0x20 :: bWord bs := by
    rw [List.map_cons, join_words, List.flatMap_map, List.flatMap_map]
  have hrounds : rest.length ≤ (bWord (encode first) ++ (rest.map encode).flatMap fun bs =>
      0x20 :: bWord bs).length - 1 := by
    have htail := length_le_flatMap bWord (rest.map encode)
    rw [List.length_map] at htail
    rw [List.length_append, length_bWord]
    omega
  have hsucc : (bWord (encode first) ++ (rest.map encode).flatMap fun bs =>
      0x20 :: bWord bs).length - 1 + 1 =
      (bWord (encode first) ++ (rest.map encode).flatMap fun bs => 0x20 :: bWord bs).length := by
    rw [List.length_append, length_bWord]
    omega
  have hword := decodeFrom_word
    ((bWord (encode first) ++ (rest.map encode).flatMap fun bs => 0x20 :: bWord bs).length - 1)
    false (show 0x3D ∉ ([] : GoString) from List.not_mem_nil)
    (fun h => (Base64.of_mem_encode h).2.2 rfl) (content_b (encode first))
    (convertWord_utf8 wordReader (encode first))
    ((rest.map encode).flatMap fun bs => 0x20 :: bWord bs)
  rw [decodeFrom_words (convertWord_utf8 wordReader) _ (by rw [List.length_map]; exact hrounds),
    hsucc] at hword
  rw [hjoin, decodeHeader, List.flatten_cons, encode_append, encode_flatten]
  exact hword.trans (by simp)

theorem readSubject_words {rs : List ℕ} (h : Tidy rs) (hne : rs ≠ [])
    (hlength : rs.length ≤ maxSubjectRunes) :
    readSubject (join (Mailer.subjectWords (encode rs)) " ") = encode rs := by
  obtain ⟨parts, hparts, hwords⟩ := Mailer.whole_words h.scalars
  have hparts_ne : parts ≠ [] := by
    rintro rfl
    exact hne ((encode_eq_nil h.scalars).mp hparts)
  apply readSubject_encoded h hne hlength
  rw [hwords, decodeHeader_words hparts_ne, hparts]

theorem readSubject_lines {rs : List ℕ} (h : Tidy rs) (hne : rs ≠ []) (hgiven : rs ≠ noSubjectRunes)
    (hlength : rs.length ≤ 994) :
    readSubject (join (subjectLines (encode rs)) " ") = encode rs ↔ ¬ LooksEncoded (encode rs) := by
  have hjoin : ∀ w : GoString, join [w] " " = w := fun w => by simp [join]
  have hlimit : rs.length ≤ maxSubjectRunes := hlength.trans (by decide)
  rw [subjectLines]
  by_cases hneeds : needsEncoding (encode rs) = true
  · have hlooks : ¬ LooksEncoded (encode rs) := fun hl => by rw [hl.1] at hneeds; cases hneeds
    refine iff_of_true ?_ hlooks
    split_ifs with hshort
    · have hword := qEncode_eq_word hneeds (by have := (qEncode_short (by omega) hneeds).mp hshort; omega)
      rw [hjoin, hword]
      exact readSubject_encoded h hne hlimit (decodeHeader_q (convertWord_utf8 wordReader))
    · exact readSubject_words h hne hlimit
  · rw [Bool.not_eq_true] at hneeds
    have hsame : qEncode (encode rs) = encode rs := by
      rw [qEncode, hneeds]
      rfl
    rw [hsame]
    split_ifs with hshort
    · rw [hjoin, readSubject_plain h hne hgiven hneeds hshort, LooksEncoded]
      simp [hneeds, hshort]
    · exact iff_of_true (readSubject_words h hne hlimit) fun hl => hshort hl.2.1

end Decoding

section Built

theorem ends_of_tidy {rs : List ℕ} (h : Tidy rs) {front : List ℕ} {r : ℕ}
    (heq : rs = front ++ [r]) : isSpace r = false := by
  by_contra hspace
  rw [Bool.not_eq_false] at hspace
  have hwords : wordsOf (front ++ r :: []) = wordsOf front := by
    rw [wordsOf, List.splitOnP_append_cons _ _ hspace, List.filter_append]
    simp [wordsOf]
  have hlength := length_spacedOut (wordsOf (front ++ r :: []))
  have hroom : room (wordsOf front) ≤ front.length + 1 :=
    (room_filter_le _ _).trans_eq (room_splitOnP front)
  rw [← collapsed, ← heq, h.spaced, heq, hwords, List.length_append, List.length_singleton] at hlength
  omega

theorem headerLine_of_visible {l : GoString} (hne : l ≠ []) (h : ∀ b ∈ l, 0x20 < b ∧ b < 0x7F) :
    HeaderLine l := by
  have hends : ∀ b ∈ l, b ≠ 0x20 ∧ b ≠ 0x09 := by
    intro b hb
    have hvisible := (h b hb).1
    exact ⟨fun heq => absurd (heq ▸ hvisible) (by decide), fun heq => absurd (heq ▸ hvisible) (by decide)⟩
  refine ⟨hne, fun b hb => .inl ⟨UInt8.le_of_lt (h b hb).1, UInt8.ne_of_lt (h b hb).2⟩, fun b hb =>
    ?_, fun b hb => ?_⟩
  · exact hends b (List.mem_of_mem_head? hb)
  · exact hends b (List.mem_of_mem_getLast? hb)

def plainLine (l : GoString) : Bool :=
  l ≠ [] ∧ (l.all fun b => 0x20 ≤ b ∧ b ≠ 0x7F) ∧ (l.head? ≠ some 0x20 ∧ l.head? ≠ some 0x09) ∧
    l.getLast? ≠ some 0x20 ∧ l.getLast? ≠ some 0x09

theorem headerLine_of_plainLine {l : GoString} (h : plainLine l = true) : HeaderLine l := by
  simp only [plainLine, decide_eq_true_eq, List.all_eq_true] at h
  obtain ⟨hne, hbytes, hhead, hlast⟩ := h
  refine ⟨hne, fun b hb => .inl (hbytes b hb), fun b hb => ⟨?_, ?_⟩, fun b hb => ⟨?_, ?_⟩⟩
  · exact fun heq => hhead.1 (heq ▸ hb)
  · exact fun heq => hhead.2 (heq ▸ hb)
  · exact fun heq => hlast.1 (heq ▸ hb)
  · exact fun heq => hlast.2 (heq ▸ hb)

theorem bytes_of_headerSafe {v : GoString} (h : Mailer.headerSafe v = true) :
    ∀ b ∈ v, (0x20 ≤ b ∧ b ≠ 0x7F) ∨ b = 0x09 := by
  obtain ⟨hvalid, hall⟩ := (Bool.and_eq_true _ _).mp h
  obtain ⟨rs, hrs, rfl⟩ := exists_encode hvalid
  rw [runes_encode hrs, List.all_eq_true] at hall
  intro b hb
  obtain ⟨r, hr, hb⟩ := List.mem_flatMap.mp hb
  by_cases hlow : r < 0x80
  · rw [encodeRune_ascii hlow, List.mem_singleton] at hb
    have hsafe := hall r hr
    have htable : ∀ r < 0x80,
        (!(r = 0x0D || r = 0x0A || r = 0 || (r < 0x20 && r ≠ 0x09) || r = 0x7F)) = true →
        (0x20 ≤ r.toUInt8 ∧ r.toUInt8 ≠ 0x7F) ∨ r.toUInt8 = 0x09 := by decide +kernel
    rw [hb]
    exact htable r hlow (by simpa using hsafe)
  · have hwide := le_of_mem_encodeRune (by omega) (hrs r hr) hb
    refine .inl ⟨UInt8.le_iff_toNat_le.mpr (le_trans (by decide) hwide), fun heq => ?_⟩
    rw [heq] at hwide
    exact absurd hwide (by decide)

theorem headerLine_bracketed {id : GoString} (h : Mailer.headerSafe id = true) :
    HeaderLine (Mailer.bracketed id) := by
  have hopen : goString "<" = [0x3C] := by decide
  have hclose : goString ">" = [0x3E] := by decide
  rw [Mailer.bracketed, hopen, hclose]
  refine ⟨by simp, fun b hb => ?_, fun b hb => ?_, fun b hb => ?_⟩
  · simp only [List.mem_append, List.mem_singleton] at hb
    rcases hb with (rfl | hb) | rfl
    · decide
    · exact bytes_of_headerSafe h b hb
    · decide
  · simp only [List.cons_append, List.head?_cons, Option.mem_def, Option.some.injEq] at hb
    rw [← hb]
    decide
  · rw [List.getLast?_append, List.getLast?_singleton, Option.some_or, Option.mem_def,
      Option.some.injEq] at hb
    rw [← hb]
    decide

theorem headerLine_plain {rs : List ℕ} (h : Tidy rs) (hne : rs ≠ [])
    (hplain : needsEncoding (encode rs) = false) :
    HeaderLine (encode rs) := by
  have hascii := ascii_of_plain h.scalars hplain
  have hsolid : ∀ r < 0x80, isSpace r = false → r.toUInt8 ≠ 0x20 ∧ r.toUInt8 ≠ 0x09 := by decide +kernel
  have hsafe : ∀ r < 0x80, isControl r = false → 0x20 ≤ r.toUInt8 ∧ r.toUInt8 ≠ 0x7F := by decide +kernel
  refine ⟨fun hnil => hne ((encode_eq_nil h.scalars).mp hnil), fun b hb => ?_, fun b hb =>
    ?_, fun b hb => ?_⟩
  · obtain ⟨r, hr, hb⟩ := List.mem_flatMap.mp hb
    rw [encodeRune_ascii (hascii r hr), List.mem_singleton] at hb
    rw [hb]
    exact .inl (hsafe r (hascii r hr) (h.plain r hr))
  · obtain ⟨r, rest, rfl⟩ := List.exists_cons_of_ne_nil hne
    have hr := hascii r List.mem_cons_self
    have hspace : isSpace r = false := head_of_dropWhile h.dropWhile r rfl
    rw [encode_cons, encodeRune_ascii hr, List.singleton_append, List.head?_cons, Option.mem_def,
      Option.some.injEq] at hb
    rw [← hb]
    exact hsolid r hr hspace
  · obtain ⟨front, r, rfl⟩ := (List.eq_nil_or_concat rs).resolve_left hne
    have hr := hascii r (by simp)
    have hspace := ends_of_tidy h (show front.concat r = front ++ [r] from List.concat_eq_append)
    rw [List.concat_eq_append, encode_append, encode_cons, encodeRune_ascii hr, encode_nil, List.append_nil,
      List.getLast?_append, List.getLast?_singleton, Option.some_or, Option.mem_def,
      Option.some.injEq] at hb
    rw [← hb]
    exact hsolid r hr hspace

theorem headerLine_subject {rs : List ℕ} (h : Tidy rs) (hne : rs ≠ []) :
    ∀ l ∈ subjectLines (encode rs), HeaderLine l := by
  intro l hl
  rw [subjectLines] at hl
  split_ifs at hl with hshort
  · rw [List.mem_singleton.mp hl]
    by_cases hneeds : needsEncoding (encode rs) = true
    · have hword := qEncode_eq_word hneeds (by have := (qEncode_short (by omega) hneeds).mp hshort; omega)
      rw [hword]
      exact headerLine_of_visible (by simp [opening]) fun b hb => Mailer.visible_qWord hb
    · have hsame : qEncode (encode rs) = encode rs := if_neg hneeds
      rw [hsame]
      exact headerLine_plain h hne (by simpa using hneeds)
  · obtain ⟨c, -, rfl⟩ := List.mem_map.mp hl
    exact headerLine_of_visible (by simp [bWord, opening]) fun b hb => Mailer.visible_bWord hb

variable [Mailer.MailWriter]

def fieldsBefore (m : OutMail) : List HeaderField :=
  [⟨"From", [Mailer.MailWriter.addressString m.fromName m.fromAddress]⟩,
    ⟨"To", [Mailer.MailWriter.addressString m.toName m.toAddress]⟩]

def fieldsAfter (m : OutMail) (now : Store.Time) : List HeaderField :=
  [⟨"Date", [Mailer.MailWriter.formatDate now]⟩, ⟨"Message-ID", [Mailer.bracketed m.messageID]⟩] ++
  (if m.inReplyTo ≠ [] then [⟨"In-Reply-To", [Mailer.bracketed m.inReplyTo]⟩] else []) ++
  (if m.references ≠ [] then [⟨"References", m.references.map Mailer.bracketed⟩] else []) ++
  (if m.autoReply then [⟨"Auto-Submitted", ["auto-replied"]⟩, ⟨"Precedence", ["auto_reply"]⟩] else []) ++
  [⟨"MIME-Version", ["1.0"]⟩, ⟨"X-Mailer", ["freya-ticket"]⟩,
    ⟨"Content-Type", ["text/plain; charset=utf-8"]⟩, ⟨"Content-Transfer-Encoding", ["quoted-printable"]⟩]

def foldedFields (m : OutMail) (now : Store.Time) : List HeaderField :=
  fieldsBefore m ++ ⟨"Subject", subjectLines m.subject⟩ :: fieldsAfter m now

omit [Mailer.MailWriter] in
theorem encodeSubject_eq (s : GoString) : Mailer.encodeSubject s = join (subjectLines s) "\r\n " := by
  rw [Mailer.encodeSubject, subjectLines]
  split_ifs
  · simp [join]
  · rfl

theorem text_foldedFields (m : OutMail) (now : Store.Time) :
    (foldedFields m now).flatMap HeaderField.text =
    (Mailer.headerFields m now).flatMap Mailer.fieldText := by
  have hpairs : (foldedFields m now).map (fun f => (f.name, join f.lines "\r\n ")) =
      Mailer.headerFields m now := by
    have hjoin : ∀ w : GoString, join [w] "\r\n " = w := fun w => by simp [join]
    rw [foldedFields, fieldsBefore, fieldsAfter, Mailer.headerFields]
    simp only [List.map_append, List.map_cons, List.map_nil, apply_ite (List.map _), hjoin,
      ← encodeSubject_eq, Mailer.field, List.cons_append, List.nil_append, List.append_assoc]
  rw [← hpairs, List.flatMap_map]
  rfl

def otherNames : List GoString :=
  ["From", "To", "Date", "Message-ID", "In-Reply-To", "References", "Auto-Submitted", "Precedence",
    "MIME-Version", "X-Mailer", "Content-Type", "Content-Transfer-Encoding"]

omit [Mailer.MailWriter] in
theorem of_mem_otherNames : ∀ n ∈ otherNames, (n ≠ [] ∧ ∀ b ∈ n, 0x21 ≤ b ∧ b ≤ 0x7E ∧ b ≠ 0x3A) ∧
    n.map lowerByte ≠ (goString "Subject").map lowerByte := by
  have htable : (otherNames.all fun n => n ≠ [] ∧ (n.all fun b => 0x21 ≤ b ∧ b ≤ 0x7E ∧ b ≠ 0x3A) ∧
      n.map lowerByte ≠ (goString "Subject").map lowerByte) = true := by decide +kernel
  intro n hn
  have h := List.all_eq_true.mp htable n hn
  simp only [decide_eq_true_eq, List.all_eq_true] at h
  exact ⟨⟨h.1, h.2.1⟩, h.2.2⟩

structure Other (f : HeaderField) : Prop where
  name_mem : f.name ∈ otherNames
  lines_ne : f.lines ≠ []
  lines_ok : ∀ l ∈ f.lines, HeaderLine l

omit [Mailer.MailWriter] in
theorem Other.single {n l : GoString} (hn : n ∈ otherNames) (hl : HeaderLine l) : Other ⟨n, [l]⟩ :=
  ⟨hn, by simp, fun x hx => by rw [List.mem_singleton.mp hx]; exact hl⟩

omit [Mailer.MailWriter] in
theorem Other.wellFormed {f : HeaderField} (h : Other f) : f.WellFormed :=
  ⟨(of_mem_otherNames _ h.name_mem).1.1, (of_mem_otherNames _ h.name_mem).1.2, h.lines_ne, h.lines_ok⟩

theorem other_of_mem [GoLibrary] [WriterLaws] {m : OutMail} (hm : Mailer.validate m = true)
    {now : Store.Time} {f : HeaderField} (hf : f ∈ fieldsBefore m ++ fieldsAfter m now) : Other f := by
  simp only [Mailer.validate, Bool.and_eq_true, List.all_cons, List.all_nil, Mailer.validID,
    Bool.or_eq_true, decide_eq_true_eq, List.all_eq_true] at hm
  obtain ⟨⟨⟨⟨⟨⟨hsafe, hid⟩, hreply⟩, -⟩, hrefs⟩, -⟩, -⟩ := hm
  obtain ⟨hfrom, hfromName, hto, htoName, -⟩ := hsafe
  have hplain : ∀ l : GoString, l ∈ [goString "auto-replied", goString "auto_reply", goString "1.0",
      goString "freya-ticket", goString "text/plain; charset=utf-8", goString "quoted-printable"] →
      HeaderLine l := by
    have htable : ([goString "auto-replied", goString "auto_reply", goString "1.0", goString "freya-ticket",
        goString "text/plain; charset=utf-8", goString "quoted-printable"].all plainLine) =
        true := by decide +kernel
    exact fun l hl => headerLine_of_plainLine (List.all_eq_true.mp htable l hl)
  simp only [fieldsBefore, fieldsAfter, List.mem_append, List.mem_cons, List.not_mem_nil, or_false] at hf
  rcases hf with (rfl | rfl) | ((((rfl | rfl) | hf) | hf) | hf) | (rfl | rfl | rfl | rfl)
  · exact .single (by simp [otherNames]) (WriterLaws.addressString _ _ hfromName hfrom)
  · exact .single (by simp [otherNames]) (WriterLaws.addressString _ _ htoName hto)
  · exact .single (by simp [otherNames]) (WriterLaws.formatDate now)
  · exact .single (by simp [otherNames]) (headerLine_bracketed hid.1.2)
  · split_ifs at hf with hgiven
    · rw [List.mem_singleton.mp hf]
      exact .single (by simp [otherNames]) (headerLine_bracketed (hreply.resolve_left hgiven).1.2)
    · cases hf
  · split_ifs at hf with hgiven
    · rw [List.mem_singleton.mp hf]
      refine ⟨by simp [otherNames], by simpa using hgiven, fun l hl => ?_⟩
      obtain ⟨r, hr, rfl⟩ := List.mem_map.mp hl
      exact headerLine_bracketed (hrefs r hr).1.2
    · cases hf
  · split_ifs at hf
    · simp only [List.mem_cons, List.not_mem_nil, or_false] at hf
      rcases hf with rfl | rfl
      · exact .single (by simp [otherNames]) (hplain _ (by simp))
      · exact .single (by simp [otherNames]) (hplain _ (by simp))
    · cases hf
  · exact .single (by simp [otherNames]) (hplain _ (by simp))
  · exact .single (by simp [otherNames]) (hplain _ (by simp))
  · exact .single (by simp [otherNames]) (hplain _ (by simp))
  · exact .single (by simp [otherNames]) (hplain _ (by simp))

variable [GoLibrary] [MailLibrary]

theorem readMessage_build [ReadLaws] [WriterLaws] {m : OutMail} {now : Store.Time} {raw : GoString}
    (hbuild : Mailer.build m now = some raw) (hne : subjectLines m.subject ≠ [])
    (hlines : ∀ l ∈ subjectLines m.subject, HeaderLine l) :
    ∃ (h : Header) (body : GoString), MailLibrary.readMessage raw = some (h, body) ∧
      h.get "Subject" = join (subjectLines m.subject) " " := by
  rw [Mailer.build] at hbuild
  split_ifs at hbuild with hm
  have hothers : ∀ f ∈ fieldsBefore m ++ fieldsAfter m now, Other f := fun f hf => other_of_mem hm hf
  obtain ⟨hbefore, hafter⟩ := List.forall_mem_append.mp hothers
  have hname : goString "Subject" ≠ [] ∧ ∀ b ∈ goString "Subject", 0x21 ≤ b ∧ b ≤ 0x7E ∧
    b ≠ 0x3A := by decide +kernel
  have hsubject : (HeaderField.mk "Subject" (subjectLines m.subject)).WellFormed :=
    ⟨hname.1, hname.2, hne, hlines⟩
  have hformed : ∀ f ∈ foldedFields m now, f.WellFormed :=
    List.forall_mem_append.mpr ⟨fun f hf => (hbefore f hf).wellFormed,
      List.forall_mem_cons.mpr ⟨hsubject, fun f hf => (hafter f hf).wellFormed⟩⟩
  obtain ⟨h, hread, hfields⟩ := ReadLaws.readMessage (foldedFields m now)
    (Mailer.MailWriter.quotedPrintable (toValidUTF8 m.text (encode [0xFFFD])) ++ goString "\r\n") hformed
  rw [text_foldedFields, ← List.append_assoc, Option.some.inj hbuild] at hread
  refine ⟨h, _, hread, ?_⟩
  have hother : ∀ fs : List HeaderField, (∀ f ∈ fs, Other f) →
      fs.filter (fun f => f.name.map lowerByte = (goString "Subject").map lowerByte) = [] := by
    intro fs hfs
    rw [List.filter_eq_nil_iff]
    intro f hf
    simpa using (of_mem_otherNames _ (hfs f hf).name_mem).2
  rw [Header.get, hfields, valuesOf, foldedFields, List.filter_append, hother _ hbefore,
    List.nil_append, List.filter_cons, hother _ hafter]
  simp

omit [Mailer.MailWriter] in
theorem eq_of_parse {raw : GoString} {lim : Limits} {msg : Message} {h : Header} {body : GoString}
    (hread : MailLibrary.readMessage raw = some (h, body)) (hparse : parse raw lim = .ok msg) :
    msg = (Parser.readBody h body { lim := lim.orDefaults, out := headers h {} }).finish := by
  rw [parse, hread] at hparse
  dsimp only at hparse
  split_ifs at hparse
  exact (Except.ok.inj hparse).symm

omit [Mailer.MailWriter] in
theorem subject_readBody {p : Parser} (hdepth : 0 ≤ p.lim.maxDepth) (hatt : 0 < p.lim.maxAttachmentBytes)
    (htr : p.out.truncated = false) (h : Header) (body : GoString) :
    (p.readBody h body).finish.subject = p.out.subject := by
  have hout := (readBody_out hdepth hatt htr h body).2
  rw [Parser.finish, hout, markShort, addFiles]

omit [Mailer.MailWriter] in
theorem parse_subject {raw : GoString} {lim : Limits} {msg : Message} {h : Header} {body : GoString}
    (hread : MailLibrary.readMessage raw = some (h, body)) (hparse : parse raw lim = .ok msg) :
    msg.subject = readSubject (h.get "Subject") := by
  have hpos : ∀ limit default : ℤ, 0 < default → 0 < orDefault limit default := by
    intro limit default hdefault
    unfold orDefault
    split_ifs <;> omega
  have hdepth : 0 < lim.orDefaults.maxDepth := hpos lim.maxDepth defaultLimits.maxDepth (by decide)
  have hatt : 0 < lim.orDefaults.maxAttachmentBytes :=
    hpos lim.maxAttachmentBytes defaultLimits.maxAttachmentBytes (by decide)
  rw [eq_of_parse hread hparse, subject_readBody hdepth.le hatt rfl, headers, readSubject, storedSubject]

end Built

theorem replied_ne (line : List ℕ) : replied line ≠ [] ∧ replied line ≠ noSubjectRunes := by
  have hmark := mark_withRe (if line = [] then noSubjectRunes else line)
  rw [← replied] at hmark
  refine ⟨fun h => ?_, fun h => ?_⟩
  · rw [h] at hmark
    cases hmark
  · rw [h] at hmark
    cases hmark

theorem length_replied_lineOf {stored : GoString} (h : runeCount stored ≤ 990) :
    (replied (lineOf stored)).length ≤ 994 := by
  have hwith : ∀ line, (withRe line).length ≤ line.length + 4 := by
    intro line
    rw [withRe]
    split_ifs
    · exact Nat.le_add_right _ _
    · exact (List.length_append.trans (Nat.add_comm _ _)).le
  have hline : (lineOf stored).length ≤ 990 := by
    refine (length_collapsed_le _).trans ?_
    rwa [blanked, List.length_map, runes, List.length_map]
  rw [replied]
  refine (hwith _).trans ?_
  split_ifs
  · decide
  · omega

theorem subjectLines_ne {rs : List ℕ} (h : Scalars rs) (hne : rs ≠ []) : subjectLines (encode rs) ≠ [] := by
  obtain ⟨r, rest, rfl⟩ := List.exists_cons_of_ne_nil hne
  rw [subjectLines]
  split_ifs
  · exact List.cons_ne_nil _ _
  · rw [Mailer.subjectWords, pieces_encode h, List.map_cons, List.length_cons, Mailer.chunks]
    exact List.cons_ne_nil _ _

/-- The subject of a reply comes back, unless it is short, ASCII, and holds what can be read as an
encoded word. -/
theorem reply_subject_comes_back_iff [GoLibrary] [LowerLaws] [LowerAscii] [MailLibrary]
    [WordLaws] [ReadLaws] [Mailer.MailWriter] [WriterLaws] {stored : GoString}
    (hstored : runeCount stored ≤ 990) {m : OutMail} (hm : m.subject = replySubject stored)
    {now : Store.Time} {raw : GoString} (hbuild : Mailer.build m now = some raw) {lim : Limits}
    {msg : Message} (hparse : parse raw lim = .ok msg) :
    msg.subject = m.subject ↔ ¬ LooksEncoded m.subject := by
  have htidy : Tidy (replied (lineOf stored)) := (tidy_lineOf stored).replied
  obtain ⟨hne, hgiven⟩ := replied_ne (lineOf stored)
  have hsubject : m.subject = encode (replied (lineOf stored)) := hm.trans (replySubject_eq stored)
  obtain ⟨h, body, hread, hvalue⟩ := readMessage_build hbuild (hsubject ▸ subjectLines_ne htidy.scalars hne)
    (hsubject ▸ headerLine_subject htidy hne)
  rw [parse_subject hread hparse, hvalue, hsubject]
  exact readSubject_lines htidy hne hgiven (length_replied_lineOf hstored)

@[reducible] def plainWriter : Mailer.MailWriter where
  addressString := fun _ address => Mailer.bracketed address
  formatDate := fun _ => "Thu, 01 Jan 1970 00:00:00 +0000"
  quotedPrintable := id

theorem plainWriter_lines : @WriterLaws plainWriter := by
  let := plainWriter
  have hdate : HeaderLine (goString "Thu, 01 Jan 1970 00:00:00 +0000") :=
    headerLine_of_plainLine (by decide +kernel)
  exact ⟨fun _ _ _ haddress => headerLine_bracketed haddress, fun _ => hdate⟩

def replyMail (subject : GoString) : OutMail where
  fromAddress := "help@x.y"
  fromName := []
  toAddress := "a@x.y"
  toName := []
  subject := subject
  text := "ok"
  messageID := "1@x.y"

def replyRaw (subject : GoString) : GoString :=
  letI := asciiLibrary
  letI := plainWriter
  (Mailer.build (replyMail subject) 0).getD []

def replyRead (subject : GoString) : Option GoString :=
  letI := asciiLibrary
  letI := plainMail
  (parse (replyRaw subject) {}).toOption.map Message.subject

theorem exists_of_replyRead {subject x : GoString} (h : replyRead subject = some x) :
    letI := asciiLibrary
    letI := plainMail
    ∃ msg, parse (replyRaw subject) {} = .ok msg ∧ msg.subject = x := by
  let := asciiLibrary
  let := plainMail
  obtain ⟨msg, hmsg, hx⟩ := Option.map_eq_some_iff.mp h
  refine ⟨msg, ?_, hx⟩
  cases hparse : parse (replyRaw subject) {} with
  | error e => rw [hparse] at hmsg; cases hmsg
  | ok msg' => rw [hparse] at hmsg; rw [Option.some.inj hmsg]

/-- A subject with what can be read as an encoded word: it comes back decoded. -/
theorem encoded_word_is_decoded :
    letI := asciiLibrary
    letI := plainMail
    letI := plainWriter
    runeCount "=?utf-8?q?abc?=" ≤ 990 ∧ replySubject "=?utf-8?q?abc?=" = "Re: =?utf-8?q?abc?=" ∧
      Mailer.build (replyMail "Re: =?utf-8?q?abc?=") 0 = some (replyRaw "Re: =?utf-8?q?abc?=") ∧
      ∃ msg, parse (replyRaw "Re: =?utf-8?q?abc?=") {} = .ok msg ∧ msg.subject = goString "Re: abc" :=
  ⟨by decide +kernel, by decide +kernel, by decide +kernel, exists_of_replyRead (by decide +kernel)⟩

def wideStored : GoString := encode (List.replicate 40 0xE9)

def wideReply : GoString := goString "Re: " ++ wideStored

theorem wide_subject_comes_back :
    letI := asciiLibrary
    letI := plainMail
    (Mailer.subjectWords wideReply).length = 2 ∧ ∃ msg, parse (replyRaw wideReply) {} = .ok msg ∧
    msg.subject = wideReply := by
  let := asciiLibrary
  let := plainMail
  let := plainWriter
  have := asciiLowerLaws
  have := lowerAscii_ascii
  have := plainMail_words
  have := plainMail_reads
  have := plainWriter_lines
  have hread : (replyRead wideReply).isSome = true := by decide +kernel
  obtain ⟨x, hx⟩ := Option.isSome_iff_exists.mp hread
  obtain ⟨msg, hparse, -⟩ := exists_of_replyRead hx
  have hstored : runeCount wideStored ≤ 990 := by decide +kernel
  have hm : (replyMail wideReply).subject = replySubject wideStored := by decide +kernel
  have hbuild : Mailer.build (replyMail wideReply) 0 = some (replyRaw wideReply) := by decide +kernel
  have hplain : ¬ LooksEncoded wideReply := by
    rintro ⟨hascii, -⟩
    exact absurd hascii (by decide +kernel)
  exact ⟨by decide +kernel, msg, hparse, (reply_subject_comes_back_iff hstored hm hbuild hparse).mpr hplain⟩

end TangraTicket.Mailparse
