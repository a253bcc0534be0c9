import TangraTicket.Services.MailBuild

/-!
The length of subject lines. A word of base64 takes up to 72 characters, which fits a continuation
line, but not behind the field name.
-/

namespace TangraTicket.Services.Mailer

open GoText EncodedWord

def physicalLines : GoString → List GoString
  | [] => [[]]
  | 0x0D :: 0x0A :: rest => [] :: physicalLines rest
  | b :: rest => (physicalLines rest).modifyHead (b :: ·)

theorem physicalLines_cons {b : UInt8} (hb : b ≠ 0x0D) (rest : GoString) :
    physicalLines (b :: rest) = (physicalLines rest).modifyHead (b :: ·) := by
  rw [physicalLines]
  intro rest' h
  exact absurd h hb

theorem physicalLines_line {l : GoString} (hl : 0x0D ∉ l) (rest : GoString) :
    physicalLines (l ++ 0x0D :: 0x0A :: rest) = l :: physicalLines rest := by
  induction l with
  | nil => rfl
  | cons b l ih =>
    obtain ⟨hb, hl⟩ := List.ne_and_not_mem_of_not_mem_cons hl
    rw [List.cons_append, physicalLines_cons (Ne.symm hb), ih hl]
    rfl

theorem physicalLines_join {front w : GoString} {ws : List GoString} (hfront : 0x0D ∉ front)
    (hws : ∀ x ∈ w :: ws, 0x0D ∉ x) :
    physicalLines (front ++ join (w :: ws) "\r\n " ++ goString "\r\n") = (front ++ w) ::
    (ws.map (0x20 :: ·) ++ [[]]) := by
  have hend : goString "\r\n" = [0x0D, 0x0A] := by decide
  have hsep : goString "\r\n " = [0x0D, 0x0A, 0x20] := by decide
  induction ws generalizing front w with
  | nil =>
    have hjoin : join [w] "\r\n " = w := by simp [join]
    have hline : 0x0D ∉ front ++ w := by simp [hfront, hws w]
    rw [hjoin, hend, physicalLines_line hline]
    rfl
  | cons w' ws ih =>
    obtain ⟨hw, hws⟩ := List.forall_mem_cons.mp hws
    have hline : 0x0D ∉ front ++ w := by simp [hfront, hw]
    have hjoin : join (w :: w' :: ws) "\r\n " = w ++ 0x0D :: 0x0A ::
        ([0x20] ++ join (w' :: ws) "\r\n ") := by
      rw [join, List.intercalate_cons_cons, hsep]
      simp [join]
    have hrest := ih (show 0x0D ∉ ([0x20] : GoString) by decide) hws
    rw [hjoin, ← List.append_assoc, List.append_assoc _ _ (goString "\r\n"), List.cons_append,
      List.cons_append, physicalLines_line hline, hrest]
    rfl

section Chunks

variable {room : ℕ} {ps : List Piece}

theorem chunk_append (room : ℕ) (ps : List Piece) : (chunk room ps).1 ++ (chunk room ps).2 = ps := by
  induction ps generalizing room with
  | nil => rfl
  | cons p ps ih =>
    rw [chunk]
    split_ifs
    · rfl
    · rw [List.cons_append, ih]

theorem length_joinPieces_cons (p : Piece) (ps : List Piece) :
    (joinPieces (p :: ps)).length = p.bytes.length + (joinPieces ps).length := List.length_append

theorem length_chunk_le (room : ℕ) (ps : List Piece) : (joinPieces (chunk room ps).1).length ≤ room := by
  induction ps generalizing room with
  | nil => exact Nat.zero_le room
  | cons p ps ih =>
    rw [chunk]
    split_ifs with hp
    · exact Nat.zero_le room
    · have hrest := ih (room - p.bytes.length)
      rw [length_joinPieces_cons]
      omega

theorem le_length_chunk {front back : List Piece} (h : (joinPieces front).length ≤ room) :
    (joinPieces front).length ≤ (joinPieces (chunk room (front ++ back)).1).length := by
  induction front generalizing room with
  | nil => exact Nat.zero_le _
  | cons p front ih =>
    rw [length_joinPieces_cons] at h ⊢
    rw [List.cons_append, chunk, if_neg (by omega), length_joinPieces_cons]
    have hfits : (joinPieces front).length ≤ room - p.bytes.length := by omega
    have hrest := ih hfits
    omega

theorem chunks_flatten {rounds : ℕ} (hrounds : ps.length ≤ rounds) (hps : ∀ p ∈ ps, p.bytes.length ≤ 45) :
    (chunks rounds ps).flatten = ps := by
  induction rounds generalizing ps with
  | zero =>
    obtain rfl := List.length_eq_zero_iff.mp (Nat.le_zero.mp hrounds)
    rfl
  | succ rounds ih =>
    cases ps with
    | nil => rfl
    | cons p ps =>
      have hp : p.bytes.length ≤ 45 := hps p List.mem_cons_self
      have happend := chunk_append 45 (p :: ps)
      have hshort : (chunk 45 (p :: ps)).2.length ≤ rounds := by
        have hlength := congrArg List.length happend
        have hfirst : 0 < (chunk 45 (p :: ps)).1.length := by
          rw [chunk, if_neg (by omega)]
          exact Nat.succ_pos _
        rw [List.length_append] at hlength
        simp only [List.length_cons] at hrounds hlength
        omega
      have hrest : ∀ q ∈ (chunk 45 (p :: ps)).2, q.bytes.length ≤ 45 := by
        intro q hq
        exact hps q (by rw [← happend]; exact List.mem_append_right _ hq)
      rw [chunks, List.flatten_cons, ih hshort hrest, happend]

theorem length_of_mem_chunks {rounds : ℕ} {c : List Piece} (h : c ∈ chunks rounds ps) :
    (joinPieces c).length ≤ 45 := by
  induction rounds generalizing ps with
  | zero => cases h
  | succ rounds ih =>
    cases ps with
    | nil => cases h
    | cons p ps =>
      rcases List.mem_cons.mp h with rfl | h
      · exact length_chunk_le 45 (p :: ps)
      · exact ih h

end Chunks

theorem length_encodeRune_le (r : ℕ) : (encodeRune r).length ≤ 4 := by
  unfold encodeRune
  split_ifs <;> simp

/-- The subject is written as it is, or as one word of quoted text. -/
def Short (s : GoString) : Prop := if needsEncoding s then 12 + (qText s).length ≤ 66 else s.length ≤ 66

theorem short_iff (s : GoString) : Short s ↔ (qEncode s).length ≤ 66 := by
  unfold Short
  split_ifs with hs
  · exact (qEncode_short (by omega) hs).symm
  · rw [qEncode, if_neg hs]

instance (s : GoString) : Decidable (Short s) := decidable_of_iff _ (short_iff s).symm

/-- No start of whole characters takes 43, 44 or 45 bytes. -/
def FitsBehindName (s : GoString) : Prop :=
  ∀ front back, runes s = front ++ back → ¬ (43 ≤ (encode front).length ∧ (encode front).length ≤ 45)

def qWord (bs : GoString) : GoString := opening 0x71 ++ qText bs ++ closing

/-- Every line of the subject field is at most 78 characters long, and every encoded word holds
whole characters. -/
structure Folded (s : GoString) : Prop where
  lines : ∀ l ∈ physicalLines (fieldText (field "Subject" (encodeSubject s))), l.length ≤ 78
  whole : ∃ parts : List (List ℕ), s = encode parts.flatten ∧
    (encodeSubject s = s ∨ encodeSubject s = join (parts.map fun p => qWord (encode p)) " " ∨
      encodeSubject s = join (parts.map fun p => bWord (encode p)) "\r\n ")

def subjectName : GoString := "Subject: "

theorem fieldText_subject (v : GoString) :
    fieldText (field "Subject" v) = subjectName ++ v ++ goString "\r\n" := by
  have hname : goString "Subject" ++ goString ": " = subjectName := by decide
  rw [fieldText, field, hname]

theorem visible_qByte {b c : UInt8} (h : c ∈ qByte b) : 0x20 < c ∧ c < 0x7F := by
  have hall : ∀ n < 256, ∀ c ∈ qByte n.toUInt8, 0x20 < c ∧ c < 0x7F := by decide +kernel
  have hb := hall b.toNat b.toNat_lt
  rw [Nat.toUInt8_eq, UInt8.ofNat_toNat] at hb
  exact hb c h

theorem visible_qWord {bs : GoString} {c : UInt8} (h : c ∈ qWord bs) : 0x20 < c ∧ c < 0x7F := by
  have hopen : ∀ c ∈ opening 0x71, 0x20 < c ∧ c < 0x7F := by decide +kernel
  have hclose : ∀ c ∈ closing, 0x20 < c ∧ c < 0x7F := by decide +kernel
  rw [qWord, List.mem_append, List.mem_append] at h
  rcases h with (h | h) | h
  · exact hopen c h
  · obtain ⟨b, -, hb⟩ := List.mem_flatMap.mp h
    exact visible_qByte hb
  · exact hclose c h

theorem visible_bWord {bs : GoString} {c : UInt8} (h : c ∈ bWord bs) : 0x20 < c ∧ c < 0x7F := by
  have hopen : ∀ c ∈ opening 0x62, 0x20 < c ∧ c < 0x7F := by decide +kernel
  have hclose : ∀ c ∈ closing, 0x20 < c ∧ c < 0x7F := by decide +kernel
  rw [bWord, List.mem_append, List.mem_append] at h
  rcases h with (h | h) | h
  · exact hopen c h
  · exact ⟨(Base64.of_mem_encode h).1, (Base64.of_mem_encode h).2.1⟩
  · exact hclose c h

theorem no_return_of_headerSafe {rs : List ℕ} (hrs : Scalars rs)
    (h : headerSafe (encode rs) = true) : 0x0D ∉ encode rs := by
  intro hmem
  rw [headerSafe, runes_encode hrs, Bool.and_eq_true, List.all_eq_true] at h
  obtain ⟨r, hr, hb⟩ := List.mem_flatMap.mp hmem
  by_cases hlow : r < 0x80
  · rw [encodeRune_ascii hlow, List.mem_singleton] at hb
    have heq := congrArg UInt8.toNat hb
    rw [toNat_toUInt8 (by omega)] at heq
    have hsafe := h.2 r hr
    rw [← heq] at hsafe
    exact absurd hsafe (by decide)
  · exact absurd (le_of_mem_encodeRune (by omega) (hrs r hr) hb) (by decide)

theorem folded_of_short {rs : List ℕ} (hrs : Scalars rs) (h : headerSafe (encode rs) = true)
    (hshort : Short (encode rs)) :
    Folded (encode rs) := by
  have hlength := (short_iff (encode rs)).mp hshort
  have henc : encodeSubject (encode rs) = qEncode (encode rs) := if_pos hlength
  have hform : encodeSubject (encode rs) = encode rs ∨ encodeSubject (encode rs) = qWord (encode rs) := by
    rw [henc]
    by_cases hneeds : needsEncoding (encode rs) = true
    · rw [Short, if_pos hneeds] at hshort
      exact .inr (qEncode_eq_word hneeds (by omega))
    · exact .inl (if_neg hneeds)
  have hreturn : 0x0D ∉ encodeSubject (encode rs) := by
    rcases hform with hform | hform
    · rw [hform]
      exact no_return_of_headerSafe hrs h
    · rw [hform]
      exact fun hmem => absurd (visible_qWord hmem).1 (by decide)
  have hjoin : ∀ w : GoString, ∀ sep, join [w] sep = w := fun w sep => by simp [join]
  constructor
  · have hlines := physicalLines_join (show 0x0D ∉ subjectName by decide)
      (show ∀ x ∈ [encodeSubject (encode rs)], 0x0D ∉ x by simpa using hreturn)
    rw [hjoin] at hlines
    rw [fieldText_subject, hlines, List.forall_mem_cons]
    refine ⟨?_, by simp⟩
    have hname : subjectName.length = 9 := by decide
    rw [List.length_append, hname, henc]
    omega
  · refine ⟨[rs], by simp, hform.imp_right fun hq => .inl ?_⟩
    rw [hq, List.map_singleton, hjoin]

section Long

variable {rs : List ℕ}

theorem joinPieces_eq_encode {c : List Piece} (h : ∀ p ∈ c, p.bytes = encodeRune p.rune) :
    joinPieces c = encode (c.map (·.rune)) := by
  rw [joinPieces, encode, List.flatMap_map]
  exact List.flatMap_congr h

theorem bytes_of_mem_pieces (hrs : Scalars rs) {p : Piece} (hp : p ∈ pieces (encode rs)) :
    p.bytes = encodeRune p.rune := by
  rw [pieces_encode hrs] at hp
  obtain ⟨r, -, rfl⟩ := List.mem_map.mp hp
  rfl

theorem chunks_subject (hrs : Scalars rs) :
    (chunks (pieces (encode rs)).length (pieces (encode rs))).flatten = pieces (encode rs) := by
  refine chunks_flatten (le_refl _) fun p hp => ?_
  rw [bytes_of_mem_pieces hrs hp]
  exact (length_encodeRune_le _).trans (by decide)

theorem whole_words (hrs : Scalars rs) :
    ∃ parts : List (List ℕ), encode rs = encode parts.flatten ∧
      subjectWords (encode rs) = parts.map fun p => bWord (encode p) := by
  have hflat := chunks_subject hrs
  have hbytes : ∀ c ∈ chunks (pieces (encode rs)).length (pieces (encode rs)), ∀ p ∈ c,
      p.bytes = encodeRune p.rune := by
    intro c hc p hp
    exact bytes_of_mem_pieces hrs (by rw [← hflat]; exact List.mem_flatten.mpr ⟨c, hc, hp⟩)
  refine ⟨(chunks (pieces (encode rs)).length (pieces (encode rs))).map (List.map (·.rune)), ?_, ?_⟩
  · rw [← List.map_flatten, hflat]
    exact congrArg encode (runes_encode hrs).symm
  · rw [subjectWords, List.map_map]
    exact List.map_congr_left fun c hc => congrArg bWord (joinPieces_eq_encode (hbytes c hc))

theorem fits_iff (hrs : Scalars rs) :
    FitsBehindName (encode rs) ↔ (joinPieces (chunk 45 (pieces (encode rs))).1).length ≤ 42 := by
  have hpieces := pieces_encode hrs
  unfold FitsBehindName
  rw [runes_encode hrs]
  constructor
  · intro h
    by_contra hlong
    have happend := chunk_append 45 (pieces (encode rs))
    conv_rhs at happend => rw [hpieces]
    obtain ⟨front, back, rfl, hfront, -⟩ := List.map_eq_append_iff.mp happend.symm
    have hlength : (joinPieces (chunk 45 (pieces (encode (front ++ back)))).1).length =
        (encode front).length := by
      rw [← hfront, joinPieces_map_encodeRune]
    have hle := length_chunk_le 45 (pieces (encode (front ++ back)))
    exact h front back rfl (by omega)
  · rintro h front back rfl ⟨hlow, hhigh⟩
    rw [List.map_append] at hpieces
    have hfits : (joinPieces (front.map fun r => ⟨r, encodeRune r, true⟩)).length ≤ 45 := by
      rw [joinPieces_map_encodeRune]
      exact hhigh
    have hmax : _ ≤ (joinPieces
      (chunk 45 (_ ++ back.map fun r => ⟨r, encodeRune r, true⟩)).1).length := le_length_chunk hfits
    rw [joinPieces_map_encodeRune, ← hpieces] at hmax
    omega

theorem lines_of_words {c : List Piece} {cs : List (List Piece)}
    (hcs : ∀ x ∈ c :: cs, (joinPieces x).length ≤ 45) :
    (∀ l ∈ physicalLines (fieldText
        (field "Subject" (join ((c :: cs).map fun x => bWord (joinPieces x)) "\r\n "))),
      l.length ≤ 78) ↔ (joinPieces c).length ≤ 42 := by
  have hname : subjectName.length = 9 := by decide
  have hreturn : ∀ x ∈ (c :: cs).map fun x => bWord (joinPieces x), 0x0D ∉ x := by
    intro x hx
    obtain ⟨y, -, rfl⟩ := List.mem_map.mp hx
    exact fun hmem => absurd (visible_bWord hmem).1 (by decide)
  rw [List.map_cons] at hreturn ⊢
  rw [fieldText_subject, physicalLines_join (by decide) hreturn, List.forall_mem_cons,
    List.length_append, length_bWord, hname]
  constructor
  · rintro ⟨hfirst, -⟩
    omega
  · intro hfirst
    refine ⟨by omega, fun l hl => ?_⟩
    rcases List.mem_append.mp hl with hl | hl
    · obtain ⟨x, hx, rfl⟩ := List.mem_map.mp hl
      obtain ⟨y, hy, rfl⟩ := List.mem_map.mp hx
      have hlength := hcs y (List.mem_cons_of_mem c hy)
      rw [List.length_cons, length_bWord]
      omega
    · rw [List.mem_singleton.mp hl]
      exact Nat.zero_le 78

theorem folded_of_long (hrs : Scalars rs) (hlong : ¬ Short (encode rs)) :
    Folded (encode rs) ↔ FitsBehindName (encode rs) := by
  have henc : encodeSubject (encode rs) = join (subjectWords (encode rs)) "\r\n " :=
    if_neg fun h => hlong ((short_iff _).mpr h)
  obtain ⟨parts, hparts, hwords⟩ := whole_words hrs
  rw [fits_iff hrs]
  cases hps : pieces (encode rs) with
  | nil =>
    rw [pieces_encode hrs, List.map_eq_nil_iff] at hps
    rw [hps] at hlong
    exact absurd (by decide) hlong
  | cons p ps =>
    have hchunks : chunks (p :: ps).length (p :: ps) =
        (chunk 45 (p :: ps)).1 :: chunks ps.length (chunk 45 (p :: ps)).2 := rfl
    have hshort : ∀ x ∈ (chunk 45 (p :: ps)).1 :: chunks ps.length (chunk 45 (p :: ps)).2,
        (joinPieces x).length ≤ 45 := by
      intro x hx
      rw [← hchunks] at hx
      exact length_of_mem_chunks hx
    have hlines := lines_of_words hshort
    rw [← hchunks, ← hps, ← subjectWords, ← henc, hps] at hlines
    refine ⟨fun h => hlines.mp h.lines, fun h => ⟨hlines.mpr h, parts, hparts, .inr (.inr ?_)⟩⟩
    rw [henc, hwords]

end Long

/-- The line limit holds for subjects that need no base64, and for those whose first word stays short. -/
theorem folded_iff {s : GoString} (h : headerSafe s = true) : Folded s ↔ Short s ∨ FitsBehindName s := by
  have hvalid : validString s = true := ((Bool.and_eq_true _ _).mp h).1
  obtain ⟨rs, hrs, rfl⟩ := exists_encode hvalid
  by_cases hshort : Short (encode rs)
  · exact iff_of_true (folded_of_short hrs h hshort) (.inl hshort)
  · rw [folded_of_long hrs hshort, or_iff_right hshort]

/-- A subject of 67 letters: the first line is 81 characters long. -/
theorem long_first_line :
    headerSafe (List.replicate 67 0x61) = true ∧
      (physicalLines (fieldText (field "Subject" (encodeSubject (List.replicate 67 0x61))))).map
      List.length = [81, 45, 0] ∧
      ¬ Folded (List.replicate 67 0x61) := by
  have hlines : (physicalLines
      (fieldText (field "Subject" (encodeSubject (List.replicate 67 0x61))))).map List.length =
      [81, 45, 0] := by decide +kernel
  refine ⟨by decide +kernel, hlines, fun h => ?_⟩
  obtain ⟨l, hl, hlength⟩ := List.mem_map.mp (hlines ▸ List.mem_cons_self : 81 ∈ List.map List.length _)
  have hshort := h.lines l hl
  omega

-- fourteen characters of three bytes, then some of four: the first word has to stop after 42 bytes
def wideSubject : List ℕ := List.replicate 14 0x4E16 ++ List.replicate 20 0x1F600

theorem wide_subject_folded :
    (physicalLines (fieldText (field "Subject" (encodeSubject (encode wideSubject))))).map
    List.length = [77, 73, 61, 0] ∧ Folded (encode wideSubject) := by
  have hscalars : Scalars wideSubject := by
    unfold Scalars
    decide
  have hsafe : headerSafe (encode wideSubject) = true := by decide +kernel
  refine ⟨by decide +kernel, (folded_iff hsafe).mpr (.inr ((fits_iff hscalars).mpr ?_))⟩
  decide +kernel

end TangraTicket.Services.Mailer
