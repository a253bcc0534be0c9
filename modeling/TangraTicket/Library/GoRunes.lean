import TangraTicket.Library.GoUtf8

/-!
Runes and their encodings. Text written rune by rune is read back as those runes, and any run of
decoded pieces is decoded alike on its own; so trimming and lower-casing can be followed piece by
piece.
-/

namespace TangraTicket.GoText

variable {s t bs : GoString} {b : UInt8} {r n k : ℕ}

def Scalar (r : ℕ) : Prop := r < 0xD800 ∨ (0xDFFF < r ∧ r ≤ 0x10FFFF)

theorem toNat_toUInt8 (h : n < 256) : n.toUInt8.toNat = n := by
  simp only [Nat.toUInt8, UInt8.toNat_ofNat']
  omega

theorem toUInt8_le (h : k ≤ n) (hn : n < 256) : k.toUInt8 ≤ n.toUInt8 := by
  rw [UInt8.le_iff_toNat_le, toNat_toUInt8 hn, toNat_toUInt8 (by omega)]
  exact h

theorem between_toUInt8 {l u : ℕ} (hl : l ≤ n) (hu : n ≤ u) (h : u < 256) :
    (l.toUInt8 ≤ n.toUInt8 && n.toUInt8 ≤ u.toUInt8) = true := by
  rw [Bool.and_eq_true, decide_eq_true_eq, decide_eq_true_eq]
  exact ⟨toUInt8_le hl (by omega), toUInt8_le hu h⟩

theorem isCont_add (n : ℕ) : isCont (0x80 + n % 64).toUInt8 = true :=
  between_toUInt8 (l := 0x80) (u := 0xBF) (by omega) (by omega) (by omega)

theorem secondOk_add (n : ℕ) {b₀ : UInt8} (hE0 : b₀.toNat = 0xE0 → 32 ≤ n % 64)
    (hED : b₀.toNat = 0xED → n % 64 < 32) (hF0 : b₀.toNat = 0xF0 → 16 ≤ n % 64)
    (hF4 : b₀.toNat = 0xF4 → n % 64 < 16) :
    secondOk b₀ (0x80 + n % 64).toUInt8 = true := by
  unfold secondOk
  split_ifs with h₁ h₂ h₃ h₄
  · have hn := hE0 (h₁ ▸ rfl)
    exact between_toUInt8 (l := 0xA0) (u := 0xBF) (by omega) (by omega) (by omega)
  · have hn := hED (h₂ ▸ rfl)
    exact between_toUInt8 (l := 0x80) (u := 0x9F) (by omega) (by omega) (by omega)
  · have hn := hF0 (h₃ ▸ rfl)
    exact between_toUInt8 (l := 0x90) (u := 0xBF) (by omega) (by omega) (by omega)
  · have hn := hF4 (h₄ ▸ rfl)
    exact between_toUInt8 (l := 0x80) (u := 0x8F) (by omega) (by omega) (by omega)
  · exact isCont_add n

theorem encodes_encodeRune (h : Scalar r) : Encodes (encodeRune r) r := by
  have hlast : (0x80 + r % 64).toUInt8.toNat = 0x80 + r % 64 := toNat_toUInt8 (by omega)
  have hthird : (0x80 + r / 64 % 64).toUInt8.toNat = 0x80 + r / 64 % 64 := toNat_toUInt8 (by omega)
  have hsecond : (0x80 + r / 4096 % 64).toUInt8.toNat = 0x80 + r / 4096 % 64 := toNat_toUInt8 (by omega)
  unfold Scalar at h
  unfold encodeRune
  split_ifs with h₁ h₂ h₃ h₄
  · have hbyte : r.toUInt8.toNat = r := toNat_toUInt8 (by omega)
    have hlt : r.toUInt8 < 0x80 := by rw [UInt8.lt_iff_toNat_lt, hbyte]; exact h₁
    have hone := Encodes.one hlt
    rwa [hbyte] at hone
  · have hhead : (0xC0 + r / 64).toUInt8.toNat = 0xC0 + r / 64 := toNat_toUInt8 (by omega)
    have htwo := Encodes.two (toUInt8_le (k := 0xC2) (n := 0xC0 + r / 64) (by omega) (by omega))
      (toUInt8_le (n := 0xDF) (by omega) (by omega)) (isCont_add r)
    rw [hhead, hlast] at htwo
    convert htwo using 1
    omega
  · omega
  · have hhead : (0xE0 + r / 4096).toUInt8.toNat = 0xE0 + r / 4096 := toNat_toUInt8 (by omega)
    have hok : secondOk (0xE0 + r / 4096).toUInt8 (0x80 + r / 64 % 64).toUInt8 = true := by
      apply secondOk_add <;> rw [hhead] <;> omega
    have hthree := Encodes.three (toUInt8_le (k := 0xE0) (by omega) (by omega))
      (toUInt8_le (n := 0xEF) (by omega) (by omega)) hok (isCont_add r)
    rw [hhead, hthird, hlast] at hthree
    convert hthree using 1
    omega
  · have hhead : (0xF0 + r / 262144).toUInt8.toNat = 0xF0 + r / 262144 := toNat_toUInt8 (by omega)
    have hok : secondOk (0xF0 + r / 262144).toUInt8 (0x80 + r / 4096 % 64).toUInt8 = true := by
      apply secondOk_add <;> rw [hhead] <;> omega
    have hfour := Encodes.four (toUInt8_le (k := 0xF0) (by omega) (by omega))
      (toUInt8_le (n := 0xF4) (by omega) (by omega)) hok (isCont_add (r / 64)) (isCont_add r)
    rw [hhead, hsecond, hthird, hlast] at hfour
    convert hfour using 1
    omega

theorem isCont_iff : isCont b = true ↔ 0x80 ≤ b.toNat ∧ b.toNat ≤ 0xBF := by
  simp [isCont, UInt8.le_iff_toNat_le]

theorem bounds_of_secondOk {b₀ b₁ : UInt8} (h : secondOk b₀ b₁ = true) :
    (b₀.toNat = 0xED → b₁.toNat ≤ 0x9F) ∧ (b₀.toNat = 0xF4 → b₁.toNat ≤ 0x8F) ∧
      (b₀.toNat = 0xE0 → 0xA0 ≤ b₁.toNat) ∧ (b₀.toNat = 0xF0 → 0x90 ≤ b₁.toNat) := by
  simp only [secondOk, isCont, ← UInt8.toNat_inj] at h
  simp only [UInt8.reduceToNat] at h
  split_ifs at h <;> simp only [Bool.and_eq_true, decide_eq_true_eq, UInt8.le_iff_toNat_le,
    UInt8.reduceToNat] at h <;>
    omega

theorem Encodes.scalar (h : Encodes bs r) : Scalar r := by
  unfold Scalar
  cases h with
  | one h₀ =>
    simp only [UInt8.lt_iff_toNat_lt, UInt8.reduceToNat] at h₀
    omega
  | two hl hh h₁ =>
    simp only [UInt8.le_iff_toNat_le, UInt8.reduceToNat, isCont_iff] at hl hh h₁
    omega
  | three hl hh h₁ h₂ =>
    have hb := bounds_of_secondOk h₁
    have h₁ := isCont_of_secondOk h₁
    simp only [UInt8.le_iff_toNat_le, UInt8.reduceToNat, isCont_iff] at hl hh h₁ h₂
    omega
  | four hl hh h₁ h₂ h₃ =>
    have hb := bounds_of_secondOk h₁
    have h₁ := isCont_of_secondOk h₁
    simp only [UInt8.le_iff_toNat_le, UInt8.reduceToNat, isCont_iff] at hl hh h₁ h₂ h₃
    omega

theorem scalar_runes (s : GoString) : ∀ r ∈ runes s, Scalar r := by
  induction s using decode_induction with
  | nil => simp [runes, pieces]
  | formed bs r t hbs ih =>
    simp only [runes, hbs.pieces_append, List.map_cons, List.forall_mem_cons]
    exact ⟨hbs.scalar, ih⟩
  | bad b t hb ih =>
    simp only [runes, hb.pieces_cons, List.map_cons, List.forall_mem_cons]
    exact ⟨.inr ⟨by simp [badByte, runeError], by simp [badByte, runeError]⟩, ih⟩

theorem pieces_encoded {rs : List ℕ} (h : ∀ r ∈ rs, Scalar r) :
    pieces (rs.flatMap encodeRune) = rs.map fun r => ⟨r, encodeRune r, true⟩ := by
  induction rs with
  | nil => simp [pieces]
  | cons r rs ih =>
    obtain ⟨hr, hrs⟩ := List.forall_mem_cons.mp h
    rw [List.flatMap_cons, (encodes_encodeRune hr).pieces_append, ih hrs, List.map_cons]

theorem pieces_joinPieces_left {ps qs : List Piece} (h : pieces s = ps ++ qs) :
    pieces (joinPieces ps) = ps := by
  induction s using decode_induction generalizing ps with
  | nil =>
    have hnil : ps ++ qs = [] := by rw [← h, pieces]
    rw [(List.append_eq_nil_iff.mp hnil).1]
    rfl
  | formed bs r t hbs ih =>
    cases ps with
    | nil => simp [joinPieces, pieces]
    | cons p ps =>
      rw [hbs.pieces_append, List.cons_append, List.cons.injEq] at h
      rw [joinPieces_cons, ← h.1, hbs.pieces_append, ih h.2]
  | bad b t hb ih =>
    cases ps with
    | nil => simp [joinPieces, pieces]
    | cons p ps =>
      rw [hb.pieces_cons, List.cons_append, List.cons.injEq] at h
      have hshort : Malformed (b :: joinPieces ps) := by
        intro bs r hbs hpre
        have ht : joinPieces ps <+: t := by
          rw [← joinPieces_pieces t, h.2, joinPieces_append]
          exact List.prefix_append _ _
        exact hb bs r hbs (hpre.trans (List.cons_prefix_cons.mpr ⟨rfl, ht⟩))
      rw [joinPieces_cons, ← h.1, badByte, List.singleton_append, hshort.pieces_cons, ih h.2]
      rfl

theorem pieces_joinPieces_right {ps qs : List Piece} (h : pieces s = ps ++ qs) :
    pieces (joinPieces qs) = qs := by
  induction s using decode_induction generalizing ps with
  | nil =>
    have hnil : ps ++ qs = [] := by rw [← h, pieces]
    rw [(List.append_eq_nil_iff.mp hnil).2]
    rfl
  | formed bs r t hbs ih =>
    cases ps with
    | nil =>
      rw [← List.nil_append qs, ← h, joinPieces_pieces]
    | cons p ps =>
      rw [hbs.pieces_append, List.cons_append, List.cons.injEq] at h
      exact ih h.2
  | bad b t hb ih =>
    cases ps with
    | nil =>
      rw [← List.nil_append qs, ← h, joinPieces_pieces]
    | cons p ps =>
      rw [hb.pieces_cons, List.cons_append, List.cons.injEq] at h
      exact ih h.2

theorem pieces_trimSpace (s : GoString) :
    pieces (trimSpace s) = ((pieces s).dropWhile fun p => isSpace p.rune).rdropWhile fun p =>
    isSpace p.rune := by
  have hdrop : pieces s = (pieces s).takeWhile (fun p => isSpace p.rune) ++
      (pieces s).dropWhile (fun p => isSpace p.rune) := List.takeWhile_append_dropWhile.symm
  have hright := pieces_joinPieces_right hdrop
  obtain ⟨qs, hqs⟩ := List.rdropWhile_prefix (fun p : Piece => isSpace p.rune)
    ((pieces s).dropWhile fun p => isSpace p.rune)
  exact pieces_joinPieces_left (hright.trans hqs.symm)

theorem dropWhile_of_start {α : Type} {p : α → Bool} {l m : List α} (h : m <+: l.dropWhile p) :
    m.dropWhile p = m := by
  cases m with
  | nil => rfl
  | cons x m =>
    obtain ⟨rest, hrest⟩ := h
    have hne : l.dropWhile p ≠ [] := by rw [← hrest]; simp
    have hhead := List.head_dropWhile_not p hne
    simp only [← hrest, List.cons_append, List.head_cons] at hhead
    rw [List.dropWhile_cons_of_neg (by simp [hhead])]

theorem rdropWhile_map {α β : Type} (f : α → β) (p : β → Bool) (l : List α) :
    (l.map f).rdropWhile p = (l.rdropWhile (p ∘ f)).map f := by
  simp only [List.rdropWhile, ← List.map_reverse, List.dropWhile_map]

theorem trimSpace_eq_self (hleft : (pieces s).dropWhile (fun p => isSpace p.rune) = pieces s)
    (hright : (pieces s).rdropWhile (fun p => isSpace p.rune) = pieces s) : trimSpace s = s := by
  rw [trimSpace, hleft, hright, joinPieces_pieces]

theorem dropWhile_trimSpace (s : GoString) :
    (pieces (trimSpace s)).dropWhile (fun p => isSpace p.rune) = pieces (trimSpace s) := by
  rw [pieces_trimSpace]
  exact dropWhile_of_start <| List.rdropWhile_prefix _ _

theorem rdropWhile_trimSpace (s : GoString) :
    (pieces (trimSpace s)).rdropWhile (fun p => isSpace p.rune) = pieces (trimSpace s) := by
  rw [pieces_trimSpace, List.rdropWhile_idempotent]

theorem trimSpace_trimSpace (s : GoString) : trimSpace (trimSpace s) = trimSpace s :=
  trimSpace_eq_self (dropWhile_trimSpace s) (rdropWhile_trimSpace s)

section Lower

/-- What `unicode.ToLower` keeps to. -/
class LowerLaws [GoLibrary] : Prop where
  idem : ∀ r, GoLibrary.lowerRune (GoLibrary.lowerRune r) = GoLibrary.lowerRune r
  scalar : ∀ r, Scalar r → Scalar (GoLibrary.lowerRune r)
  space : ∀ r, isSpace (GoLibrary.lowerRune r) = isSpace r

variable [GoLibrary] [LowerLaws]

def Piece.lower (p : Piece) : Piece :=
  ⟨GoLibrary.lowerRune p.rune, encodeRune (GoLibrary.lowerRune p.rune), true⟩

theorem pieces_toLower (s : GoString) : pieces (toLower s) = (pieces s).map Piece.lower := by
  have hscalar : ∀ r ∈ (runes s).map GoLibrary.lowerRune, Scalar r := by
    intro r hr
    obtain ⟨r', hr', rfl⟩ := List.mem_map.mp hr
    exact LowerLaws.scalar r' (scalar_runes s r' hr')
  have hlower : toLower s = ((runes s).map GoLibrary.lowerRune).flatMap encodeRune := by
    rw [List.flatMap_map]
    rfl
  rw [hlower, pieces_encoded hscalar, runes, List.map_map, List.map_map]
  rfl

theorem toLower_toLower (s : GoString) : toLower (toLower s) = toLower s := by
  have hpieces : pieces (toLower (toLower s)) = pieces (toLower s) := by
    rw [pieces_toLower, pieces_toLower, List.map_map]
    refine List.map_congr_left fun p _ => ?_
    simp only [Function.comp_apply, Piece.lower, LowerLaws.idem]
  rw [← joinPieces_pieces (toLower (toLower s)), hpieces, joinPieces_pieces]

theorem trimSpace_toLower (h : trimSpace s = s) : trimSpace (toLower s) = toLower s := by
  have hspace : (fun p => isSpace p.rune) ∘ Piece.lower = fun p : Piece => isSpace p.rune :=
    funext fun p => LowerLaws.space p.rune
  apply trimSpace_eq_self
  · rw [pieces_toLower, List.dropWhile_map, hspace, ← h, dropWhile_trimSpace]
  · rw [pieces_toLower, rdropWhile_map, hspace, ← h, rdropWhile_trimSpace]

end Lower

end TangraTicket.GoText
