import TangraTicket.Library.GoRunes

/-!
Valid text is the encoding of a list of scalar values. On such text the byte functions of `strings`
are the corresponding functions on the list.
-/

namespace TangraTicket.GoText

variable {s t bs : GoString} {b : UInt8} {r : ℕ} {rs : List ℕ}

def encode (rs : List ℕ) : GoString := rs.flatMap encodeRune

def Scalars (rs : List ℕ) : Prop := ∀ r ∈ rs, Scalar r

instance (r : ℕ) : Decidable (Scalar r) :=
  inferInstanceAs (Decidable (r < 0xD800 ∨ (0xDFFF < r ∧ r ≤ 0x10FFFF)))

instance (rs : List ℕ) : Decidable (Scalars rs) := inferInstanceAs (Decidable (∀ r ∈ rs, Scalar r))

theorem encode_nil : encode [] = [] := rfl

theorem encode_cons (r : ℕ) (rs : List ℕ) : encode (r :: rs) = encodeRune r ++ encode rs := rfl

theorem encode_append (rs rs' : List ℕ) : encode (rs ++ rs') = encode rs ++ encode rs' :=
  List.flatMap_append

theorem Scalars.cons_iff : Scalars (r :: rs) ↔ Scalar r ∧ Scalars rs := List.forall_mem_cons

theorem Scalars.append_iff {rs' : List ℕ} : Scalars (rs ++ rs') ↔ Scalars rs ∧ Scalars rs' :=
  List.forall_mem_append

theorem Scalars.of_subset {rs' : List ℕ} (h : Scalars rs) (hsub : rs' ⊆ rs) : Scalars rs' :=
  fun r hr => h r (hsub hr)

theorem pieces_encode (h : Scalars rs) : pieces (encode rs) = rs.map fun r => ⟨r, encodeRune r, true⟩ :=
  pieces_encoded h

theorem runes_encode (h : Scalars rs) : runes (encode rs) = rs := by
  rw [runes, pieces_encode h, List.map_map]
  exact List.map_id' rs

theorem runeCount_encode (h : Scalars rs) : runeCount (encode rs) = rs.length := by
  rw [runeCount, pieces_encode h, List.length_map]

theorem validString_encode (h : Scalars rs) : validString (encode rs) = true := by
  rw [validString, pieces_encode h]
  simp

theorem encode_inj {rs' : List ℕ} (h : Scalars rs) (h' : Scalars rs')
    (heq : encode rs = encode rs') : rs = rs' := by
  rw [← runes_encode h, heq, runes_encode h']

theorem Encodes.eq_encodeRune (h : Encodes bs r) : bs = encodeRune r := by
  unfold encodeRune
  cases h with
  | one h₀ =>
    simp only [UInt8.lt_iff_toNat_lt, UInt8.reduceToNat] at h₀
    rw [if_pos h₀]
    simp
  | @two b₀ b₁ hl hh h₁ =>
    simp only [UInt8.le_iff_toNat_le, UInt8.reduceToNat, isCont_iff] at hl hh h₁
    rw [if_neg (by omega), if_pos (by omega)]
    simp only [List.cons.injEq, and_true, ← UInt8.toNat_inj]
    rw [toNat_toUInt8 (by omega), toNat_toUInt8 (by omega)]
    omega
  | @three b₀ b₁ b₂ hl hh h₁ h₂ =>
    have hb := bounds_of_secondOk h₁
    have h₁ := isCont_of_secondOk h₁
    simp only [UInt8.le_iff_toNat_le, UInt8.reduceToNat, isCont_iff] at hl hh h₁ h₂
    rw [if_neg (by omega), if_neg (by omega), if_neg (by omega), if_pos (by omega)]
    simp only [List.cons.injEq, and_true, ← UInt8.toNat_inj]
    rw [toNat_toUInt8 (by omega), toNat_toUInt8 (by omega), toNat_toUInt8 (by omega)]
    omega
  | @four b₀ b₁ b₂ b₃ hl hh h₁ h₂ h₃ =>
    have hb := bounds_of_secondOk h₁
    have h₁ := isCont_of_secondOk h₁
    simp only [UInt8.le_iff_toNat_le, UInt8.reduceToNat, isCont_iff] at hl hh h₁ h₂ h₃
    rw [if_neg (by omega), if_neg (by omega), if_neg (by omega), if_neg (by omega)]
    simp only [List.cons.injEq, and_true, ← UInt8.toNat_inj]
    rw [toNat_toUInt8 (by omega), toNat_toUInt8 (by omega), toNat_toUInt8 (by omega),
      toNat_toUInt8 (by omega)]
    omega

theorem encode_runes (h : validString s = true) : encode (runes s) = s := by
  induction s using decode_induction with
  | nil => rfl
  | formed bs r t hbs ih =>
    simp only [validString, hbs.pieces_append, List.all_cons, Bool.true_and] at h
    rw [runes, hbs.pieces_append, List.map_cons, encode_cons, ← hbs.eq_encodeRune]
    exact congrArg (bs ++ ·) (ih h)
  | bad b t hb ih => simp [validString, hb.pieces_cons, badByte] at h

theorem scalars_runes (s : GoString) : Scalars (runes s) := scalar_runes s

theorem exists_encode (h : validString s = true) : ∃ rs, Scalars rs ∧ s = encode rs :=
  ⟨runes s, scalars_runes s, (encode_runes h).symm⟩

theorem encode_eq_nil (h : Scalars rs) : encode rs = [] ↔ rs = [] := by
  refine ⟨fun he => encode_inj h (fun _ hr => absurd hr List.not_mem_nil) he, ?_⟩
  rintro rfl
  rfl

theorem encodeRune_ascii (h : r < 0x80) : encodeRune r = [r.toUInt8] := if_pos h

theorem le_of_mem_encodeRune (h : 0x80 ≤ r) (hs : Scalar r) (hb : b ∈ encodeRune r) : 0x80 ≤ b.toNat := by
  have he := encodes_encodeRune hs
  generalize encodeRune r = bs at he hb
  cases he with
  | one h₀ =>
    simp only [UInt8.lt_iff_toNat_lt, UInt8.reduceToNat] at h₀
    omega
  | two hl hh h₁ =>
    simp only [UInt8.le_iff_toNat_le, UInt8.reduceToNat, isCont_iff] at hl h₁
    rcases List.mem_pair.mp hb with rfl | rfl <;> omega
  | three hl hh h₁ h₂ =>
    have h₁ := isCont_of_secondOk h₁
    simp only [UInt8.le_iff_toNat_le, UInt8.reduceToNat, isCont_iff] at hl h₁ h₂
    simp only [List.mem_cons, List.not_mem_nil, or_false] at hb
    rcases hb with rfl | rfl | rfl <;> omega
  | four hl hh h₁ h₂ h₃ =>
    have h₁ := isCont_of_secondOk h₁
    simp only [UInt8.le_iff_toNat_le, UInt8.reduceToNat, isCont_iff] at hl h₁ h₂ h₃
    simp only [List.mem_cons, List.not_mem_nil, or_false] at hb
    rcases hb with rfl | rfl | rfl | rfl <;> omega

def AsciiTest (p : UInt8 → Bool) : Prop := ∀ b, 0x80 ≤ b.toNat → p b = false

def onRune (p : UInt8 → Bool) (r : ℕ) : Bool := r < 0x80 && p r.toUInt8

variable {p : UInt8 → Bool}

theorem onRune_ascii (h : r < 0x80) : onRune p r = p r.toUInt8 := by simp [onRune, h]

theorem onRune_wide (h : ¬ r < 0x80) : onRune p r = false := by simp [onRune, h]

theorem onRune_contains {cs : GoString} (hcs : ∀ c ∈ cs, c < 0x80) (r : ℕ) :
    onRune (fun b => cs.contains b) r = (cs.map UInt8.toNat).contains r := by
  rw [Bool.eq_iff_iff]
  simp only [onRune, Bool.and_eq_true, decide_eq_true_eq, List.contains_iff_mem, List.mem_map]
  constructor
  · rintro ⟨hr, hmem⟩
    exact ⟨_, hmem, toNat_toUInt8 (by omega)⟩
  · rintro ⟨c, hc, rfl⟩
    refine ⟨?_, ?_⟩
    · simpa [UInt8.lt_iff_toNat_lt] using hcs c hc
    · simpa using hc

theorem asciiTest_contains {cs : GoString} (hcs : ∀ c ∈ cs, c < 0x80) :
    AsciiTest fun b => cs.contains b := by
  intro b hb
  rw [Bool.eq_false_iff]
  intro hmem
  have hlt := hcs b (by simpa using hmem)
  simp only [UInt8.lt_iff_toNat_lt, UInt8.reduceToNat] at hlt
  omega

theorem AsciiTest.wide (hp : AsciiTest p) (hs : Scalar r) (h : ¬ r < 0x80) :
    ∀ b ∈ encodeRune r, p b = false :=
  fun b hb => hp b (le_of_mem_encodeRune (by omega) hs hb)

theorem AsciiTest.dropWhile_encode (hp : AsciiTest p) (h : Scalars rs) :
    (encode rs).dropWhile p = encode (rs.dropWhile (onRune p)) := by
  induction rs with
  | nil => rfl
  | cons r rs ih =>
    obtain ⟨hr, hrs⟩ := Scalars.cons_iff.mp h
    by_cases hlow : r < 0x80
    · rw [encode_cons, encodeRune_ascii hlow, List.singleton_append, List.dropWhile_cons,
        List.dropWhile_cons, onRune_ascii hlow]
      split
      · exact ih hrs
      · rw [encode_cons, encodeRune_ascii hlow, List.singleton_append]
    · have hall := hp.wide hr hlow
      rw [List.dropWhile_cons_of_neg (by simp [onRune_wide hlow]), encode_cons]
      cases hbs : encodeRune r with
      | nil => exact absurd hbs (encodes_encodeRune hr).ne_nil
      | cons b bs =>
        rw [List.cons_append, List.dropWhile_cons_of_neg]
        simp [hall b (by simp [hbs])]

theorem AsciiTest.rdropWhile_encode (hp : AsciiTest p) (h : Scalars rs) :
    (encode rs).rdropWhile p = encode (rs.rdropWhile (onRune p)) := by
  induction rs using List.reverseRecOn with
  | nil => rfl
  | append_singleton rs r ih =>
    obtain ⟨hrs, hr⟩ := Scalars.append_iff.mp h
    have hr := hr r List.mem_cons_self
    rw [encode_append, List.rdropWhile_concat]
    by_cases hlow : r < 0x80
    · rw [encode_cons, encodeRune_ascii hlow, encode_nil, List.append_nil, List.rdropWhile_concat,
        onRune_ascii hlow]
      split
      · exact ih hrs
      · rw [encode_append, encode_cons, encodeRune_ascii hlow, encode_nil, List.append_nil]
    · have hall := hp.wide hr hlow
      rw [if_neg (by simp [onRune_wide hlow]), encode_append, encode_cons, encode_nil, List.append_nil]
      obtain ⟨bs, b, hbs⟩ := (List.eq_nil_or_concat' (encodeRune r)).resolve_left
        (encodes_encodeRune hr).ne_nil
      rw [hbs, ← List.append_assoc, List.rdropWhile_concat, if_neg]
      simp [hall b (by simp [hbs])]

theorem rtakeWhile_append {α : Type} {p : α → Bool} (l : List α) {m : List α} (h : ∀ x ∈ m, p x = true) :
    (l ++ m).rtakeWhile p = l.rtakeWhile p ++ m := by
  induction m using List.reverseRecOn with
  | nil => rw [List.append_nil, List.append_nil]
  | append_singleton m x ih =>
    obtain ⟨hm, hx⟩ := List.forall_mem_append.mp h
    rw [← List.append_assoc, List.rtakeWhile_concat, if_pos (hx x List.mem_cons_self), ih hm,
      List.append_assoc]

theorem AsciiTest.rtakeWhile_encode (hp : AsciiTest p) (h : Scalars rs) :
    (encode rs).rtakeWhile (fun b => !p b) = encode (rs.rtakeWhile fun r => !onRune p r) := by
  induction rs using List.reverseRecOn with
  | nil => rfl
  | append_singleton rs r ih =>
    obtain ⟨hrs, hr⟩ := Scalars.append_iff.mp h
    have hr := hr r List.mem_cons_self
    rw [encode_append, List.rtakeWhile_concat, encode_cons, encode_nil, List.append_nil]
    by_cases hlow : r < 0x80
    · rw [encodeRune_ascii hlow, List.rtakeWhile_concat, onRune_ascii hlow]
      split
      · rw [ih hrs, encode_append, encode_cons, encodeRune_ascii hlow, encode_nil, List.append_nil]
      · rfl
    · have hall := hp.wide hr hlow
      rw [rtakeWhile_append _ fun b hb => by simp [hall b
        hb], ih hrs, if_pos (by simp [onRune_wide hlow]), encode_append, encode_cons, encode_nil,
        List.append_nil]

theorem joinPieces_map_encodeRune (rs : List ℕ) :
    joinPieces (rs.map fun r => ⟨r, encodeRune r, true⟩) = encode rs := by
  rw [joinPieces, List.flatMap_map]
  rfl

theorem trimSpace_encode (h : Scalars rs) :
    trimSpace (encode rs) = encode ((rs.dropWhile isSpace).rdropWhile isSpace) := by
  rw [trimSpace, pieces_encode h, List.dropWhile_map, rdropWhile_map, joinPieces_map_encodeRune]
  rfl

theorem mapRunes_eq (f : ℕ → Option ℕ) (s : GoString) : mapRunes f s = encode ((runes s).filterMap f) := by
  rw [mapRunes]
  induction runes s with
  | nil => rfl
  | cons r rs ih =>
    rw [List.flatMap_cons, ih]
    cases hr : f r with
    | none =>
      rw [List.filterMap_cons_none hr]
      rfl
    | some r' =>
      rw [List.filterMap_cons_some hr]
      rfl

def toValidFrom (replacement : GoString) : Bool → List Piece → GoString
  | _, [] => []
  | bad, p :: ps =>
    if p.valid then p.bytes ++ toValidFrom replacement false ps
    else (if bad then [] else replacement) ++ toValidFrom replacement true ps

/-- `strings.ToValidUTF8`: every run of invalid bytes becomes one replacement. -/
def toValidUTF8 (s replacement : GoString) : GoString := toValidFrom replacement false (pieces s)

def trimLeft (s cutset : GoString) : GoString := s.dropWhile fun b => cutset.contains b

def trimBoth (s cutset : GoString) : GoString := trimRight (trimLeft s cutset) cutset

def pathBase (s : GoString) : GoString :=
  let slash : GoString := [0x2F]
  if s = [] then [0x2E]
  else if trimRight s slash = [] then slash
  else (trimRight s slash).rtakeWhile fun b => !slash.contains b

theorem exists_toValidUTF8 {replacement : List ℕ} (h : Scalars replacement) (s : GoString) :
    ∃ rs, Scalars rs ∧ toValidUTF8 s (encode replacement) = encode rs := by
  suffices hgo : ∀ bad, ∃ rs, Scalars rs ∧ toValidFrom (encode replacement) bad (pieces s) =
    encode rs from hgo false
  induction s using decode_induction with
  | nil => exact fun _ => ⟨[], fun _ hr => absurd hr List.not_mem_nil, rfl⟩
  | formed bs r t hbs ih =>
    intro bad
    obtain ⟨rs, hrs, heq⟩ := ih false
    refine ⟨r :: rs, Scalars.cons_iff.mpr ⟨hbs.scalar, hrs⟩, ?_⟩
    rw [hbs.pieces_append, toValidFrom, if_pos rfl, heq, encode_cons, ← hbs.eq_encodeRune]
  | bad b t hb ih =>
    intro bad
    obtain ⟨rs, hrs, heq⟩ := ih true
    rw [hb.pieces_cons, toValidFrom, if_neg (by simp [badByte]), heq]
    cases bad with
    | true => exact ⟨rs, hrs, rfl⟩
    | false => exact ⟨replacement ++ rs, Scalars.append_iff.mpr ⟨h, hrs⟩, (encode_append _ _).symm⟩

theorem toValidUTF8_encode (h : Scalars rs) (replacement : GoString) :
    toValidUTF8 (encode rs) replacement = encode rs := by
  rw [toValidUTF8, pieces_encode h]
  clear h
  induction rs with
  | nil => rfl
  | cons r rs ih => rw [List.map_cons, toValidFrom, if_pos rfl, ih, encode_cons]

theorem replaceAll_byte (s : GoString) (old new : UInt8) :
    replaceAll s [old] [new] = s.map fun b => if b = old then new else b := by
  induction s with
  | nil => rfl
  | cons b s ih =>
    rw [replaceAll] at ih ⊢
    by_cases hb : b = old
    · simp [replaceAllFrom, hb, ih]
    · simp [replaceAllFrom, hb, ih, Ne.symm hb]

theorem map_encode {f : UInt8 → UInt8} {g : ℕ → ℕ} (h : Scalars rs)
    (hlow : ∀ r < 0x80, g r < 0x80 ∧ f r.toUInt8 = (g r).toUInt8) (hbyte : ∀ b, 0x80 ≤ b.toNat → f b = b)
    (hwide : ∀ r, ¬ r < 0x80 → g r = r) : (encode rs).map f = encode (rs.map g) := by
  induction rs with
  | nil => rfl
  | cons r rs ih =>
    obtain ⟨hr, hrs⟩ := Scalars.cons_iff.mp h
    rw [encode_cons, List.map_append, ih hrs, List.map_cons, encode_cons]
    by_cases hr80 : r < 0x80
    · obtain ⟨hg, hf⟩ := hlow r hr80
      rw [encodeRune_ascii hr80, encodeRune_ascii hg, List.map_singleton, hf]
    · have hfix : (encodeRune r).map f = (encodeRune r).map id :=
        List.map_congr_left fun b hb => hbyte b (le_of_mem_encodeRune (by omega) hr hb)
      rw [hwide r hr80, hfix, List.map_id]

end TangraTicket.GoText
