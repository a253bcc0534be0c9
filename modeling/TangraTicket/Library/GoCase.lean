import TangraTicket.Library.GoScalars

/-!
Lower case on characters. Of `unicode.ToLower` only what the Unicode tables say about ASCII is used:
the ASCII letters map as usual, and from outside ASCII only the dotted capital I and the Kelvin sign
map into it, to `i` and `k`.
-/

namespace TangraTicket.GoText

def lowerAscii (r : ℕ) : ℕ := if 0x41 ≤ r ∧ r ≤ 0x5A then r + 32 else r

class LowerAscii [GoLibrary] : Prop where
  ascii : ∀ r < 0x80, GoLibrary.lowerRune r = lowerAscii r
  wide : ∀ r, 0x80 ≤ r → GoLibrary.lowerRune r < 0x80 → GoLibrary.lowerRune r = 0x69 ∨
    GoLibrary.lowerRune r = 0x6B

theorem ascii_lowerRune (r : ℕ) :
    @GoLibrary.lowerRune asciiLibrary r = if 0x41 ≤ r ∧ r ≤ 0x5A then r + 32 else r := rfl

theorem asciiLowerLaws : @LowerLaws asciiLibrary := by
  let := asciiLibrary
  constructor
  · intro r
    simp only [ascii_lowerRune]
    split_ifs <;> omega
  · intro r h
    simp only [ascii_lowerRune, Scalar] at h ⊢
    split_ifs <;> omega
  · intro r
    simp only [ascii_lowerRune]
    split_ifs with h
    · have hlow : isSpace r = false := by
        simp [isSpace]
        omega
      have hup : isSpace (r + 32) = false := by
        simp [isSpace]
        omega
      rw [hlow, hup]
    · rfl

theorem lowerAscii_ascii : @LowerAscii asciiLibrary := by
  let := asciiLibrary
  refine ⟨fun r _ => rfl, fun r hr hlow => ?_⟩
  have hsame : GoLibrary.lowerRune r = r := if_neg (by omega)
  omega

section Prefixes

variable {rs : List ℕ}

theorem encode_prefix_encode {word : List ℕ} (hword : ∀ c ∈ word, c < 0x80) (h : Scalars rs) :
    encode word <+: encode rs ↔ word <+: rs := by
  induction word generalizing rs with
  | nil => simp [encode_nil]
  | cons c word ih =>
    obtain ⟨hc, hword⟩ := List.forall_mem_cons.mp hword
    rw [encode_cons, encodeRune_ascii hc]
    cases rs with
    | nil => simp [encode_nil]
    | cons r rs =>
      obtain ⟨hr, hrs⟩ := Scalars.cons_iff.mp h
      rw [encode_cons, List.cons_prefix_cons]
      by_cases hlow : r < 0x80
      · rw [encodeRune_ascii hlow, List.singleton_append, List.singleton_append,
          List.cons_prefix_cons, ih hword hrs, ← UInt8.toNat_inj, toNat_toUInt8 (by omega),
          toNat_toUInt8 (by omega)]
      · refine iff_of_false (fun hpre => ?_) (fun heq => hlow (heq.1 ▸ hc))
        obtain ⟨b, bs, hb⟩ := List.exists_cons_of_ne_nil (encodes_encodeRune hr).ne_nil
        rw [hb, List.singleton_append, List.cons_append, List.cons_prefix_cons] at hpre
        have hwide := le_of_mem_encodeRune (b := b) (by omega) hr (by rw [hb]; exact List.mem_cons_self)
        rw [← hpre.1, toNat_toUInt8 (by omega)] at hwide
        omega

theorem infix_of_infix_append {c : UInt8} {w bs t : GoString} (hbs : ∀ b ∈ bs, b ≠ c)
    (h : c :: w <:+: bs ++ t) :
    c :: w <:+: t := by
  induction bs with
  | nil => exact h
  | cons b bs ih =>
    obtain ⟨hb, hbs⟩ := List.forall_mem_cons.mp hbs
    rcases List.infix_cons_iff.mp h with hpre | h
    · exact absurd (List.cons_prefix_cons.mp hpre).1.symm hb
    · exact ih hbs h

theorem encode_infix_encode {word : List ℕ} (hne : word ≠ []) (hword : ∀ c ∈ word, c < 0x80)
    (h : Scalars rs) :
    encode word <:+: encode rs ↔ word <:+: rs := by
  constructor
  · intro hinfix
    induction rs with
    | nil =>
      have hscalars : Scalars word := fun c hc => .inl (by have := hword c hc; omega)
      exact absurd ((encode_eq_nil hscalars).mp (List.infix_nil.mp hinfix)) hne
    | cons r rs ih =>
      obtain ⟨hr, hrs⟩ := Scalars.cons_iff.mp h
      rw [List.infix_cons_iff]
      by_cases hlow : r < 0x80
      · rw [encode_cons, encodeRune_ascii hlow, List.singleton_append] at hinfix
        rcases List.infix_cons_iff.mp hinfix with hpre | hinfix
        · refine .inl ((encode_prefix_encode hword h).mp ?_)
          rwa [encode_cons, encodeRune_ascii hlow, List.singleton_append]
        · exact .inr (ih hrs hinfix)
      · obtain ⟨c, cs, rfl⟩ := List.exists_cons_of_ne_nil hne
        have hc : c < 0x80 := hword c List.mem_cons_self
        rw [encode_cons c, encodeRune_ascii hc, List.singleton_append] at hinfix ih
        refine .inr (ih hrs (infix_of_infix_append (fun b hb heq => ?_) hinfix))
        have hwide := le_of_mem_encodeRune (by omega) hr hb
        rw [heq, toNat_toUInt8 (by omega)] at hwide
        omega
  · rintro ⟨before, after, rfl⟩
    exact ⟨encode before, encode after, by rw [encode_append, encode_append]⟩

theorem toLower_encode [GoLibrary] (h : Scalars rs) :
    toLower (encode rs) = encode (rs.map GoLibrary.lowerRune) := by
  rw [toLower, mapRunes_eq, runes_encode h, List.filterMap_eq_map']

theorem scalars_lower [GoLibrary] [LowerLaws] (h : Scalars rs) : Scalars (rs.map GoLibrary.lowerRune) := by
  intro r hr
  obtain ⟨x, hx, rfl⟩ := List.mem_map.mp hr
  exact LowerLaws.scalar x (h x hx)

end Prefixes

section Sources

variable [GoLibrary] [LowerAscii] {r c : ℕ}

theorem lowerRune_eq_iff (hc : c < 0x80) (hi : c ≠ 0x69) (hk : c ≠ 0x6B) :
    GoLibrary.lowerRune r = c ↔ r < 0x80 ∧ lowerAscii r = c := by
  by_cases hr : r < 0x80
  · rw [LowerAscii.ascii r hr, and_iff_right hr]
  · refine iff_of_false (fun h => ?_) (fun h => hr h.1)
    rcases LowerAscii.wide r (by omega) (by omega) with h' | h' <;> omega

theorem lowerRune_letter (hc : 0x61 ≤ c ∧ c ≤ 0x7A) (hi : c ≠ 0x69) (hk : c ≠ 0x6B) :
    GoLibrary.lowerRune r = c ↔ r = c - 32 ∨ r = c := by
  rw [lowerRune_eq_iff (by omega) hi hk, lowerAscii]
  split_ifs <;> omega

theorem lowerRune_mark (hc : c < 0x41) : GoLibrary.lowerRune r = c ↔ r = c := by
  rw [lowerRune_eq_iff (by omega) (by omega) (by omega), lowerAscii]
  split_ifs <;> omega

end Sources

def Ascii (s : GoString) : Prop := ∀ b ∈ s, b.toNat < 0x80

instance (s : GoString) : Decidable (Ascii s) := inferInstanceAs (Decidable (∀ b ∈ s, b.toNat < 0x80))

def lowerByte (b : UInt8) : UInt8 := (lowerAscii b.toNat).toUInt8

theorem encode_toNat {s : GoString} (h : Ascii s) : encode (s.map UInt8.toNat) = s := by
  induction s with
  | nil => rfl
  | cons b s ih =>
    obtain ⟨hb, hs⟩ := List.forall_mem_cons.mp h
    rw [List.map_cons, encode_cons, encodeRune_ascii hb, ih hs, Nat.toUInt8_eq, UInt8.ofNat_toNat]
    rfl

theorem Ascii.scalars {s : GoString} (h : Ascii s) : Scalars (s.map UInt8.toNat) := by
  intro r hr
  obtain ⟨b, hb, rfl⟩ := List.mem_map.mp hr
  exact .inl (by have := h b hb; omega)

theorem runes_ascii {s : GoString} (h : Ascii s) : runes s = s.map UInt8.toNat := by
  conv_lhs => rw [← encode_toNat h]
  exact runes_encode h.scalars

theorem Ascii.valid {s : GoString} (h : Ascii s) : validString s = true := by
  rw [← encode_toNat h]
  exact validString_encode h.scalars

theorem toNat_lowerByte {b : UInt8} (h : b.toNat < 0x80) : (lowerByte b).toNat = lowerAscii b.toNat := by
  apply toNat_toUInt8
  rw [lowerAscii]
  split_ifs <;> omega

theorem Ascii.lower {s : GoString} (h : Ascii s) : Ascii (s.map lowerByte) := by
  intro c hc
  obtain ⟨b, hb, rfl⟩ := List.mem_map.mp hc
  have hlow := h b hb
  rw [toNat_lowerByte hlow, lowerAscii]
  split_ifs <;> omega

theorem toLower_ascii [GoLibrary] [LowerAscii] {s : GoString} (h : Ascii s) :
    toLower s = s.map lowerByte := by
  rw [toLower, mapRunes_eq, List.filterMap_eq_map', runes_ascii h, ← encode_toNat h.lower,
    List.map_map, List.map_map]
  congr 1
  refine List.map_congr_left fun b hb => ?_
  rw [Function.comp_apply, Function.comp_apply, LowerAscii.ascii _ (h b hb), toNat_lowerByte (h b hb)]

def SameButCase (s t : GoString) : Prop := s.map lowerByte = t.map lowerByte

theorem lowerByte_wide {b : UInt8} (h : 0x80 ≤ b.toNat) : lowerByte b = b := by
  have hb := b.toNat_lt
  rw [lowerByte, lowerAscii, if_neg (by omega), Nat.toUInt8_eq, UInt8.ofNat_toNat]

theorem lowerByte_eq_wide {b c : UInt8} (hc : 0x80 ≤ c.toNat) (h : lowerByte b = c) : b = c := by
  by_cases hb : b.toNat < 0x80
  · have heq := congrArg UInt8.toNat h
    rw [toNat_lowerByte hb, lowerAscii] at heq
    split_ifs at heq <;> omega
  · rw [← h, lowerByte_wide (by omega)]

theorem SameButCase.exists_encode {s : GoString} {rs : List ℕ} (h : Scalars rs)
    (hs : SameButCase s (encode rs)) :
    ∃ rs', Scalars rs' ∧ s = encode rs' ∧ rs'.map lowerAscii = rs.map lowerAscii := by
  induction rs generalizing s with
  | nil =>
    obtain rfl : s = [] := List.map_eq_nil_iff.mp hs
    exact ⟨[], h, rfl, rfl⟩
  | cons r rs ih =>
    obtain ⟨hr, hrs⟩ := Scalars.cons_iff.mp h
    rw [SameButCase, encode_cons, List.map_append] at hs
    obtain ⟨front, back, rfl, hfront, hback⟩ := List.map_eq_append_iff.mp hs
    obtain ⟨rs', hscalars, rfl, hlower⟩ := ih hrs hback
    by_cases hlow : r < 0x80
    · rw [encodeRune_ascii hlow] at hfront
      obtain ⟨b, rfl, hb⟩ := List.map_eq_singleton_iff.mp hfront
      have hsmall : b.toNat < 0x80 := by
        by_contra hwide
        rw [lowerByte_wide (by omega)] at hb
        have heq := congrArg UInt8.toNat hb
        rw [toNat_lowerByte (by rw [toNat_toUInt8 (by omega)]; exact hlow),
          toNat_toUInt8 (by omega), lowerAscii] at heq
        split_ifs at heq <;> omega
      refine ⟨b.toNat :: rs', Scalars.cons_iff.mpr ⟨.inl (by omega), hscalars⟩, ?_, ?_⟩
      · rw [encode_cons, encodeRune_ascii hsmall, Nat.toUInt8_eq, UInt8.ofNat_toNat]
      · have heq := congrArg UInt8.toNat hb
        rw [toNat_lowerByte hsmall, toNat_lowerByte (by rw [toNat_toUInt8 (by omega)]; exact hlow),
          toNat_toUInt8 (by omega)] at heq
        rw [List.map_cons, List.map_cons, heq, hlower]
    · have hsame : front = encodeRune r := by
        have hwide : ∀ b ∈ encodeRune r, 0x80 ≤ b.toNat := fun b hb => le_of_mem_encodeRune (by omega) hr hb
        have hfix : (encodeRune r).map lowerByte = encodeRune r := by
          conv_rhs => rw [← List.map_id (encodeRune r)]
          exact List.map_congr_left fun b hb => lowerByte_wide (hwide b hb)
        rw [hfix] at hfront
        conv_rhs => rw [← hfront]
        conv_lhs => rw [← List.map_id front]
        refine List.map_congr_left fun b hb => ?_
        exact lowerByte_eq_wide (hwide _ (by rw [← hfront]; exact List.mem_map_of_mem hb)) rfl
      exact ⟨r :: rs', Scalars.cons_iff.mpr ⟨hr, hscalars⟩, by rw [hsame, encode_cons], by simp [hlower]⟩

end TangraTicket.GoText
