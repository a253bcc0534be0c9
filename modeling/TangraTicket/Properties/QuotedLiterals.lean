import TangraTicket.Cel.Lexer
import TangraTicket.Library.GoScalars
import TangraTicket.Services.RuleEngine

/-!
The string literals of rendered conditions: whatever a value holds, CEL reads its literal as one
token and its value back.
-/

namespace TangraTicket.Services.Rules

open GoText Cel

section Codes

variable {s t : GoString} {rs : List ℕ}

theorem runes_encode_append (h : Scalars rs) (t : GoString) : runes (encode rs ++ t) = rs ++ runes t := by
  induction rs with
  | nil => rfl
  | cons r rs ih =>
    obtain ⟨hr, hrs⟩ := Scalars.cons_iff.mp h
    rw [encode_cons, List.append_assoc, runes, (encodes_encodeRune hr).pieces_append, List.map_cons,
      List.cons_append]
    exact congrArg (r :: ·) (ih hrs)

theorem encode_map_toNat (h : ∀ b ∈ s, b < 0x80) : encode (s.map UInt8.toNat) = s := by
  induction s with
  | nil => rfl
  | cons b s ih =>
    obtain ⟨hb, hs⟩ := List.forall_mem_cons.mp h
    simp only [UInt8.lt_iff_toNat_lt, UInt8.reduceToNat] at hb
    rw [List.map_cons, encode_cons, encodeRune_ascii hb, ih hs]
    simp

end Codes

theorem hexDigit_lt {n : ℕ} (h : n < 16) :
    hexDigit n < 0x80 ∧ digitValue 16 (hexDigit n).toNat = some n := by
  interval_cases n <;> decide

theorem hexPad_lt (w n : ℕ) : ∀ b ∈ hexPad w n, b < 0x80 := by
  induction w generalizing n with
  | zero => exact fun b hb => absurd hb List.not_mem_nil
  | succ w ih =>
    intro b hb
    rcases List.mem_append.mp hb with hb | hb
    · exact ih _ b hb
    · rw [List.mem_singleton.mp hb]
      exact (hexDigit_lt (Nat.mod_lt n (by decide))).1

theorem length_hexPad (w n : ℕ) : (hexPad w n).length = w := by
  induction w generalizing n with
  | zero => rfl
  | succ w ih => rw [hexPad, List.length_append, ih, List.length_singleton]

theorem numeral_concat (base : ℕ) (ds : Codes) (d : ℕ) :
    numeral base (ds ++ [d]) = (numeral base ds).bind fun n => (digitValue base d).map fun v =>
    n * base + v := by
  rw [numeral, List.foldl_append]
  rfl

theorem numeral_hexPad (w n : ℕ) : numeral 16 ((hexPad w n).map UInt8.toNat) = some (n % 16 ^ w) := by
  induction w generalizing n with
  | zero =>
    rw [pow_zero, Nat.mod_one]
    rfl
  | succ w ih =>
    rw [hexPad, List.map_append, List.map_singleton, numeral_concat, ih,
      (hexDigit_lt (Nat.mod_lt n (by decide))).2, pow_succ', Nat.mod_mul, Option.bind_some,
      Option.map_some, Option.some.injEq]
    omega

section Quote

variable [RuleLibrary]

/-- What `unicode.IsPrint` keeps to: the line ends are not printable. -/
class PrintLaws : Prop where
  newline : RuleLibrary.isPrint 0x0A = false
  carriageReturn : RuleLibrary.isPrint 0x0D = false

def quoteCodes (r : ℕ) : Codes :=
  if r = 0x5C then [0x5C, 0x5C]
  else if r = 0x22 then [0x5C, 0x22]
  else if RuleLibrary.isPrint r ∧ r ≠ 0x2028 ∧ r ≠ 0x2029 then [r]
  else if r ≤ 0xFFFF then [0x5C, 0x75] ++ (hexPad 4 r).map UInt8.toNat
  else [0x5C, 0x55] ++ (hexPad 8 r).map UInt8.toNat

theorem quoteRune_eq (r : ℕ) : quoteRune r = encode (quoteCodes r) := by
  have hhex : ∀ (c : UInt8) (w : ℕ), c < 0x80 → [0x5C, c] ++ hexPad w r =
      encode ([0x5C, c.toNat] ++ (hexPad w r).map UInt8.toNat) := by
    intro c w hc
    refine (encode_map_toNat (s := [0x5C, c] ++ hexPad w r) ?_).symm
    rw [List.forall_mem_append]
    exact ⟨by simpa using hc, hexPad_lt w r⟩
  have hprint : encodeRune r = encode [r] := by rw [encode_cons, encode_nil, List.append_nil]
  have hmerge : quoteRune r = if r = 0x5C then [0x5C, 0x5C] else if r = 0x22 then [0x5C, 0x22]
      else if RuleLibrary.isPrint r ∧ r ≠ 0x2028 ∧ r ≠ 0x2029 then encodeRune r
      else if r ≤ 0xFFFF then [0x5C, 0x75] ++ hexPad 4 r else [0x5C, 0x55] ++ hexPad 8 r := by
    unfold quoteRune
    by_cases hlow : r < 0x80
    · have hsep : r ≠ 0x2028 ∧ r ≠ 0x2029 := by omega
      have hhigh : ¬ 0x80 ≤ r := by omega
      simp [hlow, hsep, hhigh]
    · have hhigh : 0x80 ≤ r := by omega
      simp [hlow, hhigh]
  rw [hmerge]
  unfold quoteCodes
  split_ifs
  · decide
  · decide
  · exact hprint
  · exact hhex 0x75 4 (by decide)
  · exact hhex 0x55 8 (by decide)

theorem scalars_quoteCodes {r : ℕ} (h : Scalar r) : Scalars (quoteCodes r) := by
  have hhex : ∀ w, Scalars ((hexPad w r).map UInt8.toNat) := by
    intro w x hx
    obtain ⟨b, -, rfl⟩ := List.mem_map.mp hx
    have := b.toNat_lt
    unfold Scalar
    omega
  unfold quoteCodes
  split_ifs
  · decide
  · decide
  · simpa [Scalars] using h
  · exact Scalars.append_iff.mpr ⟨by decide, hhex 4⟩
  · exact Scalars.append_iff.mpr ⟨by decide, hhex 8⟩

omit [RuleLibrary] in
theorem escapeAt_hex {c w r : ℕ} (hc : escapeDigits c = some w) (hr : Scalar r) (hw : r < 16 ^ w)
    (tail : Codes) :
    escapeAt (c :: ((hexPad w r).map UInt8.toNat ++ tail)) = some (r, tail) := by
  have hlen : ((hexPad w r).map UInt8.toNat).length = w := by rw [List.length_map, length_hexPad]
  have hcode : codePoint r = some r := if_pos hr
  simp only [escapeAt, hc]
  rw [if_neg (by rw [List.length_append, hlen]; omega), List.take_left' hlen, List.drop_left' hlen,
    numeral_hexPad, Nat.mod_eq_of_lt hw]
  simp [hcode]

variable [PrintLaws]

theorem stringRest_quoteCodes {r : ℕ} (hr : Scalar r) (fuel : ℕ) (tail : Codes) :
    stringRest [0x22] false (fuel + 1) (quoteCodes r ++ tail) =
      (stringRest [0x22] false fuel tail).map fun p => (r :: p.1, p.2) := by
  unfold quoteCodes
  split_ifs with h₁ h₂ h₃ h₄
  · subst h₁
    exact stringRest_escape fuel rfl rfl
  · subst h₂
    exact stringRest_escape fuel rfl rfl
  · have hnewline : r ≠ 0x0A := by
      rintro rfl
      exact absurd h₃.1 (by simp [PrintLaws.newline])
    have hreturn : r ≠ 0x0D := by
      rintro rfl
      exact absurd h₃.1 (by simp [PrintLaws.carriageReturn])
    exact stringRest_plain fuel (by simp [List.isPrefixOf, Ne.symm h₂]) h₁ hnewline hreturn
  · exact stringRest_escape fuel rfl (escapeAt_hex (c := 0x75) rfl hr (by omega) tail)
  · have hmax : r ≤ 0x10FFFF := by
      rcases hr with hr | hr <;> omega
    exact stringRest_escape fuel rfl (escapeAt_hex (c := 0x55) rfl hr (by omega) tail)

theorem stringRest_quoted {rs : List ℕ} (h : Scalars rs) {fuel : ℕ} (hfuel : rs.length < fuel)
    (rest : Codes) :
    stringRest [0x22] false fuel (rs.flatMap quoteCodes ++ 0x22 :: rest) = some (rs, rest) := by
  induction rs generalizing fuel with
  | nil =>
    obtain ⟨fuel, rfl⟩ := Nat.exists_eq_succ_of_ne_zero (Nat.ne_of_gt hfuel)
    rfl
  | cons r rs ih =>
    obtain ⟨hr, hrs⟩ := Scalars.cons_iff.mp h
    obtain ⟨fuel, rfl⟩ := Nat.exists_eq_succ_of_ne_zero (Nat.ne_zero_of_lt hfuel)
    rw [List.length_cons, Nat.succ_lt_succ_iff] at hfuel
    rw [List.flatMap_cons, List.append_assoc, stringRest_quoteCodes hr, ih hrs hfuel]
    rfl

omit [PrintLaws] in
theorem quoteCodes_ne_nil (r : ℕ) : quoteCodes r ≠ [] := by
  unfold quoteCodes
  split_ifs <;> simp

omit [PrintLaws] in
theorem length_le_flatMap_quoteCodes (rs : List ℕ) : rs.length ≤ (rs.flatMap quoteCodes).length := by
  induction rs with
  | nil => exact Nat.zero_le _
  | cons r rs ih =>
    have hpos := List.length_pos_of_ne_nil (quoteCodes_ne_nil r)
    rw [List.flatMap_cons, List.length_append, List.length_cons]
    omega

theorem stringAt_quoted {rs : List ℕ} (h : Scalars rs) {rest : Codes}
    (hrest : rs ≠ [] ∨ rest.head? ≠ some 0x22) :
    stringAt 0x22 (rs.flatMap quoteCodes ++ 0x22 :: rest) = some (rs, rest) := by
  have hlen := length_le_flatMap_quoteCodes rs
  have hfuel : rs.length < (rs.flatMap quoteCodes ++ 0x22 :: rest).length + 1 := by
    rw [List.length_append]
    omega
  have hshort := stringRest_quoted h hfuel rest
  have hlong : [0x22, 0x22].isPrefixOf (rs.flatMap quoteCodes ++ 0x22 :: rest) = false := by
    cases rs with
    | nil =>
      have hrest := hrest.resolve_left (fun h => h rfl)
      cases rest with
      | nil => rfl
      | cons c rest =>
        have hc : ¬ 0x22 = c := fun hc => hrest (by rw [hc]; rfl)
        simp [List.isPrefixOf, hc]
    | cons r rs =>
      have hhead : ∀ cs, [0x22, 0x22].isPrefixOf (quoteCodes r ++ cs) = false := by
        intro cs
        unfold quoteCodes
        split_ifs with h₁ h₂ h₃ h₄
        · rfl
        · rfl
        · simp [List.isPrefixOf, Ne.symm h₂]
        · rfl
        · rfl
      rw [List.flatMap_cons, List.append_assoc]
      exact hhead _
  unfold stringAt
  rw [hlong, if_neg Bool.false_ne_true, hshort]

omit [PrintLaws] in
theorem quote_eq (s : GoString) : quote s = encode (0x22 :: ((runes s).flatMap quoteCodes ++ [0x22])) := by
  have hbody : (runes s).flatMap quoteRune = encode ((runes s).flatMap quoteCodes) := by
    rw [encode, List.flatMap_assoc]
    exact List.flatMap_congr fun r _ => quoteRune_eq r
  rw [quote, hbody, List.append_assoc, encode_cons, encode_append]
  rfl

omit [PrintLaws] in
theorem scalars_quoted (s : GoString) : Scalars (0x22 :: ((runes s).flatMap quoteCodes ++ [0x22])) := by
  refine Scalars.cons_iff.mpr ⟨by decide, Scalars.append_iff.mpr ⟨fun c hc => ?_, by decide⟩⟩
  obtain ⟨r, hr, hc⟩ := List.mem_flatMap.mp hc
  exact scalars_quoteCodes (scalars_runes s r hr) c hc

omit [PrintLaws] in
theorem runes_quote_append (s t : GoString) :
    runes (quote s ++ t) = 0x22 :: ((runes s).flatMap quoteCodes ++ 0x22 :: runes t) := by
  rw [quote_eq, runes_encode_append (scalars_quoted s)]
  simp

/-- CEL reads the literal of a value as one token, with the value in it, and goes on with what
follows it, unless the value is empty and another quote follows. -/
theorem quote_is_literal {s : GoString} (hs : validString s = true) {suffix : GoString}
    (h : s ≠ [] ∨ (runes suffix).head? ≠ some 0x22) :
    ∃ value, next (runes (quote s ++ suffix)) = some (some (.str value), runes suffix) ∧
    encode value = s := by
  refine ⟨runes s, ?_, encode_runes hs⟩
  have hne : runes s ≠ [] ∨ (runes suffix).head? ≠ some 0x22 := by
    refine h.imp_left fun hs hnil => hs ?_
    rw [runes, List.map_eq_nil_iff] at hnil
    rw [← joinPieces_pieces s, hnil]
    rfl
  rw [runes_quote_append]
  simp only [next]
  rw [if_neg (by decide), if_pos (by decide), stringAt_quoted (scalars_runes s) hne]
  rfl

end Quote

def decimalPad : ℕ → ℕ → GoString
  | 0, _ => []
  | w + 1, n => decimalPad w (n / 10) ++ [0x30 + (n % 10).toUInt8]

def plainFloat (s : GoString) : Option UInt64 :=
  let ds := if hasPrefix s.reverse [0x30, 0x2E] then s.take (s.length - 2) else s
  if ds.isEmpty then none
  else (numeral 10 (ds.map UInt8.toNat)).bind fun n => if n < 2 ^ 64 then some (UInt64.ofNat n) else none

@[reducible] def plainRules : RuleLibrary where
  parseFloat := plainFloat
  formatFloat v := decimalPad 20 v.toNat
  isPrint r := 0x20 ≤ r && r ≤ 0x7E
  regexpError _ := none
  celCompile _ := .ok ⟨true, "bool"⟩
  celProgram _ := .ok ()

theorem printLaws_plainRules : @PrintLaws plainRules := by
  let := plainRules
  exact ⟨by decide, by decide⟩

/-- The empty literal before four more quotes: all six are read as one long literal. -/
theorem empty_literal_swallowed :
    @quote plainRules [] = goString "\"\"" ∧
      next (runes (@quote plainRules [] ++ goString "\"\"\"\"")) = some (some (.str []), []) := by
  decide +kernel

theorem quote_is_literal_call :
    ∃ value, next (runes (@quote plainRules (goString "a\"b") ++ goString ")")) =
    some (some (.str value), runes (goString ")")) ∧
      encode value = goString "a\"b" :=
  @quote_is_literal plainRules printLaws_plainRules _ (by decide +kernel) _ (.inl (by decide +kernel))

end TangraTicket.Services.Rules
