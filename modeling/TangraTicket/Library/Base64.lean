import TangraTicket.Library.GoRunes

/-!
Standard base64 with padding (`encoding/base64`), as `StdEncoding` writes it, and reads it once line
ends are gone.
-/

namespace TangraTicket.Base64

open GoText

/-- The six bits a character stands for. -/
def value (c : UInt8) : Option ℕ :=
  if 0x41 ≤ c ∧ c ≤ 0x5A then some (c.toNat - 0x41)
  else if 0x61 ≤ c ∧ c ≤ 0x7A then some (c.toNat - 0x61 + 26)
  else if 0x30 ≤ c ∧ c ≤ 0x39 then some (c.toNat - 0x30 + 52)
  else if c = 0x2B then some 62
  else if c = 0x2F then some 63
  else none

def decode : GoString → Option GoString
  | [] => some []
  | a :: b :: c :: d :: rest => do
    let x ← value a
    let y ← value b
    let first := (x * 4 + y / 16).toUInt8
    if c = 0x3D ∧ d = 0x3D then
      if rest = [] then some [first] else none
    else do
      let z ← value c
      let second := (y % 16 * 16 + z / 4).toUInt8
      if d = 0x3D then
        if rest = [] then some [first, second] else none
      else do
        let w ← value d
        let bytes ← decode rest
        some (first :: second :: (z % 4 * 64 + w).toUInt8 :: bytes)
  | _ => none

example : decode "TWFuIQ==" = some (goString "Man!") := by decide

theorem length_decode_le {s t : GoString} (h : decode s = some t) : t.length ≤ s.length := by
  fun_induction decode s generalizing t with
  | case1 =>
    obtain rfl := Option.some.inj h
    exact le_refl _
  | case2 a b c d rest ih =>
    obtain ⟨x, -, h⟩ := Option.bind_eq_some_iff.mp h
    obtain ⟨y, -, h⟩ := Option.bind_eq_some_iff.mp h
    dsimp only at h
    split_ifs at h
    · obtain rfl := Option.some.inj h
      simp
    · obtain ⟨z, -, h⟩ := Option.bind_eq_some_iff.mp h
      obtain rfl := Option.some.inj h
      simp
    · obtain ⟨z, -, h⟩ := Option.bind_eq_some_iff.mp h
      cases h
    · obtain ⟨z, -, h⟩ := Option.bind_eq_some_iff.mp h
      obtain ⟨w, -, h⟩ := Option.bind_eq_some_iff.mp h
      obtain ⟨bytes, hbytes, h⟩ := Option.bind_eq_some_iff.mp h
      obtain rfl := Option.some.inj h
      have hle := ih hbytes
      simp only [List.length_cons]
      omega
  | case3 => cases h

def letter (n : ℕ) : UInt8 :=
  (if n < 26 then 0x41 + n else if n < 52 then 0x61 + (n - 26) else if n < 62 then 0x30 + (n - 52)
    else if n = 62 then 0x2B else 0x2F).toUInt8

def encode : GoString → GoString
  | [] => []
  | [a] => [letter (a.toNat / 4), letter (a.toNat % 4 * 16), 0x3D, 0x3D]
  | [a, b] =>
    [letter (a.toNat / 4), letter (a.toNat % 4 * 16 + b.toNat / 16), letter (b.toNat % 16 * 4), 0x3D]
  | a :: b :: c :: rest =>
    letter (a.toNat / 4) :: letter (a.toNat % 4 * 16 + b.toNat / 16) ::
      letter (b.toNat % 16 * 4 + c.toNat / 64) ::
      letter (c.toNat % 64) :: encode rest

theorem letter_spec : ∀ n < 64, value (letter n) = some n ∧ letter n ≠ 0x3D ∧ letter n ≠ 0x3F ∧
    0x20 < letter n ∧ letter n < 0x7F := by
  decide +kernel

theorem length_encode (s : GoString) : (encode s).length = 4 * ((s.length + 2) / 3) := by
  fun_induction encode s with
  | case1 => rfl
  | case2 a => simp
  | case3 a b => simp
  | case4 a b c rest ih =>
    simp only [List.length_cons, ih]
    omega

theorem toUInt8_of_toNat {a : UInt8} {n : ℕ} (h : n = a.toNat) : n.toUInt8 = a := by
  rw [h, Nat.toUInt8_eq, UInt8.ofNat_toNat]

theorem decode_encode (s : GoString) : decode (encode s) = some s := by
  fun_induction encode s with
  | case1 => rfl
  | case2 a =>
    have ha := a.toNat_lt
    have hfirst := letter_spec (a.toNat / 4) (by omega)
    have hsecond := letter_spec (a.toNat % 4 * 16) (by omega)
    simp only [decode, hfirst.1, hsecond.1, Option.bind_eq_bind, Option.bind_some, and_self, if_true]
    rw [toUInt8_of_toNat (a := a) (by omega)]
  | case3 a b =>
    have ha := a.toNat_lt
    have hb := b.toNat_lt
    have hfirst := letter_spec (a.toNat / 4) (by omega)
    have hsecond := letter_spec (a.toNat % 4 * 16 + b.toNat / 16) (by omega)
    have hthird := letter_spec (b.toNat % 16 * 4) (by omega)
    simp only [decode, hfirst.1, hsecond.1, hthird.1, hthird.2.1, Option.bind_eq_bind,
      Option.bind_some, false_and, if_false, if_true]
    rw [toUInt8_of_toNat (a := a) (by omega), toUInt8_of_toNat (a := b) (by omega)]
  | case4 a b c rest ih =>
    have ha := a.toNat_lt
    have hb := b.toNat_lt
    have hc := c.toNat_lt
    have hfirst := letter_spec (a.toNat / 4) (by omega)
    have hsecond := letter_spec (a.toNat % 4 * 16 + b.toNat / 16) (by omega)
    have hthird := letter_spec (b.toNat % 16 * 4 + c.toNat / 64) (by omega)
    have hfourth := letter_spec (c.toNat % 64) (by omega)
    simp only [decode, hfirst.1, hsecond.1, hthird.1, hthird.2.1, hfourth.1, hfourth.2.1, ih,
      Option.bind_eq_bind, Option.bind_some, false_and, if_false]
    rw [toUInt8_of_toNat (a := a) (by omega), toUInt8_of_toNat (a := b) (by omega),
      toUInt8_of_toNat (a := c) (by omega)]

theorem of_mem_encode {s : GoString} {c : UInt8} (h : c ∈ encode s) : 0x20 < c ∧ c < 0x7F ∧ c ≠ 0x3F := by
  have hletter : ∀ n < 64, 0x20 < letter n ∧ letter n < 0x7F ∧ letter n ≠ 0x3F := fun n hn =>
    ⟨(letter_spec n hn).2.2.2.1, (letter_spec n hn).2.2.2.2, (letter_spec n hn).2.2.1⟩
  fun_induction encode s with
  | case1 => cases h
  | case2 a =>
    have ha := a.toNat_lt
    simp only [List.mem_cons, List.not_mem_nil, or_false] at h
    rcases h with rfl | rfl | rfl | rfl
    · exact hletter _ (by omega)
    · exact hletter _ (by omega)
    · decide
    · decide
  | case3 a b =>
    have ha := a.toNat_lt
    have hb := b.toNat_lt
    simp only [List.mem_cons, List.not_mem_nil, or_false] at h
    rcases h with rfl | rfl | rfl | rfl
    · exact hletter _ (by omega)
    · exact hletter _ (by omega)
    · exact hletter _ (by omega)
    · decide
  | case4 a b c rest ih =>
    have ha := a.toNat_lt
    have hb := b.toNat_lt
    have hc := c.toNat_lt
    simp only [List.mem_cons] at h
    rcases h with rfl | rfl | rfl | rfl | h
    · exact hletter _ (by omega)
    · exact hletter _ (by omega)
    · exact hletter _ (by omega)
    · exact hletter _ (by omega)
    · exact ih h

end TangraTicket.Base64
