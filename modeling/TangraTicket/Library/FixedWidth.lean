import TangraTicket.Library.SliceSort

/-!
Numerals of a fixed width. Where the digits are in the order of their values, numerals of one width
are in the order of theirs, whatever follows them.
-/

namespace TangraTicket.GoText

def fixedWidth (digit : ℕ → UInt8) (base : ℕ) : ℕ → ℕ → GoString
  | 0, _ => []
  | w + 1, n => fixedWidth digit base w (n / base) ++ [digit (n % base)]

variable {digit : ℕ → UInt8} {base : ℕ}

theorem length_fixedWidth (w n : ℕ) : (fixedWidth digit base w n).length = w := by
  induction w generalizing n with
  | zero => rfl
  | succ w ih => rw [fixedWidth, List.length_append, ih, List.length_singleton]

theorem fixedWidth_add (w v n : ℕ) :
    fixedWidth digit base (w + v) n = fixedWidth digit base w (n / base ^ v) ++
    fixedWidth digit base v n := by
  induction v generalizing n with
  | zero => rw [Nat.pow_zero, Nat.div_one, fixedWidth, List.append_nil, Nat.add_zero]
  | succ v ih =>
    rw [← Nat.add_assoc, fixedWidth, ih, fixedWidth, List.append_assoc, Nat.div_div_eq_div_mul,
      Nat.pow_succ, Nat.mul_comm]

theorem fixedWidth_mod (w n : ℕ) : fixedWidth digit base w (n % base ^ w) = fixedWidth digit base w n := by
  induction w generalizing n with
  | zero => rfl
  | succ w ih =>
    rw [fixedWidth, fixedWidth, Nat.pow_succ, Nat.mul_comm, Nat.mod_mul_right_div_self, ih,
      Nat.mod_mul_right_mod]

theorem mem_fixedWidth {w n : ℕ} (hbase : 0 < base) {b : UInt8} (hb : b ∈ fixedWidth digit base w n) :
    ∃ d < base, b = digit d := by
  induction w generalizing n with
  | zero => cases hb
  | succ w ih =>
    rcases List.mem_append.mp hb with hb | hb
    · exact ih hb
    · exact ⟨n % base, Nat.mod_lt n hbase, List.mem_singleton.mp hb⟩

theorem append_lt_append {s t : GoString} (h : s < t) (hlength : s.length = t.length)
    (r r' : GoString) : s ++ r < t ++ r' := by
  induction s generalizing t with
  | nil =>
    obtain rfl := List.length_eq_zero_iff.mp hlength.symm
    cases h
  | cons b s ih =>
    cases t with
    | nil => cases hlength
    | cons c t =>
      rw [List.cons_append, List.cons_append, List.cons_lt_cons_iff]
      rcases List.cons_lt_cons_iff.mp h with hbc | ⟨hbc, hst⟩
      · exact .inl hbc
      · exact .inr ⟨hbc, ih hst (Nat.succ.inj hlength)⟩

theorem fixedWidth_lt (hdigit : ∀ c d, c < d → d < base → digit c < digit d) {w m n : ℕ}
    (hmn : m < n) (hn : n < base ^ w) :
    fixedWidth digit base w m < fixedWidth digit base w n := by
  induction w generalizing m n with
  | zero =>
    rw [Nat.pow_zero] at hn
    omega
  | succ w ih =>
    have hbase : 0 < base := Nat.pos_of_ne_zero fun h => by simp [h] at hn
    have hdiv : n / base < base ^ w := Nat.div_lt_of_lt_mul (by rwa [Nat.mul_comm, ← Nat.pow_succ])
    rw [fixedWidth, fixedWidth]
    rcases Nat.lt_or_eq_of_le (Nat.div_le_div_right (c := base) hmn.le) with hlt | heq
    · exact append_lt_append (ih hlt hdiv) (by rw [length_fixedWidth, length_fixedWidth]) _ _
    · -- the front is the same, so the last digits differ
      have hlast : m % base < n % base := by
        have hm := Nat.div_add_mod m base
        have hn := Nat.div_add_mod n base
        rw [heq] at hm
        omega
      rw [heq]
      refine List.append_left_lt ?_
      rw [List.cons_lt_cons_iff]
      exact .inl (hdigit _ _ hlast (Nat.mod_lt n hbase))

end TangraTicket.GoText
