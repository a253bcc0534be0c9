import TangraTicket.Library.GoScalars

/-!
Valid text cut at a number of bytes. What is left is valid exactly when the cut falls between two
characters.
-/

namespace TangraTicket.GoText

variable {s t bs : GoString} {r n : ℕ}

theorem Encodes.head_not_cont {b : UInt8} (h : Encodes (b :: bs) r) : isCont b = false := by
  cases h <;> simp only [isCont] <;> grind

theorem Encodes.validString_append (h : Encodes bs r) (t : GoString) :
    validString (bs ++ t) = validString t := by
  rw [validString, h.pieces_append, List.all_cons, Bool.true_and, ← validString]

theorem Encodes.not_validString_take (h : Encodes bs r) (hn : 0 < n) (hlt : n < bs.length) :
    validString (bs.take n) = false := by
  rw [← Bool.not_eq_true]
  intro hvalid
  obtain ⟨rs, hrs, heq⟩ := exists_encode hvalid
  have hlength : (bs.take n).length = n := List.length_take_of_le hlt.le
  cases rs with
  | nil =>
    rw [heq, encode_nil, List.length_nil] at hlength
    omega
  | cons r' rs =>
    obtain ⟨hr, -⟩ := Scalars.cons_iff.mp hrs
    have hsplit : bs = encodeRune r' ++ (encode rs ++ bs.drop n) := by
      rw [← List.append_assoc, ← encode_cons, ← heq, List.take_append_drop]
    have hpieces := h.pieces_append []
    rw [List.append_nil, hsplit, (encodes_encodeRune hr).pieces_append, ← hsplit] at hpieces
    have hbytes : encodeRune r' = bs := congrArg Piece.bytes (List.cons.inj hpieces).1
    have hle : (encodeRune r').length ≤ (bs.take n).length := by
      rw [heq, encode_cons, List.length_append]
      exact Nat.le_add_right _ _
    rw [hbytes, hlength] at hle
    omega

theorem validString_take_iff (hs : validString s = true) (n : ℕ) :
    validString (s.take n) = true ↔ ∀ b ∈ (s.drop n).head?, isCont b = false := by
  induction s using decode_induction generalizing n with
  | nil => simp [validString, pieces]
  | formed bs r t hbs ih =>
    rw [hbs.validString_append] at hs
    by_cases hn : bs.length ≤ n
    · rw [List.take_append, List.take_of_length_le hn, List.drop_append, List.drop_eq_nil_of_le hn,
        List.nil_append, hbs.validString_append]
      exact ih hs _
    · have htake : (bs ++ t).take n = bs.take n := List.take_append_of_le_length (by omega)
      have hdrop : (bs ++ t).drop n = bs.drop n ++ t := List.drop_append_of_le_length (by omega)
      obtain ⟨b, bs, rfl⟩ := List.exists_cons_of_ne_nil hbs.ne_nil
      rw [htake, hdrop]
      cases n with
      | zero => simpa [validString, pieces] using hbs.head_not_cont
      | succ n =>
        obtain ⟨c, rest, hrest⟩ := List.exists_cons_of_ne_nil
          (List.ne_nil_of_length_pos (l := bs.drop n)
            (by rw [List.length_drop]; rw [List.length_cons] at hn; omega))
        have hcont : isCont c = true := hbs.tail_cont c (List.mem_of_mem_drop (hrest ▸ List.mem_cons_self))
        rw [hbs.not_validString_take (Nat.succ_pos n) (by omega), List.drop_succ_cons, hrest]
        simp [hcont]
  | bad b t hb ih =>
    rw [validString, hb.pieces_cons] at hs
    cases hs

end TangraTicket.GoText
