import TangraTicket.Library.Base64
import TangraTicket.Library.GoScalars

/-!
The encoded words of mail headers as Go's `mime` package writes them: `QEncoding.Encode("utf-8", s)`,
and words in base64.
-/

namespace TangraTicket.EncodedWord

open GoText

def needsEncoding (s : GoString) : Bool := (runes s).any fun r => (r < 0x20 || 0x7E < r) && r ≠ 0x09

def hexDigit (n : ℕ) : UInt8 := (if n < 10 then 0x30 + n else 0x41 + (n - 10)).toUInt8

def qByte (b : UInt8) : GoString :=
  if b = 0x20 then [0x5F]
  else if 0x21 ≤ b ∧ b ≤ 0x7E ∧ b ≠ 0x3D ∧ b ≠ 0x3F ∧ b ≠ 0x5F then [b]
  else [0x3D, hexDigit (b.toNat / 16), hexDigit (b.toNat % 16)]

def qText (bs : GoString) : GoString := bs.flatMap qByte

def opening (encoding : UInt8) : GoString := goString "=?utf-8?" ++ [encoding, 0x3F]

def closing : GoString := "?="

def maxContentLen : ℕ := 63

def qEncodeFrom : ℕ → List Piece → GoString
  | _, [] => []
  | used, p :: ps =>
    if used + (qText p.bytes).length > maxContentLen then
      closing ++ [0x20] ++ opening 0x71 ++ qText p.bytes ++ qEncodeFrom (qText p.bytes).length ps
    else qText p.bytes ++ qEncodeFrom (used + (qText p.bytes).length) ps

def qEncode (s : GoString) : GoString :=
  if needsEncoding s then opening 0x71 ++ qEncodeFrom 0 (pieces s) ++ closing else s

def bWord (bs : GoString) : GoString := opening 0x62 ++ Base64.encode bs ++ closing

theorem length_bWord (bs : GoString) : (bWord bs).length = 12 + 4 * ((bs.length + 2) / 3) := by
  have hopen : (opening 0x62).length = 10 := by decide
  have hclose : closing.length = 2 := by decide
  rw [bWord, List.length_append, List.length_append, Base64.length_encode, hopen, hclose]
  omega

theorem qText_append (bs bs' : GoString) : qText (bs ++ bs') = qText bs ++ qText bs' := List.flatMap_append

theorem qText_joinPieces_cons (p : Piece) (ps : List Piece) :
    qText (joinPieces (p :: ps)) = qText p.bytes ++ qText (joinPieces ps) := qText_append _ _

theorem qEncodeFrom_of_le {used : ℕ} {ps : List Piece}
    (h : used + (qText (joinPieces ps)).length ≤ maxContentLen) :
    qEncodeFrom used ps = qText (joinPieces ps) := by
  induction ps generalizing used with
  | nil => rfl
  | cons p ps ih =>
    rw [qText_joinPieces_cons, List.length_append] at h
    rw [qEncodeFrom, if_neg (by omega), ih (by omega), qText_joinPieces_cons]

theorem le_length_qEncodeFrom (used : ℕ) (ps : List Piece) :
    (qText (joinPieces ps)).length ≤ (qEncodeFrom used ps).length := by
  induction ps generalizing used with
  | nil => exact Nat.zero_le _
  | cons p ps ih =>
    rw [qText_joinPieces_cons, List.length_append, qEncodeFrom]
    split_ifs
    · have hrest := ih (qText p.bytes).length
      simp only [List.length_append]
      omega
    · have hrest := ih (used + (qText p.bytes).length)
      simp only [List.length_append]
      omega

theorem qEncode_short {s : GoString} {n : ℕ} (hn : n ≤ 75) (hs : needsEncoding s = true) :
    (qEncode s).length ≤ n ↔ 12 + (qText s).length ≤ n := by
  have hopen : (opening 0x71).length = 10 := by decide
  have hclose : closing.length = 2 := by decide
  have hlength : (qEncode s).length = 12 + (qEncodeFrom 0 (pieces s)).length := by
    rw [qEncode, if_pos hs, List.length_append, List.length_append, hopen, hclose]
    omega
  rw [hlength]
  have hle := le_length_qEncodeFrom 0 (pieces s)
  rw [joinPieces_pieces] at hle
  constructor
  · intro h
    omega
  · intro h
    rw [qEncodeFrom_of_le (by rw [joinPieces_pieces, maxContentLen]; omega), joinPieces_pieces]
    exact h

theorem qEncode_eq_word {s : GoString} (hs : needsEncoding s = true) (h : 12 + (qText s).length ≤ 75) :
    qEncode s = opening 0x71 ++ qText s ++ closing := by
  rw [qEncode, if_pos hs, qEncodeFrom_of_le (by rw [joinPieces_pieces, maxContentLen]; omega),
    joinPieces_pieces]

end TangraTicket.EncodedWord
