import Mathlib.Algebra.Group.Int.Defs
import Mathlib.Algebra.Group.Nat.Defs
import Mathlib.Data.Int.Notation
import Mathlib.Data.List.DropRight
import Mathlib.Data.List.Sort

/-!
Go strings are byte sequences; ranging over one decodes it into runes, an undecodable byte being U+FFFD of
width one. The functions below are those of the `strings`, `unicode` and `unicode/utf8` packages that the
development calls, on the bytes themselves.
-/

namespace TangraTicket.GoText

abbrev GoString := List UInt8

def goString (s : String) : GoString := s.toList.flatMap String.utf8EncodeChar

instance : Coe String GoString := ⟨goString⟩

instance : LawfulBEq GoString := List.instLawfulBEq

/-- What the library tables and packages outside the sources answer: case mapping, case-folding
representatives, `mail.ParseAddress` (display name and address), the hex SHA-256 of some bytes and
`strconv.Quote`. -/
class GoLibrary where
  lowerRune : ℕ → ℕ
  foldRune : ℕ → ℕ
  parseAddress : GoString → Option (GoString × GoString)
  sha256Hex : GoString → GoString
  quote : GoString → GoString

def runeError : ℕ := 0xFFFD

structure Piece where
  rune : ℕ
  bytes : GoString
  valid : Bool
deriving DecidableEq

def badByte (b : UInt8) : Piece := ⟨runeError, [b], false⟩

def isCont (b : UInt8) : Bool := 0x80 ≤ b && b ≤ 0xBF

def secondOk (b₀ b₁ : UInt8) : Bool :=
  if b₀ = 0xE0 then 0xA0 ≤ b₁ && b₁ ≤ 0xBF
  else if b₀ = 0xED then 0x80 ≤ b₁ && b₁ ≤ 0x9F
  else if b₀ = 0xF0 then 0x90 ≤ b₁ && b₁ ≤ 0xBF
  else if b₀ = 0xF4 then 0x80 ≤ b₁ && b₁ ≤ 0x8F
  else isCont b₁

def pieces : GoString → List Piece
  | [] => []
  | [b₀] => [if b₀ < 0x80 then ⟨b₀.toNat, [b₀], true⟩ else badByte b₀]
  | b₀ :: b₁ :: t₁ =>
    if b₀ < 0x80 then ⟨b₀.toNat, [b₀], true⟩ :: pieces (b₁ :: t₁)
    else if 0xC2 ≤ b₀ ∧ b₀ ≤ 0xDF ∧ isCont b₁ then
      ⟨(b₀.toNat - 0xC0) * 64 + (b₁.toNat - 0x80), [b₀, b₁], true⟩ :: pieces t₁
    else
      match t₁ with
      | b₂ :: t₂ =>
        if 0xE0 ≤ b₀ ∧ b₀ ≤ 0xEF ∧ secondOk b₀ b₁ ∧ isCont b₂ then
          ⟨(b₀.toNat - 0xE0) * 4096 + (b₁.toNat - 0x80) * 64 + (b₂.toNat - 0x80), [b₀, b₁, b₂],
            true⟩ :: pieces t₂
        else
          match t₂ with
          | b₃ :: t₃ =>
            if 0xF0 ≤ b₀ ∧ b₀ ≤ 0xF4 ∧ secondOk b₀ b₁ ∧ isCont b₂ ∧ isCont b₃ then
              ⟨(b₀.toNat - 0xF0) * 262144 + (b₁.toNat - 0x80) * 4096 + (b₂.toNat - 0x80) * 64 +
                (b₃.toNat - 0x80), [b₀, b₁, b₂, b₃], true⟩ :: pieces t₃
            else badByte b₀ :: pieces (b₁ :: b₂ :: b₃ :: t₃)
          | [] => badByte b₀ :: pieces [b₁, b₂]
      | [] => badByte b₀ :: pieces [b₁]

def runes (s : GoString) : List ℕ := (pieces s).map (·.rune)

def validString (s : GoString) : Bool := (pieces s).all (·.valid)

def runeCount (s : GoString) : ℕ := (pieces s).length

def encodeRune (r : ℕ) : GoString :=
  if r < 0x80 then [r.toUInt8]
  else if r < 0x800 then [(0xC0 + r / 64).toUInt8, (0x80 + r % 64).toUInt8]
  else if (0xD800 ≤ r ∧ r ≤ 0xDFFF) ∨ 0x10FFFF < r then [0xEF, 0xBF, 0xBD]
  else if r < 0x10000 then
    [(0xE0 + r / 4096).toUInt8, (0x80 + r / 64 % 64).toUInt8, (0x80 + r % 64).toUInt8]
  else [(0xF0 + r / 262144).toUInt8, (0x80 + r / 4096 % 64).toUInt8, (0x80 + r / 64 % 64).toUInt8,
    (0x80 + r % 64).toUInt8]

/-- `unicode.IsSpace`. -/
def isSpace (r : ℕ) : Bool :=
  (0x09 ≤ r && r ≤ 0x0D) || r == 0x20 || r == 0x85 || r == 0xA0 || r == 0x1680 ||
    (0x2000 ≤ r && r ≤ 0x200A) ||
    r == 0x2028 || r == 0x2029 || r == 0x202F || r == 0x205F || r == 0x3000

def isControl (r : ℕ) : Bool := r < 0x20 || (0x7F ≤ r && r ≤ 0x9F)

/-- Byte-wise order of strings. -/
def lessString (s t : GoString) : Bool := List.lex s t (fun a b => a < b)

def sortSlice {α : Type} (less : α → α → Bool) (xs : List α) : List α :=
  xs.insertionSort (fun a b => !less b a)

def sortStrings (xs : List GoString) : List GoString := sortSlice lessString xs

def decimal (n : ℕ) : GoString := goString (Nat.repr n)

def joinPieces (ps : List Piece) : GoString := ps.flatMap (·.bytes)

def mapRunes (f : ℕ → Option ℕ) (s : GoString) : GoString :=
  (runes s).flatMap fun r => ((f r).map encodeRune).getD []

def trimSpace (s : GoString) : GoString :=
  joinPieces (((pieces s).dropWhile (fun p => isSpace p.rune)).rdropWhile (fun p => isSpace p.rune))

def trimRight (s cutset : GoString) : GoString := s.rdropWhile (fun b => cutset.contains b)

def splitPieces (sep : ℕ → Bool) : List Piece → List (List Piece)
  | [] => [[]]
  | p :: ps =>
    match splitPieces sep ps with
    | [] => [[p]]
    | w :: ws => if sep p.rune then [] :: w :: ws else (p :: w) :: ws

def fieldsFunc (sep : ℕ → Bool) (s : GoString) : List GoString :=
  ((splitPieces sep (pieces s)).filter (fun w => !w.isEmpty)).map joinPieces

def fields (s : GoString) : List GoString := fieldsFunc isSpace s

def join (parts : List GoString) (sep : GoString) : GoString := List.intercalate sep parts

def split (sep : UInt8) : GoString → List GoString
  | [] => [[]]
  | b :: bs =>
    match split sep bs with
    | [] => [[b]]
    | w :: ws => if b = sep then [] :: w :: ws else (b :: w) :: ws

def hasPrefix (s pre : GoString) : Bool := pre.isPrefixOf s

def contains (s sub : GoString) : Bool := s.tails.any (fun t => sub.isPrefixOf t)

def containsAny (s chars : GoString) : Bool := s.any (fun b => chars.contains b)

def replaceAllFrom (old new : GoString) : ℕ → GoString → GoString
  | _, [] => []
  | k + 1, _ :: bs => replaceAllFrom old new k bs
  | 0, b :: bs =>
    if old.isPrefixOf (b :: bs) then new ++ replaceAllFrom old new (old.length - 1) bs
    else b :: replaceAllFrom old new 0 bs

def replaceAll (s old new : GoString) : GoString := replaceAllFrom old new 0 s

def afterLast (c : UInt8) (s : GoString) : Option GoString :=
  if s.contains c then some (s.rtakeWhile (fun b => b != c)) else none

section Library

variable [GoLibrary]

def toLower (s : GoString) : GoString := mapRunes (fun r => some (GoLibrary.lowerRune r)) s

def equalFold (s t : GoString) : Bool := (runes s).map GoLibrary.foldRune = (runes t).map GoLibrary.foldRune

end Library

structure ParsedInt where
  value : ℤ
  ok : Bool
deriving DecidableEq

def digitsValue (ds : GoString) : ℕ := ds.foldl (fun n d => n * 10 + (d.toNat - 0x30)) 0

def isDigits (ds : GoString) : Bool := !ds.isEmpty && ds.all (fun d => 0x30 ≤ d && d ≤ 0x39)

def parseUnsigned (neg : Bool) (ds : GoString) : ParsedInt :=
  if !isDigits ds then ⟨0, false⟩
  else
    let n : ℤ := digitsValue ds
    if neg then (if n ≤ 2 ^ 63 then ⟨-n, true⟩ else ⟨-2 ^ 63, false⟩)
    else if n < 2 ^ 63 then ⟨n, true⟩ else ⟨2 ^ 63 - 1, false⟩

def parseInt : GoString → ParsedInt
  | [] => ⟨0, false⟩
  | b :: bs =>
    if b = 0x2D then parseUnsigned true bs
    else if b = 0x2B then parseUnsigned false bs
    else parseUnsigned false (b :: bs)

@[reducible] def asciiLibrary : GoLibrary where
  lowerRune r := if 0x41 ≤ r ∧ r ≤ 0x5A then r + 32 else r
  foldRune r := if 0x41 ≤ r ∧ r ≤ 0x5A then r + 32 else r
  parseAddress s :=
    if (s.filter (· = 0x40)).length = 1 ∧ s.head? ≠ some 0x40 ∧ s.getLast? ≠ some 0x40 then
      some ([], s) else none
  sha256Hex _ := []
  quote s := goString "\"" ++ s ++ goString "\""

end TangraTicket.GoText
