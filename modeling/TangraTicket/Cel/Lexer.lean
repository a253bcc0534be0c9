import Mathlib.Data.List.Basic
import Mathlib.Data.Nat.Notation

/-!
The lexical grammar of the Common Expression Language, on code points, for the tokens of comparisons
and method calls. At each point the longest token is taken. What starts any other token (raw and
byte strings, hexadecimal and unsigned numbers, comments, the remaining operators) is refused.
-/

namespace TangraTicket.Cel

abbrev Codes := List ℕ

inductive RelOp
  | eq | ne | lt | le | gt | ge
deriving DecidableEq

inductive Symbol
  | lparen | rparen | dot | bang | minus | and | or
  | rel (op : RelOp)
deriving DecidableEq

inductive Token
  | ident (name : Codes)
  | str (value : Codes)
  | float (text : Codes)
  | int (text : Codes)
  | sym (s : Symbol)
deriving DecidableEq

def isDigit (r : ℕ) : Bool := 0x30 ≤ r && r ≤ 0x39

def isIdentStart (r : ℕ) : Bool := (0x41 ≤ r && r ≤ 0x5A) || (0x61 ≤ r && r ≤ 0x7A) || r == 0x5F

def isIdentPart (r : ℕ) : Bool := isIdentStart r || isDigit r

def isWhitespace (r : ℕ) : Bool := r == 0x20 || r == 0x09 || r == 0x0A || r == 0x0C || r == 0x0D

def isQuote (r : ℕ) : Bool := r == 0x22 || r == 0x27

def digitValue (base r : ℕ) : Option ℕ :=
  let v :=
    if isDigit r then r - 0x30
    else if 0x61 ≤ r ∧ r ≤ 0x66 then r - 0x57
    else if 0x41 ≤ r ∧ r ≤ 0x46 then r - 0x37
    else base
  if v < base then some v else none

def numeral (base : ℕ) (ds : Codes) : Option ℕ :=
  ds.foldl (fun acc r => acc.bind fun n => (digitValue base r).map fun v => n * base + v) (some 0)

def codePoint (n : ℕ) : Option ℕ := if n < 0xD800 ∨ (0xDFFF < n ∧ n ≤ 0x10FFFF) then some n else none

def simpleEscape (r : ℕ) : Option ℕ :=
  [(0x61, 0x07), (0x62, 0x08), (0x66, 0x0C), (0x6E, 0x0A), (0x72, 0x0D), (0x74, 0x09),
    (0x76, 0x0B), (0x22, 0x22), (0x27, 0x27), (0x5C, 0x5C), (0x3F, 0x3F), (0x60, 0x60)].lookup r

def escapeDigits (r : ℕ) : Option ℕ :=
  if r = 0x75 then some 4 else if r = 0x55 then some 8 else if r = 0x78 ∨ r = 0x58 then some 2 else none

def escapeAt : Codes → Option (ℕ × Codes)
  | [] => none
  | r :: cs =>
    match escapeDigits r with
    | some n =>
      if cs.length < n then none
      else do
        let v ← numeral 16 (cs.take n)
        let v ← codePoint v
        pure (v, cs.drop n)
    | none =>
      match simpleEscape r with
      | some v => some (v, cs)
      | none =>
        -- three octal digits, the first at most `3`
        if 0x30 ≤ r ∧ r ≤ 0x33 ∧ 2 ≤ cs.length then do
          let v ← numeral 8 (r :: cs.take 2)
          pure (v, cs.drop 2)
        else none

def stringRest (close : Codes) (multiline : Bool) : ℕ → Codes → Option (Codes × Codes)
  | 0, _ => none
  | fuel + 1, cs =>
    if close.isPrefixOf cs then some ([], cs.drop close.length)
    else
      match cs with
      | [] => none
      | r :: cs =>
        if r = 0x5C then
          (escapeAt cs).bind fun e => (stringRest close multiline fuel e.2).map fun p => (e.1 :: p.1, p.2)
        else if multiline = false ∧ (r = 0x0A ∨ r = 0x0D) then none
        else if r = 0x0D then
          -- every line end is read as a newline
          (stringRest close multiline fuel (if cs.head? = some 0x0A then cs.tail else cs)).map
            fun p => (0x0A :: p.1, p.2)
        else (stringRest close multiline fuel cs).map fun p => (r :: p.1, p.2)

section StringRest

variable {close cs tail : Codes} {multiline : Bool} {r : ℕ}

theorem stringRest_escape (fuel : ℕ) (hclose : close.isPrefixOf (0x5C :: cs) = false)
    (hcs : escapeAt cs = some (r, tail)) :
    stringRest close multiline (fuel + 1) (0x5C :: cs) =
      (stringRest close multiline fuel tail).map fun p => (r :: p.1, p.2) := by
  rw [stringRest, hclose, if_neg Bool.false_ne_true]
  simp only [if_true, hcs, Option.bind_some]

theorem stringRest_plain (fuel : ℕ) (hclose : close.isPrefixOf (r :: cs) = false) (hescape : r ≠ 0x5C)
    (hnewline : r ≠ 0x0A) (hreturn : r ≠ 0x0D) :
    stringRest close multiline (fuel + 1) (r :: cs) =
      (stringRest close multiline fuel cs).map fun p => (r :: p.1, p.2) := by
  rw [stringRest, hclose, if_neg Bool.false_ne_true]
  simp only [hescape, hnewline, hreturn, or_self, and_false, if_false]

end StringRest

def stringAt (q : ℕ) (cs : Codes) : Option (Codes × Codes) :=
  let short := stringRest [q] false (cs.length + 1) cs
  if [q, q].isPrefixOf cs then (stringRest [q, q, q] true (cs.length + 1) (cs.drop 2)).or short else short

def fractionAt : Codes → Codes × Codes
  | 0x2E :: cs => if cs.head?.any isDigit then (0x2E :: cs.takeWhile isDigit, cs.dropWhile isDigit)
      else ([], 0x2E :: cs)
  | cs => ([], cs)

def exponentDigits (start cs : Codes) : Option (Codes × Codes) :=
  if cs.head?.any isDigit then some (start ++ cs.takeWhile isDigit, cs.dropWhile isDigit) else none

def exponentAt (cs : Codes) : Codes × Codes :=
  match cs with
  | e :: cs' =>
    if e = 0x65 ∨ e = 0x45 then
      match cs' with
      | sign :: cs'' =>
        if sign = 0x2B ∨ sign = 0x2D then (exponentDigits [e, sign] cs'').getD ([], cs)
        else (exponentDigits [e] cs').getD ([], cs)
      | [] => ([], cs)
    else ([], cs)
  | [] => ([], cs)

def numberAt (cs : Codes) : Option (Token × Codes) :=
  let whole := cs.takeWhile isDigit
  let (fraction, rest) := fractionAt (cs.dropWhile isDigit)
  let (exponent, rest) := exponentAt rest
  if fraction = [] ∧ exponent = [] then
    if rest.head?.any (fun r => r == 0x78 || r == 0x58 || r == 0x75 || r == 0x55) then none
    else some (.int whole, rest)
  else some (.float (whole ++ fraction ++ exponent), rest)

def symbolAt : Codes → Option (Symbol × Codes)
  | 0x28 :: cs => some (.lparen, cs)
  | 0x29 :: cs => some (.rparen, cs)
  | 0x2E :: cs => if cs.head?.any isDigit then none else some (.dot, cs)
  | 0x2D :: cs => some (.minus, cs)
  | 0x3D :: 0x3D :: cs => some (.rel .eq, cs)
  | 0x21 :: 0x3D :: cs => some (.rel .ne, cs)
  | 0x21 :: cs => some (.bang, cs)
  | 0x3C :: 0x3D :: cs => some (.rel .le, cs)
  | 0x3C :: cs => some (.rel .lt, cs)
  | 0x3E :: 0x3D :: cs => some (.rel .ge, cs)
  | 0x3E :: cs => some (.rel .gt, cs)
  | 0x26 :: 0x26 :: cs => some (.and, cs)
  | 0x7C :: 0x7C :: cs => some (.or, cs)
  | _ => none

/-- The first token of a text, or the white space it starts with, and what follows. -/
def next : Codes → Option (Option Token × Codes)
  | [] => none
  | r :: cs =>
    if isWhitespace r then some (none, cs)
    else if isQuote r then (stringAt r cs).map fun s => (some (.str s.1), s.2)
    else if isDigit r then (numberAt (r :: cs)).map fun n => (some n.1, n.2)
    else if isIdentStart r then
      let rest := cs.dropWhile isIdentPart
      if rest.head?.any isQuote then none else some (some (.ident (r :: cs.takeWhile isIdentPart)), rest)
    else (symbolAt (r :: cs)).map fun s => (some (.sym s.1), s.2)

def lexFrom : ℕ → Codes → Option (List Token)
  | 0, cs => if cs = [] then some [] else none
  | fuel + 1, cs =>
    if cs = [] then some []
    else do
      let (t, rest) ← next cs
      let ts ← lexFrom fuel rest
      pure (t.toList ++ ts)

def lex (cs : Codes) : Option (List Token) := lexFrom cs.length cs

def Reads (cs : Codes) (ts : List Token) (tail : Codes) : Prop :=
  ∀ rest, lex tail = some rest → lex cs = some (ts ++ rest)

section Reads

variable {cs cs' tail : Codes} {ts ts' : List Token}

theorem lexFrom_of_le {m n : ℕ} (h : lexFrom m cs = some ts) (hmn : m ≤ n) : lexFrom n cs = some ts := by
  induction m generalizing n cs ts with
  | zero =>
    have hcs : cs = [] := by
      by_contra hne
      rw [lexFrom, if_neg hne] at h
      cases h
    rw [hcs] at h ⊢
    cases n <;> exact h
  | succ m ih =>
    obtain ⟨n, rfl⟩ := Nat.exists_eq_add_of_lt hmn
    rw [lexFrom] at h
    rw [lexFrom]
    split_ifs at h ⊢ with hcs
    · exact h
    · obtain ⟨p, hp, h⟩ := Option.bind_eq_some_iff.mp h
      obtain ⟨us, hus, h⟩ := Option.bind_eq_some_iff.mp h
      refine Option.bind_eq_some_iff.mpr ⟨p, hp, Option.bind_eq_some_iff.mpr ⟨us, ih hus ?_, h⟩⟩
      omega

theorem Reads.trans (h : Reads cs ts cs') (h' : Reads cs' ts' tail) : Reads cs (ts ++ ts') tail := by
  intro rest hrest
  rw [List.append_assoc]
  exact h _ (h' rest hrest)

theorem Reads.of_next {t : Option Token} (h : next cs = some (t, tail)) (hlen : tail.length < cs.length) :
    Reads cs t.toList tail := by
  intro rest hrest
  have hne : cs ≠ [] := List.ne_nil_of_length_pos (Nat.zero_lt_of_lt hlen)
  obtain ⟨n, hn⟩ := Nat.exists_eq_add_of_lt hlen
  rw [lex, hn, lexFrom, if_neg hne, h]
  have hfrom : lexFrom (tail.length + n) tail = some rest := lexFrom_of_le hrest (Nat.le_add_right _ _)
  simp [hfrom]

theorem Reads.lex (h : Reads cs ts []) : lex cs = some ts := by
  have hnil := h [] rfl
  rwa [List.append_nil] at hnil

theorem reads_space (tail : Codes) : Reads (0x20 :: tail) [] tail :=
  Reads.of_next (t := none) rfl (Nat.lt_succ_self _)

def isName : Codes → Bool
  | [] => false
  | r :: cs => isIdentStart r && cs.all isIdentPart

theorem reads_ident {name : Codes} (hname : isName name = true) {c : ℕ} (hpart : isIdentPart c = false)
    (hquote : isQuote c = false) (tail : Codes) : Reads (name ++ c :: tail) [.ident name] (c :: tail) := by
  cases name with
  | nil => cases hname
  | cons r name =>
    rw [isName, Bool.and_eq_true, List.all_eq_true] at hname
    obtain ⟨hr, hname⟩ := hname
    have hspace : isWhitespace r = false ∧ isQuote r = false ∧ isDigit r = false := by
      simp only [isIdentStart, isWhitespace, isQuote, isDigit, Bool.or_eq_true,
        Bool.and_eq_true, beq_iff_eq, decide_eq_true_eq, Bool.or_eq_false_iff,
        Bool.and_eq_false_iff, beq_eq_false_iff_ne, decide_eq_false_iff_not] at hr ⊢
      omega
    have hdrop : (name ++ c :: tail).dropWhile isIdentPart = c :: tail := by
      rw [List.dropWhile_append_of_pos hname, List.dropWhile_cons_of_neg (by simp [hpart])]
    have htake : (name ++ c :: tail).takeWhile isIdentPart = name := by
      rw [List.takeWhile_append_of_pos hname, List.takeWhile_cons_of_neg (by simp [hpart]), List.append_nil]
    have hnext : next (r :: name ++ c :: tail) = some (some (.ident (r :: name)), c :: tail) := by
      simp only [List.cons_append, next, hspace.1, hspace.2.1, hspace.2.2, hr, hdrop, htake,
        List.head?_cons, Option.any_some, hquote, Bool.false_eq_true, if_true, if_false]
    exact Reads.of_next hnext (by simp only [List.length_append, List.length_cons]; omega)

theorem isDigit_head_of_isName {name : Codes} (hname : isName name = true) (tail : Codes) :
    (name ++ tail).head?.any isDigit = false := by
  cases name with
  | nil => cases hname
  | cons r name =>
    rw [isName, Bool.and_eq_true] at hname
    have hr := hname.1
    simp only [isIdentStart, Bool.or_eq_true, Bool.and_eq_true, beq_iff_eq, decide_eq_true_eq] at hr
    simp only [List.cons_append, List.head?_cons, Option.any_some, isDigit, Bool.and_eq_false_iff,
      decide_eq_false_iff_not]
    omega

def symbolStarts : Codes := [0x28, 0x29, 0x2E, 0x2D, 0x3D, 0x21, 0x3C, 0x3E, 0x26, 0x7C]

theorem reads_sym {s : Symbol} {r : ℕ} (hr : r ∈ symbolStarts)
    (h : symbolAt (r :: cs) = some (s, tail)) (hlen : tail.length ≤ cs.length) :
    Reads (r :: cs) [.sym s] tail := by
  have hstart : isWhitespace r = false ∧ isQuote r = false ∧ isDigit r = false ∧
      isIdentStart r = false := by
    exact (by decide : ∀ r ∈ symbolStarts,
      isWhitespace r = false ∧ isQuote r = false ∧ isDigit r = false ∧ isIdentStart r = false) r hr
  have hnext : next (r :: cs) = some (some (.sym s), tail) := by
    simp only [next, hstart, Bool.false_eq_true, if_false, h, Option.map_some]
  exact Reads.of_next hnext (by rw [List.length_cons]; omega)

theorem reads_rparen (tail : Codes) : Reads (0x29 :: tail) [.sym .rparen] tail :=
  reads_sym (by decide) rfl (Nat.le_refl _)

def methodCodes (name : Codes) : Codes := 0x2E :: (name ++ [0x28])

theorem reads_method {name : Codes} (hname : isName name = true) (tail : Codes) :
    Reads (methodCodes name ++ tail) [.sym .dot, .ident name, .sym .lparen] tail := by
  have hsplit : methodCodes name ++ tail = 0x2E :: (name ++ 0x28 :: tail) := by simp [methodCodes]
  rw [hsplit]
  have hdot : symbolAt (0x2E :: (name ++ 0x28 :: tail)) = some (.dot, name ++ 0x28 :: tail) := by
    rw [symbolAt, isDigit_head_of_isName hname, if_neg Bool.false_ne_true]
  have hopen : Reads (0x28 :: tail) [.sym .lparen] tail := reads_sym (by decide) rfl (Nat.le_refl _)
  exact (reads_sym (by decide) hdot (Nat.le_refl _)).trans ((reads_ident hname rfl rfl tail).trans hopen)

def relCodes : RelOp → Codes
  | .eq => [0x3D, 0x3D]
  | .ne => [0x21, 0x3D]
  | .lt => [0x3C]
  | .le => [0x3C, 0x3D]
  | .gt => [0x3E]
  | .ge => [0x3E, 0x3D]

def spaced (op : RelOp) : Codes := 0x20 :: (relCodes op ++ [0x20])

theorem reads_spaced (op : RelOp) (tail : Codes) : Reads (spaced op ++ tail) [.sym (.rel op)] tail := by
  have hsplit : spaced op ++ tail = 0x20 :: (relCodes op ++ 0x20 :: tail) := by simp [spaced]
  rw [hsplit]
  have hop : Reads (relCodes op ++ 0x20 :: tail) [.sym (.rel op)] (0x20 :: tail) := by
    cases op <;> exact reads_sym (by decide) rfl (by simp)
  exact (reads_space _).trans (hop.trans (reads_space tail))

end Reads

def Digits (ds : Codes) : Prop := ds ≠ [] ∧ ∀ r ∈ ds, isDigit r = true

def FractionText (fraction : Codes) : Prop := fraction = [] ∨ ∃ ds, Digits ds ∧ fraction = 0x2E :: ds

def ExponentText (exponent : Codes) : Prop :=
  exponent = [] ∨ ∃ e sign ds, (e = 0x65 ∨ e = 0x45) ∧ (sign = 0x2B ∨ sign = 0x2D) ∧ Digits ds ∧
    exponent = e :: sign :: ds

section Float

variable {ds whole fraction exponent : Codes}

theorem Digits.takeWhile (h : Digits ds) {c : ℕ} (hc : isDigit c = false) (tail : Codes) :
    (ds ++ c :: tail).takeWhile isDigit = ds := by
  rw [List.takeWhile_append_of_pos h.2, List.takeWhile_cons_of_neg (by simp [hc]), List.append_nil]

theorem Digits.dropWhile (h : Digits ds) {c : ℕ} (hc : isDigit c = false) (tail : Codes) :
    (ds ++ c :: tail).dropWhile isDigit = c :: tail := by
  rw [List.dropWhile_append_of_pos h.2, List.dropWhile_cons_of_neg (by simp [hc])]

theorem Digits.head (h : Digits ds) (tail : Codes) : (ds ++ tail).head?.any isDigit = true := by
  obtain ⟨hne, hds⟩ := h
  cases ds with
  | nil => exact absurd rfl hne
  | cons d ds => exact hds d List.mem_cons_self

def endsFloat (c : ℕ) : Bool := !isDigit c && c != 0x2E && c != 0x65 && c != 0x45

theorem isDigit_of_endsFloat {c : ℕ} (hc : endsFloat c = true) : isDigit c = false := by
  simp only [endsFloat, Bool.and_eq_true, Bool.not_eq_true'] at hc
  exact hc.1.1.1

theorem exponentAt_append (h : ExponentText exponent) {c : ℕ} (hc : endsFloat c = true) (tail : Codes) :
    exponentAt (exponent ++ c :: tail) = (exponent, c :: tail) := by
  have hdigit := isDigit_of_endsFloat hc
  rcases h with rfl | ⟨e, sign, ds, he, hsign, hds, rfl⟩
  · have hcase : ¬ (c = 0x65 ∨ c = 0x45) := by
      simp only [endsFloat, Bool.and_eq_true, bne_iff_ne] at hc
      exact not_or.mpr ⟨hc.1.2, hc.2⟩
    simp only [List.nil_append, exponentAt, if_neg hcase]
  · simp only [List.cons_append, exponentAt, if_pos he, if_pos hsign, exponentDigits, hds.head,
      hds.takeWhile hdigit, hds.dropWhile hdigit, if_true, Option.getD_some, List.nil_append]

theorem exists_cons_of_float (hf : FractionText fraction) (hx : ExponentText exponent) {c : ℕ}
    (hc : endsFloat c = true) (tail : Codes) :
    ∃ r rest, fraction ++ (exponent ++ c :: tail) = r :: rest ∧ isDigit r = false := by
  rcases hf with rfl | ⟨ds, -, rfl⟩
  · rcases hx with rfl | ⟨e, sign, ds, he, -, -, rfl⟩
    · exact ⟨c, tail, rfl, isDigit_of_endsFloat hc⟩
    · refine ⟨e, _, rfl, ?_⟩
      rcases he with rfl | rfl <;> rfl
  · exact ⟨0x2E, _, rfl, rfl⟩

theorem fractionAt_append (hf : FractionText fraction) (hx : ExponentText exponent) {c : ℕ}
    (hc : endsFloat c = true) (tail : Codes) :
    fractionAt (fraction ++ (exponent ++ c :: tail)) = (fraction, exponent ++ c :: tail) := by
  rcases hf with rfl | ⟨ds, hds, rfl⟩
  · rw [List.nil_append]
    rcases hx with rfl | ⟨e, sign, ds, he, -, -, rfl⟩
    · have hdot : c ≠ 0x2E := by
        simp only [endsFloat, Bool.and_eq_true, bne_iff_ne] at hc
        exact hc.1.1.2
      rw [List.nil_append, fractionAt]
      intro cs h
      exact hdot (List.cons.inj h).1
    · rcases he with rfl | rfl <;> rfl
  · obtain ⟨r, rest, hrest, hr⟩ := exists_cons_of_float (.inl rfl) hx hc tail
    rw [List.nil_append] at hrest
    rw [hrest, List.cons_append, fractionAt, hds.head, if_pos rfl, hds.takeWhile hr, hds.dropWhile hr]

theorem reads_float (hw : Digits whole) (hf : FractionText fraction) (hx : ExponentText exponent)
    (hfloat : ¬ (fraction = [] ∧ exponent = [])) {c : ℕ} (hc : endsFloat c = true) (tail : Codes) :
    Reads (whole ++ (fraction ++ (exponent ++ c :: tail))) [.float (whole ++ fraction ++ exponent)]
      (c :: tail) := by
  obtain ⟨r, rest, hrest, hr⟩ := exists_cons_of_float hf hx hc tail
  have hnumber : numberAt (whole ++ (fraction ++ (exponent ++ c :: tail))) =
      some (.float (whole ++ fraction ++ exponent), c :: tail) := by
    have htake := hw.takeWhile hr rest
    have hdrop := hw.dropWhile hr rest
    rw [← hrest] at htake hdrop
    simp only [numberAt, htake, hdrop, fractionAt_append hf hx hc, exponentAt_append hx hc, if_neg hfloat]
  obtain ⟨d, ds, rfl⟩ := List.exists_cons_of_ne_nil hw.1
  have hd := hw.2 d List.mem_cons_self
  have hstart : isWhitespace d = false ∧ isQuote d = false := by
    simp only [isDigit, isWhitespace, isQuote, Bool.and_eq_true, decide_eq_true_eq, Bool.or_eq_false_iff,
      beq_eq_false_iff_ne] at hd ⊢
    omega
  have hnext : next (d :: (ds ++ (fraction ++ (exponent ++ c :: tail)))) =
      some (some (.float (d :: ds ++ fraction ++ exponent)), c :: tail) := by
    rw [List.cons_append] at hnumber
    simp only [next, hstart, hd, hnumber, Bool.false_eq_true, if_true, if_false, Option.map_some]
  exact Reads.of_next hnext (by simp only [List.length_append, List.length_cons]; omega)

end Float

end TangraTicket.Cel
