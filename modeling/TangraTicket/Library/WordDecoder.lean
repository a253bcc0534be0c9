import TangraTicket.Library.EncodedWord

/-!
Reading encoded words: `WordDecoder.DecodeHeader` of Go's `mime` package, over any conversion of
character sets.
-/

namespace TangraTicket.EncodedWord

open GoText

def cut (sep : GoString) : GoString → Option (GoString × GoString)
  | [] => if sep = [] then some ([], []) else none
  | b :: s => if sep <+: b :: s then some ([], (b :: s).drop sep.length) else (cut sep s).map
      fun c => (b :: c.1, c.2)

def hexValue (c : UInt8) : Option ℕ :=
  if 0x30 ≤ c ∧ c ≤ 0x39 then some (c.toNat - 0x30)
  else if 0x41 ≤ c ∧ c ≤ 0x46 then some (c.toNat - 0x41 + 10)
  else if 0x61 ≤ c ∧ c ≤ 0x66 then some (c.toNat - 0x61 + 10)
  else none

def qDecode : GoString → Option GoString
  | [] => some []
  | c :: s =>
    if c = 0x5F then (qDecode s).map (0x20 :: ·)
    else if c = 0x3D then
      match s with
      | a :: b :: s => do
        let x ← hexValue a
        let y ← hexValue b
        let rest ← qDecode s
        some ((x * 16 + y).toUInt8 :: rest)
      | _ => none
    else if (0x20 ≤ c ∧ c ≤ 0x7E) ∨ c = 0x0A ∨ c = 0x0D ∨ c = 0x09 then (qDecode s).map (c :: ·)
    else none

structure Word where
  charset : GoString
  encoding : UInt8
  text : GoString

def Word.content (w : Word) : Option GoString :=
  if w.encoding = 0x42 ∨ w.encoding = 0x62 then Base64.decode (w.text.filter fun b => b ≠ 0x0D ∧ b ≠ 0x0A)
  else if w.encoding = 0x51 ∨ w.encoding = 0x71 then qDecode w.text
  else none

def scanWord (s : GoString) : Option (Word × GoString) := do
  let (charset, s) ← cut "?" s
  if s.length < 4 then none
  else
    match s with
    | encoding :: 0x3F :: s => do
      let (text, rest) ← cut "?=" s
      some (⟨charset, encoding, text⟩, rest)
    | _ => none

def isLinearSpace (b : UInt8) : Bool := b = 0x20 || b = 0x09 || b = 0x0A || b = 0x0D

section Decoding

variable (convert : GoString → GoString → Option GoString)

def decodeFrom : (rounds : ℕ) → (between : Bool) → GoString → Option GoString
  | 0, _, header => some header
  | rounds + 1, between, header =>
    match cut "=?" header with
    | none => some header
    | some (before, s) =>
      match scanWord s with
      | none => some header
      | some (w, rest) =>
        match w.content with
        | none => (decodeFrom rounds false s).map fun t => before ++ goString "=?" ++ t
        | some content => do
          let text ← convert w.charset content
          let t ← decodeFrom rounds true rest
          some ((if between && before.all isLinearSpace then [] else before) ++ text ++ t)

def decodeHeader (header : GoString) : Option GoString := decodeFrom convert header.length false header

def holdsWord : (rounds : ℕ) → GoString → Bool
  | 0, _ => false
  | rounds + 1, header =>
    match cut "=?" header with
    | none => false
    | some (_, s) =>
      match scanWord s with
      | none => false
      | some (w, _) => w.content.isSome || holdsWord rounds s

end Decoding

section Cut

variable {sep s a b : GoString}

theorem eq_of_cut (h : cut sep s = some (a, b)) : s = a ++ sep ++ b := by
  induction s generalizing a with
  | nil =>
    rw [cut] at h
    split_ifs at h with hsep
    obtain ⟨rfl, rfl⟩ := Prod.mk.inj (Option.some.inj h)
    simp [hsep]
  | cons c s ih =>
    rw [cut] at h
    split_ifs at h with hpre
    · obtain ⟨rfl, rfl⟩ := Prod.mk.inj (Option.some.inj h)
      rw [List.nil_append]
      exact (List.prefix_iff_eq_append.mp hpre).symm
    · obtain ⟨⟨a', b'⟩, hcut, heq⟩ := Option.map_eq_some_iff.mp h
      obtain ⟨rfl, rfl⟩ := Prod.mk.inj heq
      rw [List.cons_append, List.cons_append, ← ih hcut]

theorem cut_append {c : UInt8} {cs : GoString} (ha : c ∉ a) (b : GoString) :
    cut (c :: cs) (a ++ (c :: cs) ++ b) = some (a, b) := by
  induction a with
  | nil =>
    have hpre : c :: cs <+: c :: (cs ++ b) := List.prefix_append (c :: cs) b
    rw [List.nil_append, List.cons_append, cut, if_pos hpre]
    simp
  | cons d a ih =>
    obtain ⟨hd, ha⟩ := List.ne_and_not_mem_of_not_mem_cons ha
    rw [List.cons_append, List.cons_append, cut,
      if_neg (fun hpre => hd (List.cons_prefix_cons.mp hpre).1), ih ha]
    rfl

theorem eq_of_scanWord {w : Word} {rest : GoString} (h : scanWord s = some (w, rest)) :
    s = w.charset ++ goString "?" ++ w.encoding :: 0x3F :: (w.text ++ goString "?=" ++ rest) := by
  rw [scanWord] at h
  obtain ⟨⟨charset, s₁⟩, hcharset, h⟩ := Option.bind_eq_some_iff.mp h
  dsimp only at h
  split_ifs at h
  split at h
  · rename_i encoding s₂
    obtain ⟨⟨text, rest'⟩, htext, h⟩ := Option.bind_eq_some_iff.mp h
    obtain ⟨rfl, rfl⟩ := Prod.mk.inj (Option.some.inj h)
    rw [eq_of_cut hcharset, eq_of_cut htext]
  · cases h

end Cut

section Decoding

variable {convert : GoString → GoString → Option GoString}

theorem decodeFrom_of_not_holdsWord {rounds : ℕ} {header : GoString}
    (h : holdsWord rounds header = false) (between : Bool) :
    decodeFrom convert rounds between header = some header := by
  induction rounds generalizing header between with
  | zero => rfl
  | succ rounds ih =>
    rw [decodeFrom]
    rw [holdsWord] at h
    split
    · rfl
    · rename_i before s hcut
      simp only [hcut] at h
      split
      · rfl
      · rename_i w rest hscan
        simp only [hscan, Bool.or_eq_false_iff, Option.isSome_eq_false_iff, Option.isNone_iff_eq_none] at h
        simp only [h.1, ih h.2, Option.map_some]
        rw [eq_of_cut hcut]

end Decoding

def weight (s : GoString) : ℕ := s.countP fun b => !isCont b

theorem weight_append (s t : GoString) : weight (s ++ t) = weight s + weight t := List.countP_append

theorem weight_le_length (s : GoString) : weight s ≤ s.length := List.countP_le_length

theorem weight_of_encodes {bs : GoString} {r : ℕ} (h : Encodes bs r) : weight bs = 1 := by
  obtain ⟨b, tail, rfl⟩ := List.exists_cons_of_ne_nil h.ne_nil
  have htail : tail.countP (fun b => !isCont b) = 0 := by
    rw [List.countP_eq_zero]
    intro x hx
    simp [h.tail_cont x hx]
  have hhead : isCont b = false := by
    rw [Bool.eq_false_iff, ne_eq, isCont_iff]
    intro hb
    cases h with
    | one hlow =>
      exact absurd (UInt8.lt_iff_toNat_lt.mp hlow)
        (by have : (0x80 : UInt8).toNat = 0x80 := rfl; omega)
    | two hlow | three hlow | four hlow =>
      have hle := UInt8.le_iff_toNat_le.mp hlow
      simp at hle
      omega
  rw [weight, List.countP_cons, htail]
  simp [hhead]

theorem weight_encode {rs : List ℕ} (h : Scalars rs) : weight (encode rs) = rs.length := by
  induction rs with
  | nil => rfl
  | cons r rs ih =>
    obtain ⟨hr, hrs⟩ := Scalars.cons_iff.mp h
    rw [encode_cons, weight_append, weight_of_encodes (encodes_encodeRune hr), ih hrs, List.length_cons]
    omega

theorem weight_le_runeCount (s : GoString) : weight s ≤ runeCount s := by
  induction s using decode_induction with
  | nil => exact le_refl _
  | formed bs r t hbs ih =>
    rw [weight_append, weight_of_encodes hbs, runeCount, hbs.pieces_append, List.length_cons, ← runeCount]
    omega
  | bad b t hb ih =>
    have hhead := weight_le_length [b]
    rw [← List.singleton_append, weight_append, List.singleton_append, runeCount, hb.pieces_cons,
      List.length_cons, ← runeCount]
    simp only [List.length_singleton] at hhead
    omega

theorem length_qDecode_le {s t : GoString} (h : qDecode s = some t) : t.length ≤ s.length := by
  fun_induction qDecode s generalizing t with
  | case1 =>
    obtain rfl := Option.some.inj h
    exact le_refl _
  | case2 s ih | case5 c s hc heq hplain ih =>
    obtain ⟨t', ht', rfl⟩ := Option.map_eq_some_iff.mp h
    have hle := ih ht'
    simp only [List.length_cons]
    omega
  | case3 hne a b s ih =>
    obtain ⟨x, -, h⟩ := Option.bind_eq_some_iff.mp h
    obtain ⟨y, -, h⟩ := Option.bind_eq_some_iff.mp h
    obtain ⟨t', ht', h⟩ := Option.bind_eq_some_iff.mp h
    obtain rfl := Option.some.inj h
    have hle := ih ht'
    simp only [List.length_cons]
    omega
  | case4 => cases h
  | case6 => cases h

theorem length_content_le {w : Word} {content : GoString} (h : w.content = some content) :
    content.length ≤ w.text.length := by
  rw [Word.content] at h
  split_ifs at h
  · exact (Base64.length_decode_le h).trans (List.length_filter_le _ _)
  · exact length_qDecode_le h

section Decoding

variable {convert : GoString → GoString → Option GoString}

theorem weight_decodeFrom (hconvert : ∀ charset content text, convert charset content = some text →
      weight text ≤ content.length)
    {rounds : ℕ} {between : Bool} {header t : GoString}
    (h : decodeFrom convert rounds between header = some t) :
    weight t ≤ header.length ∧ (holdsWord rounds header = true → weight t < header.length) := by
  induction rounds generalizing between header t with
  | zero =>
    obtain rfl := Option.some.inj h
    exact ⟨weight_le_length header, nofun⟩
  | succ rounds ih =>
    rw [decodeFrom] at h
    rw [holdsWord]
    cases hcut : cut "=?" header with
    | none =>
      simp only [hcut] at h ⊢
      obtain rfl := Option.some.inj h
      exact ⟨weight_le_length header, nofun⟩
    | some halves =>
      obtain ⟨before, s⟩ := halves
      have hheader := congrArg List.length (eq_of_cut hcut)
      have hmark : (goString "=?").length = 2 := by decide
      simp only [List.length_append, hmark] at hheader
      cases hscan : scanWord s with
      | none =>
        simp only [hcut, hscan] at h ⊢
        obtain rfl := Option.some.inj h
        exact ⟨weight_le_length header, nofun⟩
      | some found =>
        obtain ⟨w, rest⟩ := found
        have hword := congrArg List.length (eq_of_scanWord hscan)
        simp only [List.length_append, List.length_cons] at hword
        cases hcontent : w.content with
        | none =>
          simp only [hcut, hscan, hcontent, Option.isSome_none, Bool.false_or] at h ⊢
          obtain ⟨u, hu, rfl⟩ := Option.map_eq_some_iff.mp h
          have hrest := ih hu
          have hbefore := weight_le_length (before ++ goString "=?")
          simp only [List.length_append, hmark] at hbefore
          rw [weight_append]
          refine ⟨by omega, fun hholds => ?_⟩
          have hlt := hrest.2 hholds
          omega
        | some content =>
          simp only [hcut, hscan, hcontent] at h ⊢
          obtain ⟨text, htext, h⟩ := Option.bind_eq_some_iff.mp h
          obtain ⟨u, hu, h⟩ := Option.bind_eq_some_iff.mp h
          obtain rfl := Option.some.inj h
          have hrest := (ih hu).1
          have htext := hconvert _ _ _ htext
          have hle := length_content_le hcontent
          have hbefore : weight (if between && before.all isLinearSpace then [] else before) ≤
              before.length := by
            split_ifs
            · exact Nat.zero_le _
            · exact weight_le_length before
          rw [weight_append, weight_append]
          constructor <;> intros <;> omega

end Decoding

theorem hexValue_hexDigit : ∀ n < 16, hexValue (hexDigit n) = some n := by decide

theorem qDecode_escape {x y : ℕ} (hx : x < 16) (hy : y < 16) (s : GoString) :
    qDecode (0x3D :: hexDigit x :: hexDigit y :: s) = (qDecode s).map ((x * 16 + y).toUInt8 :: ·) := by
  rw [qDecode.eq_def]
  simp only [hexValue_hexDigit x hx, hexValue_hexDigit y hy, Option.bind_eq_bind, Option.bind_some,
    show ¬ (0x3D : UInt8) = 0x5F by decide, if_false, if_true]
  cases qDecode s <;> rfl

theorem qDecode_qByte (b : UInt8) (s : GoString) : qDecode (qByte b ++ s) = (qDecode s).map (b :: ·) := by
  rw [qByte]
  split_ifs with hblank hplain
  · rw [hblank, List.singleton_append, qDecode.eq_def]
    exact if_pos rfl
  · obtain ⟨hlow, hhigh, heq, -, hline⟩ := hplain
    have hrange : 0x20 ≤ b := UInt8.le_trans (by decide) hlow
    rw [List.singleton_append, qDecode.eq_def]
    simp only [hline, heq, if_false, hrange, hhigh, and_self, true_or, if_true]
  · have hb := b.toNat_lt
    have hbyte : (b.toNat / 16 * 16 + b.toNat % 16).toUInt8 = b := Base64.toUInt8_of_toNat (by omega)
    rw [List.cons_append, List.cons_append, List.cons_append, List.nil_append,
      qDecode_escape (by omega) (by omega), hbyte]

theorem qDecode_qText (bs : GoString) : qDecode (qText bs) = some bs := by
  induction bs with
  | nil => rfl
  | cons b bs ih =>
    rw [qText, List.flatMap_cons, qDecode_qByte, ← qText, ih]
    rfl

theorem not_mem_qText (bs : GoString) : 0x3F ∉ qText bs := by
  have hall : ∀ n < 256, 0x3F ∉ qByte n.toUInt8 := by decide +kernel
  intro h
  obtain ⟨b, -, hb⟩ := List.mem_flatMap.mp h
  refine hall b.toNat b.toNat_lt ?_
  rwa [Nat.toUInt8_eq, UInt8.ofNat_toNat]

theorem content_q (bs : GoString) : (Word.mk "utf-8" 0x71 (qText bs)).content = some bs := by
  rw [Word.content, if_neg (show ¬ ((0x71 : UInt8) = 0x42 ∨ (0x71 : UInt8) = 0x62) by decide),
    if_pos (.inr rfl), qDecode_qText]

theorem content_b (bs : GoString) : (Word.mk "utf-8" 0x62 (Base64.encode bs)).content = some bs := by
  have hkeep : ((Base64.encode bs).filter fun b => b ≠ 0x0D ∧ b ≠ 0x0A) = Base64.encode bs := by
    rw [List.filter_eq_self]
    intro b hb
    have hvisible := (Base64.of_mem_encode hb).1
    have hreturn : b ≠ 0x0D := fun h => absurd (h ▸ hvisible) (by decide)
    have hline : b ≠ 0x0A := fun h => absurd (h ▸ hvisible) (by decide)
    simp [hreturn, hline]
  rw [Word.content, if_pos (.inr rfl), hkeep, Base64.decode_encode]

theorem scanWord_word {encoding : UInt8} {text : GoString} (htext : 0x3F ∉ text) (rest : GoString) :
    scanWord (goString "utf-8?" ++ encoding :: 0x3F :: (text ++ closing ++ rest)) =
      some (⟨"utf-8", encoding, text⟩, rest) := by
  have hname : goString "utf-8?" = goString "utf-8" ++ goString "?" := by decide
  have hmark : goString "?" = [0x3F] := by decide
  have hclose : closing = [0x3F, 0x3D] := by decide
  have hfirst : cut [0x3F] (goString "utf-8" ++ [0x3F] ++ encoding :: 0x3F ::
      (text ++ closing ++ rest)) = _ :=
    cut_append (by decide) _
  have hsecond : cut [0x3F, 0x3D] (text ++ [0x3F, 0x3D] ++ rest) = _ := cut_append htext rest
  rw [← hmark, ← hname] at hfirst
  rw [← hclose] at hsecond
  have hlong : ¬ (encoding :: 0x3F :: (text ++ closing ++ rest)).length < 4 := by
    simp [hclose]
    omega
  rw [scanWord, hfirst, Option.bind_eq_bind, Option.bind_some]
  dsimp only
  rw [if_neg hlong]
  change (cut closing (text ++ closing ++ rest)).bind _ = _
  rw [hsecond]
  rfl

section Decoding

variable {convert : GoString → GoString → Option GoString}

theorem decodeFrom_word (rounds : ℕ) (between : Bool) {front text content : GoString}
    {encoding : UInt8} (hfront : 0x3D ∉ front) (htext : 0x3F ∉ text)
    (hcontent : (Word.mk "utf-8" encoding text).content = some content)
    (hconvert : convert "utf-8" content = some content) (rest : GoString) :
    decodeFrom convert (rounds + 1) between (front ++ (opening encoding ++ text ++ closing ++ rest)) =
      (decodeFrom convert rounds true rest).map fun t =>
        (if between && front.all isLinearSpace then [] else front) ++ content ++ t := by
  have hmark : goString "=?" = [0x3D, 0x3F] := by decide
  have hopen : opening encoding = goString "=?" ++ (goString "utf-8?" ++ [encoding, 0x3F]) := by
    rw [opening, ← List.append_assoc]
    congr 1
  have hcut : cut [0x3D, 0x3F] (front ++ [0x3D, 0x3F] ++
      (goString "utf-8?" ++ encoding :: 0x3F :: (text ++ closing ++ rest))) = _ := cut_append hfront _
  rw [← hmark] at hcut
  have hheader : front ++ (opening encoding ++ text ++ closing ++ rest) =
      front ++ goString "=?" ++ (goString "utf-8?" ++ encoding :: 0x3F :: (text ++ closing ++ rest)) := by
    rw [hopen]
    simp
  rw [hheader, decodeFrom, hcut]
  simp only [scanWord_word htext, hcontent, hconvert, Option.bind_eq_bind, Option.bind_some]
  cases decodeFrom convert rounds true rest <;> rfl

variable (hconvert : ∀ content, convert "utf-8" content = some content)

include hconvert

theorem decodeHeader_q {bs : GoString} :
    decodeHeader convert (opening 0x71 ++ qText bs ++ closing) = some bs := by
  have hword := decodeFrom_word ((opening 0x71 ++ qText bs ++ closing).length - 1) false
    (show 0x3D ∉ ([] : GoString) from List.not_mem_nil) (not_mem_qText bs) (content_q bs) (hconvert bs) []
  have hend : ∀ n, decodeFrom convert n true [] = some [] := by
    intro n
    cases n with
    | zero => rfl
    | succ n => rfl
  have hrounds : (opening 0x71 ++ qText bs ++ closing).length - 1 +
      1 = (opening 0x71 ++ qText bs ++ closing).length := by
    have hpos : 0 < (opening 0x71).length := by decide
    simp only [List.length_append]
    omega
  rw [hrounds, hend, List.append_nil, List.nil_append] at hword
  rw [decodeHeader, hword]
  simp

theorem decodeFrom_words (contents : List GoString) {rounds : ℕ} (hrounds : contents.length ≤ rounds) :
    decodeFrom convert rounds true (contents.flatMap fun bs => 0x20 :: bWord bs) =
    some contents.flatten := by
  induction contents generalizing rounds with
  | nil =>
    cases rounds with
    | zero => rfl
    | succ rounds => rfl
  | cons bs contents ih =>
    obtain ⟨rounds, rfl⟩ : ∃ n, rounds = n + 1 :=
      ⟨rounds - 1, by simp only [List.length_cons] at hrounds; omega⟩
    have hword := decodeFrom_word rounds true (show 0x3D ∉ ([0x20] : GoString) by decide)
      (fun h => (Base64.of_mem_encode h).2.2 rfl) (content_b bs) (hconvert bs)
      (contents.flatMap fun bs => 0x20 :: bWord bs)
    rw [ih (by simp only [List.length_cons] at hrounds; omega)] at hword
    rw [List.flatMap_cons, List.cons_append]
    exact hword.trans (by simp [isLinearSpace])

end Decoding

end TangraTicket.EncodedWord
