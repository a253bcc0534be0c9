import TangraTicket.Library.WordDecoder

/-!
The tokens of HTML as Go's `html` package has them, and a reader of markup in which tags have plain
names and quoted attributes. The reader finds the tags that were written.
-/

namespace TangraTicket.Markup

open GoText EncodedWord

inductive TokenType
  | text | startTag | endTag | selfClosingTag | comment | doctype
deriving DecidableEq

structure Attr where
  key : GoString
  val : GoString
deriving DecidableEq

structure Token where
  type : TokenType
  data : GoString
  attr : List Attr := []
deriving DecidableEq

/-- An element begins here. -/
def Token.isTag (t : Token) : Bool := t.type = .startTag || t.type = .selfClosingTag

def escapeByte (b : UInt8) : GoString :=
  if b = 0x26 then "&amp;"
  else if b = 0x27 then "&#39;"
  else if b = 0x3C then "&lt;"
  else if b = 0x3E then "&gt;"
  else if b = 0x22 then "&#34;"
  else if b = 0x0D then "&#13;"
  else [b]

def escape (s : GoString) : GoString := s.flatMap escapeByte

def unescape : GoString → GoString
  | [] => []
  | b :: s =>
    if b = 0x26 then
      match s with
      | 0x61 :: 0x6D :: 0x70 :: 0x3B :: s => 0x26 :: unescape s
      | 0x23 :: 0x33 :: 0x39 :: 0x3B :: s => 0x27 :: unescape s
      | 0x6C :: 0x74 :: 0x3B :: s => 0x3C :: unescape s
      | 0x67 :: 0x74 :: 0x3B :: s => 0x3E :: unescape s
      | 0x23 :: 0x33 :: 0x34 :: 0x3B :: s => 0x22 :: unescape s
      | 0x23 :: 0x31 :: 0x33 :: 0x3B :: s => 0x0D :: unescape s
      | s => b :: unescape s
    else b :: unescape s

theorem unescape_escape (s : GoString) : unescape (escape s) = s := by
  induction s with
  | nil => rfl
  | cons b s ih =>
    have hstep : unescape (escapeByte b ++ escape s) = b :: unescape (escape s) := by
      unfold escapeByte
      split_ifs with h₁ h₂ h₃ h₄ h₅ h₆
      · rw [h₁]; rfl
      · rw [h₂]; rfl
      · rw [h₃]; rfl
      · rw [h₄]; rfl
      · rw [h₅]; rfl
      · rw [h₆]; rfl
      · rw [List.singleton_append, unescape.eq_def]
        exact if_neg h₁
    exact hstep.trans (by rw [ih])

theorem not_mem_escape {s : GoString} : 0x3C ∉ escape s ∧ 0x3E ∉ escape s ∧ 0x22 ∉ escape s := by
  have hbyte : ∀ b : UInt8, 0x3C ∉ escapeByte b ∧ 0x3E ∉ escapeByte b ∧ 0x22 ∉ escapeByte b := by
    intro b
    unfold escapeByte
    split_ifs with h₁ h₂ h₃ h₄ h₅ h₆ <;> first | decide | skip
    simp only [List.mem_singleton]
    exact ⟨Ne.symm h₃, Ne.symm h₄, Ne.symm h₅⟩
  simp only [escape, List.mem_flatMap, not_exists, not_and]
  exact ⟨fun b _ => (hbyte b).1, fun b _ => (hbyte b).2.1, fun b _ => (hbyte b).2.2⟩

def isNameByte (b : UInt8) : Bool := 0x61 ≤ b && b ≤ 0x7A

def PlainName (s : GoString) : Prop := ∀ b ∈ s, isNameByte b = true

instance (s : GoString) : Decidable (PlainName s) :=
  inferInstanceAs (Decidable (∀ b ∈ s, isNameByte b = true))

def Attr.write (a : Attr) : GoString := [0x20] ++ a.key ++ goString "=\"" ++ escape a.val ++ [0x22]

def Token.write (t : Token) : GoString :=
  match t.type with
  | .startTag => [0x3C] ++ (t.data ++ t.attr.flatMap Attr.write) ++ [0x3E]
  | .selfClosingTag => [0x3C] ++ (t.data ++ t.attr.flatMap Attr.write ++ [0x2F]) ++ [0x3E]
  | .endTag => [0x3C] ++ (0x2F :: t.data) ++ [0x3E]
  | _ => escape t.data

def readAttrs : (rounds : ℕ) → GoString → List Attr
  | 0, _ => []
  | rounds + 1, s =>
    match cut "=\"" (s.drop 1) with
    | none => []
    | some (key, rest) =>
      match cut [0x22] rest with
      | none => []
      | some (val, rest) => ⟨key, unescape val⟩ :: readAttrs rounds rest

def readTag (s : GoString) : Token :=
  if s.head? = some 0x2F then { type := .endTag, data := s.tail }
  else
    { type := if s.getLast? = some 0x2F then .selfClosingTag else .startTag
      data := s.takeWhile isNameByte
      attr := readAttrs s.length (s.dropWhile isNameByte) }

def readTokens : (rounds : ℕ) → GoString → List Token
  | 0, _ => []
  | rounds + 1, s =>
    match cut [0x3C] s with
    | none => [{ type := .text, data := unescape s }]
    | some (text, rest) =>
      match cut [0x3E] rest with
      | none => [{ type := .text, data := unescape s }]
      | some (tag, rest) => { type := .text, data := unescape text } :: readTag tag ::
          readTokens rounds rest

def read (s : GoString) : List Token := readTokens (s.length + 1) s

structure Token.Plain (t : Token) : Prop where
  kind : t.type ≠ .comment ∧ t.type ≠ .doctype
  name : t.type ≠ .text → t.data ≠ [] ∧ PlainName t.data
  keys : ∀ a ∈ t.attr, PlainName a.key

theorem cut_eq_none {c : UInt8} {cs s : GoString} (h : c ∉ s) : cut (c :: cs) s = none := by
  cases hcut : cut (c :: cs) s with
  | none => rfl
  | some r =>
    obtain ⟨a, b⟩ := r
    exact absurd (by rw [eq_of_cut hcut]; simp) h

theorem not_mem_of_plain {s : GoString} (h : PlainName s) {b : UInt8} (hb : isNameByte b = false) :
    b ∉ s := by
  intro hmem
  rw [h b hmem] at hb
  cases hb

section Reading

variable {attrs : List Attr}

theorem readAttrs_write (h : ∀ a ∈ attrs, PlainName a.key) {tail : GoString}
    (htail : tail.length ≤ 1) {rounds : ℕ} (hrounds : attrs.length ≤ rounds) :
    readAttrs rounds (attrs.flatMap Attr.write ++ tail) = attrs := by
  induction attrs generalizing rounds with
  | nil =>
    have hdrop : tail.drop 1 = [] := List.drop_eq_nil_of_le htail
    cases rounds with
    | zero => rfl
    | succ rounds =>
      rw [List.flatMap_nil, List.nil_append, readAttrs, hdrop]
      rfl
  | cons a attrs ih =>
    obtain ⟨ha, hattrs⟩ := List.forall_mem_cons.mp h
    obtain ⟨rounds, rfl⟩ := Nat.exists_eq_succ_of_ne_zero (Nat.ne_of_gt (Nat.zero_lt_of_lt hrounds))
    have heq : goString "=\"" = 0x3D :: [0x22] := by decide
    have hkey : cut "=\"" (((a :: attrs).flatMap Attr.write ++ tail).drop 1) =
        some (a.key, escape a.val ++ [0x22] ++ (attrs.flatMap Attr.write ++ tail)) := by
      have hwritten : ((a :: attrs).flatMap Attr.write ++ tail).drop 1 =
          a.key ++ goString "=\"" ++ (escape a.val ++ [0x22] ++ (attrs.flatMap Attr.write ++ tail)) := by
        simp [Attr.write]
      rw [hwritten, heq]
      exact cut_append (not_mem_of_plain ha (by decide)) _
    have hval : cut [0x22] (escape a.val ++ [0x22] ++ (attrs.flatMap Attr.write ++ tail)) =
        some (escape a.val, attrs.flatMap Attr.write ++ tail) := cut_append not_mem_escape.2.2 _
    rw [readAttrs, hkey]
    dsimp only
    rw [hval]
    dsimp only
    rw [unescape_escape, ih hattrs (Nat.le_of_succ_le_succ hrounds)]

theorem length_le_write : attrs.length ≤ (attrs.flatMap Attr.write).length := by
  induction attrs with
  | nil => exact Nat.zero_le _
  | cons a attrs ih =>
    simp only [List.flatMap_cons, List.length_append, List.length_cons, Attr.write]
    omega

theorem flatMap_write_ends (attrs : List Attr) : (∀ b ∈ (attrs.flatMap Attr.write).head?, b = 0x20) ∧
    ∀ b ∈ (attrs.flatMap Attr.write).getLast?, b = 0x22 := by
  constructor
  · intro b hb
    cases attrs with
    | nil => cases hb
    | cons a attrs => simpa [Attr.write] using hb.symm
  · intro b hb
    rcases List.eq_nil_or_concat attrs with rfl | ⟨front, a, rfl⟩
    · cases hb
    · have hlast : (front.concat a).flatMap Attr.write =
          front.flatMap Attr.write ++ ([0x20] ++ a.key ++ goString "=\"" ++ escape a.val) ++ [0x22] := by
        simp [Attr.write]
      rw [hlast, List.getLast?_append, List.getLast?_singleton, Option.some_or, Option.mem_def,
        Option.some.injEq] at hb
      exact hb.symm

end Reading

theorem readTag_write {name : GoString} {attrs : List Attr} (hne : name ≠ []) (hname : PlainName name)
    (hkeys : ∀ a ∈ attrs, PlainName a.key) {closing : GoString}
    (hclosing : closing = [] ∨ closing = [0x2F]) :
    readTag (name ++ attrs.flatMap Attr.write ++ closing) =
      { type := if closing = [] then .startTag else .selfClosingTag, data := name, attr := attrs } := by
  obtain ⟨hhead, hlast⟩ := flatMap_write_ends attrs
  have hname' : ∀ b ∈ name, isNameByte b := hname
  -- the name ends at a blank, a slash, or the end
  have hnext : ∀ b ∈ (attrs.flatMap Attr.write ++ closing).head?, isNameByte b = false := by
    intro b hb
    rw [List.head?_append, Option.mem_def, Option.or_eq_some_iff] at hb
    rcases hb with hb | ⟨-, hb⟩
    · rw [hhead b hb]
      decide
    · rcases hclosing with rfl | rfl
      · cases hb
      · rw [← Option.some.inj hb]
        decide
  have htake : (name ++ (attrs.flatMap Attr.write ++ closing)).takeWhile isNameByte = name ∧
      (name ++ (attrs.flatMap Attr.write ++ closing)).dropWhile isNameByte =
      attrs.flatMap Attr.write ++ closing := by
    cases hrest : attrs.flatMap Attr.write ++ closing with
    | nil => simpa using hname'
    | cons b rest =>
      have hb : isNameByte b = false := hnext b (by rw [hrest]; rfl)
      rw [List.takeWhile_append_of_pos hname', List.dropWhile_append_of_pos hname']
      simp [hb]
  have hslash : (name ++ attrs.flatMap Attr.write ++ closing).head? ≠ some 0x2F := by
    obtain ⟨b, bs, rfl⟩ := List.exists_cons_of_ne_nil hne
    intro h
    have hb : b = 0x2F := Option.some.inj h
    rw [hb] at hname'
    exact absurd (hname' 0x2F List.mem_cons_self) (by decide)
  have htype : (if (name ++ attrs.flatMap Attr.write ++ closing).getLast? = some 0x2F then
      TokenType.selfClosingTag
      else .startTag) = if closing = [] then .startTag else .selfClosingTag := by
    rcases hclosing with rfl | rfl
    · rw [if_pos rfl, if_neg]
      rw [List.append_nil, List.getLast?_append, Option.or_eq_some_iff]
      rintro (h | ⟨-, h⟩)
      · exact absurd (hlast _ h) (by decide)
      · exact absurd (hname' _ (List.mem_of_mem_getLast? h)) (by decide)
    · rw [if_pos (by simp), if_neg (by simp)]
  have hcount : attrs.length ≤ (name ++ attrs.flatMap Attr.write ++ closing).length := by
    have : attrs.length ≤ (attrs.flatMap Attr.write).length := length_le_write
    simp only [List.length_append]
    omega
  have hattrs := readAttrs_write hkeys
    (show closing.length ≤ 1 by rcases hclosing with rfl | rfl <;> simp) hcount
  rw [readTag, if_neg hslash, htype, List.append_assoc, htake.1, htake.2, ← List.append_assoc, hattrs]

def Token.inner (t : Token) : GoString :=
  match t.type with
  | .startTag => t.data ++ t.attr.flatMap Attr.write ++ []
  | .selfClosingTag => t.data ++ t.attr.flatMap Attr.write ++ [0x2F]
  | _ => 0x2F :: t.data

theorem Token.Plain.inner_free {t : Token} (h : t.Plain) (htag : t.type ≠ .text) : 0x3E ∉ t.inner := by
  have hname : 0x3E ∉ t.data := not_mem_of_plain (h.name htag).2 (by decide)
  have hattrs : 0x3E ∉ t.attr.flatMap Attr.write := by
    rw [List.mem_flatMap]
    rintro ⟨a, ha, hmem⟩
    have hequals : 0x3E ∉ goString "=\"" := by decide
    simp only [Attr.write, List.mem_append, List.mem_singleton] at hmem
    rcases hmem with (((hmem | hmem) | hmem) | hmem) | hmem
    · cases hmem
    · exact not_mem_of_plain (h.keys a ha) (by decide) hmem
    · exact hequals hmem
    · exact not_mem_escape.2.1 hmem
    · cases hmem
  unfold inner
  split <;> simp [hname, hattrs]

theorem Token.Plain.write_eq {t : Token} (h : t.Plain) (htag : t.type ≠ .text) :
    t.write = [0x3C] ++ t.inner ++ [0x3E] := by
  obtain ⟨type, data, attr⟩ := t
  obtain ⟨⟨hcomment, hdoctype⟩, -, -⟩ := h
  cases type with
  | text => exact absurd rfl htag
  | comment => exact absurd rfl hcomment
  | doctype => exact absurd rfl hdoctype
  | startTag => simp [write, inner]
  | selfClosingTag => simp [write, inner]
  | endTag => simp [write, inner]

theorem Token.Plain.filter_readTag {t : Token} (h : t.Plain) (htag : t.type ≠ .text) (rest : List Token) :
    (readTag t.inner :: rest).filter Token.isTag = (t :: rest).filter Token.isTag := by
  obtain ⟨type, data, attr⟩ := t
  obtain ⟨⟨hcomment, hdoctype⟩, hname, hkeys⟩ := h
  obtain ⟨hne, hplain⟩ := hname htag
  cases type with
  | text => exact absurd rfl htag
  | comment => exact absurd rfl hcomment
  | doctype => exact absurd rfl hdoctype
  | startTag =>
    have hread := readTag_write hne hplain hkeys (.inl rfl)
    rw [if_pos rfl] at hread
    rw [inner]
    dsimp only
    rw [hread]
  | selfClosingTag =>
    have hread := readTag_write hne hplain hkeys (.inr rfl)
    rw [if_neg (by simp)] at hread
    rw [inner]
    dsimp only
    rw [hread]
  | endTag => rfl

theorem filter_readTokens {ts : List Token} (h : ∀ t ∈ ts, t.Plain) {text : GoString}
    (htext : 0x3C ∉ text) {rounds : ℕ} (hrounds : (ts.filter fun t => t.type ≠ .text).length < rounds) :
    (readTokens rounds (text ++ ts.flatMap Token.write)).filter Token.isTag = ts.filter Token.isTag := by
  induction ts generalizing text rounds with
  | nil =>
    obtain ⟨rounds, rfl⟩ := Nat.exists_eq_succ_of_ne_zero (Nat.ne_of_gt (Nat.zero_lt_of_lt hrounds))
    rw [List.flatMap_nil, List.append_nil, readTokens, cut_eq_none htext]
    rfl
  | cons t ts ih =>
    obtain ⟨ht, hts⟩ := List.forall_mem_cons.mp h
    by_cases htag : t.type = .text
    · have hwrite : t.write = escape t.data := by rw [Token.write, htag]
      have hskip : t.isTag = false := by rw [Token.isTag, htag]; rfl
      have hfree : 0x3C ∉ text ++ escape t.data := by
        rw [List.mem_append, not_or]
        exact ⟨htext, not_mem_escape.1⟩
      rw [List.filter_cons_of_neg (by simpa using htag)] at hrounds
      rw [List.flatMap_cons, hwrite, ← List.append_assoc, ih hts hfree hrounds,
        List.filter_cons_of_neg (by simp [hskip])]
    · obtain ⟨rounds, rfl⟩ := Nat.exists_eq_succ_of_ne_zero (Nat.ne_of_gt (Nat.zero_lt_of_lt hrounds))
      rw [List.filter_cons_of_pos (by simpa using htag), List.length_cons] at hrounds
      have hopen : cut [0x3C] (text ++ (t :: ts).flatMap Token.write) =
          some (text, t.inner ++ [0x3E] ++ ts.flatMap Token.write) := by
        rw [List.flatMap_cons, ht.write_eq htag]
        simp only [List.append_assoc]
        rw [← List.append_assoc]
        exact cut_append htext _
      have hclose : cut [0x3E] (t.inner ++ [0x3E] ++ ts.flatMap Token.write) =
          some (t.inner, ts.flatMap Token.write) :=
        cut_append (ht.inner_free htag) _
      have hrest := ih hts List.not_mem_nil (Nat.lt_of_succ_lt_succ hrounds)
      rw [readTokens, hopen]
      dsimp only
      rw [hclose]
      dsimp only
      rw [List.filter_cons_of_neg (by simp [Token.isTag]), ht.filter_readTag htag, List.filter_cons,
        List.filter_cons]
      rw [List.nil_append] at hrest
      rw [hrest]

theorem filter_read {ts : List Token} (h : ∀ t ∈ ts, t.Plain) :
    (read (ts.flatMap Token.write)).filter Token.isTag = ts.filter Token.isTag := by
  have hcount : (ts.filter fun t => t.type ≠ .text).length ≤ (ts.flatMap Token.write).length := by
    induction ts with
    | nil => exact Nat.zero_le _
    | cons t ts ih =>
      obtain ⟨ht, hts⟩ := List.forall_mem_cons.mp h
      have hrest := ih hts
      rw [List.flatMap_cons, List.length_append]
      by_cases htag : t.type = .text
      · rw [List.filter_cons_of_neg (by simpa using htag)]
        omega
      · rw [List.filter_cons_of_pos (by simpa using htag), ht.write_eq htag]
        simp only [List.length_append, List.length_cons, List.length_nil]
        omega
  have hread := filter_readTokens h (show 0x3C ∉ ([] : GoString) from List.not_mem_nil)
    (Nat.lt_succ_of_le hcount)
  rwa [List.nil_append] at hread

end TangraTicket.Markup
