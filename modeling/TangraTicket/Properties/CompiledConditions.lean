import TangraTicket.Library.Checks
import TangraTicket.Properties.QuotedLiterals

/-!
Compiled conditions mean what they say: the expression rendered from a list of conditions has,
wherever CEL finishes it within its cost limit, the value of the conditions read directly.
-/

namespace TangraTicket.Services.Rules

open GoText Store Cel Checks

inductive TextField
  | subject | body | fromAddress | fromName | recipient | fromDomain
deriving DecidableEq

inductive TextOp
  | contains | notContains | equals | notEquals | startsWith | endsWith | search
deriving DecidableEq

/-- What one condition asks. -/
inductive Test
  | attachments (same want : Bool)
  | score (op : RelOp) (number : UInt64)
  | text (field : TextField) (op : TextOp) (value : GoString)
deriving DecidableEq

def TextField.name : TextField → String
  | .subject => "subject"
  | .body => "body"
  | .fromAddress => "from"
  | .fromName => "fromName"
  | .recipient => "recipient"
  | .fromDomain => "fromDomain"

def TextField.of (m : Email) : TextField → GoString
  | .subject => m.subject
  | .body => truncate m.body maxBodyEval
  | .fromAddress => m.fromAddress
  | .fromName => m.fromName
  | .recipient => m.recipient
  | .fromDomain => m.fromDomain

def textFieldNames : List (GoString × TextField) :=
  [("subject", .subject), ("body", .body), ("from", .fromAddress), ("fromName", .fromName),
    ("recipient", .recipient), ("fromDomain", .fromDomain)]

def textOpNames : List (GoString × TextOp) :=
  [("contains", .contains), ("not_contains", .notContains), ("equals", .equals), ("not_equals", .notEquals),
    ("starts_with", .startsWith), ("ends_with", .endsWith), ("matches", .search)]

def relOpNames : List (GoString × RelOp) :=
  [("gt", .gt), ("gte", .ge), ("lt", .lt), ("lte", .le), ("eq", .eq), ("neq", .ne)]

section Read

variable [GoLibrary] [RuleLibrary]

def readCondition (c : Condition) : Option Test :=
  let field := trimSpace c.field
  let op := toLower (trimSpace c.operator)
  if field = goString "hasAttachments" then
    some (.attachments (Decidable.decide (op ≠ goString "not_equals" ∧ op ≠ goString "neq"))
      (Decidable.decide (toLower (trimSpace c.value) ≠ goString "false")))
  else if field = goString "spamScore" then do
    let op ← relOpNames.lookup op
    let number ← RuleLibrary.parseFloat (trimSpace c.value)
    pure (.score op number)
  else do
    let field ← textFieldNames.lookup field
    let op ← textOpNames.lookup op
    pure (.text field op c.value)

end Read

section Holds

variable [Host] (m : Email)

def Test.holds : Test → Bool
  | .attachments same want => (m.hasAttachments == want) == same
  | .score op number => compareNumbers op m.spamScore number
  | .text field op value =>
    let s := Cel.lowerAscii (field.of m)
    let x := Cel.lowerAscii value
    match op with
    | .contains => GoText.contains s x
    | .notContains => !GoText.contains s x
    | .equals => s = x
    | .notEquals => s ≠ x
    | .startsWith => hasPrefix s x
    | .endsWith => hasSuffix s x
    | .search => Host.search value (field.of m)

def Test.cost : Test → ℕ
  | .attachments same want =>
    Host.identCost + Host.relCost (if same then .eq else .ne) (.bool m.hasAttachments) (.bool want)
  | .score op number => Host.identCost + Host.relCost op (.double m.spamScore) (.double number)
  | .text field op value =>
    let s := Value.str (field.of m)
    let folded := Value.str (Cel.lowerAscii (field.of m))
    let x := Value.str (Cel.lowerAscii value)
    let fold := Host.identCost + Host.callCost (codes "lowerAscii") [s]
    match op with
    | .contains => fold + Host.callCost (codes "contains") [folded, x]
    | .notContains => fold + Host.callCost (codes "contains") [folded, x] + Host.notCost
    | .equals => fold + Host.relCost .eq folded x
    | .notEquals => fold + Host.relCost .ne folded x
    | .startsWith => fold + Host.callCost (codes "startsWith") [folded, x]
    | .endsWith => fold + Host.callCost (codes "endsWith") [folded, x]
    | .search => Host.identCost + Host.callCost (codes "matches") [s, .str value]

end Holds

section Render

variable [RuleLibrary]

def quotedCodes (s : GoString) : Codes := 0x22 :: ((runes s).flatMap quoteCodes ++ [0x22])

def callCodes (target : Codes) (method : String) (value : GoString) : Codes :=
  target ++ (methodCodes (codes method) ++ (quotedCodes value ++ [0x29]))

def foldedCodes (field : TextField) : Codes :=
  codes field.name ++ (methodCodes (codes "lowerAscii") ++ [0x29])

def Test.codes : Test → Codes
  | .attachments same want =>
    Cel.codes "hasAttachments" ++
      (spaced (if same then .eq else .ne) ++ Cel.codes (if want then "true" else "false"))
  | .score op number => Cel.codes "spamScore" ++ (spaced op ++ runes (doubleLiteral number))
  | .text field op value =>
    let folded := foldedCodes field
    let x := asciiLower value
    match op with
    | .contains => callCodes folded "contains" x
    | .notContains => 0x21 :: callCodes folded "contains" x
    | .equals => folded ++ (spaced .eq ++ quotedCodes x)
    | .notEquals => folded ++ (spaced .ne ++ quotedCodes x)
    | .startsWith => callCodes folded "startsWith" x
    | .endsWith => callCodes folded "endsWith" x
    | .search => callCodes (Cel.codes field.name) "matches" value

def Test.Legal : Test → Prop
  | .attachments .. => True
  | .score _ number => notFinite number = false
  | .text _ _ value => validString value = true

end Render

structure NumberText (cs : Codes) where
  sign : Codes
  whole : Codes
  fraction : Codes
  exponent : Codes
  sign_eq : sign = [] ∨ sign = [0x2D]
  digits : Digits whole
  fractionText : FractionText fraction
  exponentText : ExponentText exponent
  eq : cs = sign ++ (whole ++ (fraction ++ exponent))

section Numbers

variable {cs : Codes}

theorem Digits.ascii {ds : Codes} (h : Digits ds) : ∀ r ∈ ds, r < 0x80 := by
  intro r hr
  have hdigit := h.2 r hr
  simp only [isDigit, Bool.and_eq_true, decide_eq_true_eq] at hdigit
  omega

theorem NumberText.ascii (t : NumberText cs) : ∀ r ∈ cs, r < 0x80 := by
  obtain ⟨sign, whole, fraction, exponent, hs, hw, hf, hx, rfl⟩ := t
  simp only [List.forall_mem_append]
  refine ⟨?_, Digits.ascii hw, ?_, ?_⟩
  · rcases hs with rfl | rfl <;> decide
  · rcases hf with rfl | ⟨ds, hds, rfl⟩
    · exact fun r hr => absurd hr List.not_mem_nil
    · exact List.forall_mem_cons.mpr ⟨by decide, Digits.ascii hds⟩
  · rcases hx with rfl | ⟨e, sign, ds, he, hsign, hds, rfl⟩
    · exact fun r hr => absurd hr List.not_mem_nil
    · exact List.forall_mem_cons.mpr ⟨by omega, List.forall_mem_cons.mpr ⟨by omega, Digits.ascii hds⟩⟩

theorem scalars_of_ascii (h : ∀ r ∈ cs, r < 0x80) : Scalars cs := by
  intro r hr
  have := h r hr
  exact .inl (by omega)

theorem mem_encode_of_ascii (h : ∀ r ∈ cs, r < 0x80) (b : UInt8) : b ∈ encode cs ↔ b.toNat ∈ cs := by
  rw [encode, List.mem_flatMap]
  constructor
  · rintro ⟨r, hr, hb⟩
    have hlt := h r hr
    rw [encodeRune_ascii hlt, List.mem_singleton] at hb
    have hnat : b.toNat = r := by
      rw [hb, Nat.toUInt8, UInt8.toNat_ofNat']
      omega
    rwa [hnat]
  · intro hb
    refine ⟨b.toNat, hb, ?_⟩
    rw [encodeRune_ascii (h _ hb)]
    simp

theorem NumberText.containsAny_iff (t : NumberText cs) :
    containsAny (encode cs) (goString ".eE") = true ↔ ¬ (t.fraction = [] ∧ t.exponent = []) := by
  have hmarks : (goString ".eE") = [0x2E, 0x65, 0x45] := by decide
  have hany : containsAny (encode cs) (goString ".eE") = true ↔ 0x2E ∈ cs ∨ 0x65 ∈ cs ∨ 0x45 ∈ cs := by
    rw [containsAny, List.any_eq_true, hmarks]
    simp only [mem_encode_of_ascii t.ascii, List.contains_iff_mem, List.mem_cons,
      List.not_mem_nil, or_false]
    constructor
    · rintro ⟨b, hb, rfl | rfl | rfl⟩
      exacts [.inl hb, .inr (.inl hb), .inr (.inr hb)]
    · rintro (hb | hb | hb)
      exacts [⟨0x2E, hb, .inl rfl⟩, ⟨0x65, hb, .inr (.inl rfl)⟩, ⟨0x45, hb, .inr (.inr rfl)⟩]
  rw [hany]
  obtain ⟨sign, whole, fraction, exponent, hs, hw, hf, hx, rfl⟩ := t
  have hno : ∀ r ∈ sign ++ whole, r ≠ 0x2E ∧ r ≠ 0x65 ∧ r ≠ 0x45 := by
    intro r hr
    rcases List.mem_append.mp hr with hr | hr
    · rcases hs with rfl | rfl
      · exact absurd hr List.not_mem_nil
      · rw [List.mem_singleton.mp hr]
        decide
    · have hdigit := hw.2 r hr
      simp only [isDigit, Bool.and_eq_true, decide_eq_true_eq] at hdigit
      omega
  constructor
  · rintro hmem ⟨rfl, rfl⟩
    simp only [List.append_nil] at hmem
    rcases hmem with h | h | h
    exacts [(hno _ h).1 rfl, (hno _ h).2.1 rfl, (hno _ h).2.2 rfl]
  · intro hne
    rcases hf with rfl | ⟨ds, -, rfl⟩
    · rcases hx with rfl | ⟨e, sgn, ds, he, -, -, rfl⟩
      · exact absurd ⟨rfl, rfl⟩ hne
      · rcases he with rfl | rfl
        · exact .inr (.inl (by simp))
        · exact .inr (.inr (by simp))
    · exact .inl (by simp)

end Numbers

section FloatLaws

variable [RuleLibrary] [Host]

/-- What `strconv.FormatFloat` and `ParseFloat` keep to on finite numbers: the shortest text reads
back, with a fraction of zero added to a whole number too, and CEL reads a literal with the same
`ParseFloat`. -/
class FloatLaws : Prop where
  format {v : UInt64} : notFinite v = false → ∃ cs, Nonempty (NumberText cs) ∧
    RuleLibrary.formatFloat v = encode cs
  parse_format {v : UInt64} : notFinite v = false →
    RuleLibrary.parseFloat (RuleLibrary.formatFloat v) = some v
  parse_point {v : UInt64} : notFinite v = false → containsAny (RuleLibrary.formatFloat v) ".eE" = false →
    RuleLibrary.parseFloat (RuleLibrary.formatFloat v ++ goString ".0") = some v
  parseDouble (s : GoString) : Host.parseDouble s = RuleLibrary.parseFloat s

variable [FloatLaws] {v : UInt64}

theorem parse_doubleLiteral (hv : notFinite v = false) : Host.parseDouble (doubleLiteral v) = some v := by
  rw [FloatLaws.parseDouble, doubleLiteral]
  split_ifs with h
  · exact FloatLaws.parse_format hv
  · exact FloatLaws.parse_point hv (Bool.eq_false_of_not_eq_true h)

theorem doubleLiteral_text (hv : notFinite v = false) :
    ∃ (cs : Codes) (t : NumberText cs), doubleLiteral v = encode cs ∧
    ¬ (t.fraction = [] ∧ t.exponent = []) := by
  obtain ⟨cs, ⟨t⟩, hcs⟩ := FloatLaws.format hv
  rw [doubleLiteral, hcs]
  split_ifs with h
  · exact ⟨cs, t, rfl, t.containsAny_iff.mp h⟩
  · have hnone := not_not.mp (mt t.containsAny_iff.mpr h)
    obtain ⟨sign, whole, fraction, exponent, hs, hw, hf, hx, rfl⟩ := t
    obtain ⟨rfl, rfl⟩ := hnone
    refine ⟨_, ⟨sign, whole, [0x2E, 0x30], [], hs, hw, .inr ⟨[0x30], ⟨by decide, by decide⟩, rfl⟩,
      .inl rfl, rfl⟩, ?_, by simp⟩
    have hpoint : goString ".0" = encode [0x2E, 0x30] := by decide
    rw [hpoint, ← encode_append]
    simp

end FloatLaws

section Rendered

variable [RuleLibrary]

theorem encode_quotedCodes (s : GoString) : encode (quotedCodes s) = quote s := (quote_eq s).symm

theorem encode_callCodes {target method : GoString} {cs : Codes} (name : String)
    (htarget : encode cs = target) (hmethod : encode (methodCodes (codes name)) = method)
    (value : GoString) :
    encode (callCodes cs name value) = target ++ method ++ quote value ++ goString ")" := by
  have hclose : encode [0x29] = goString ")" := by decide
  rw [callCodes, encode_append, encode_append, encode_append, htarget, hmethod, encode_quotedCodes, hclose]
  simp only [List.append_assoc]

omit [RuleLibrary] in
theorem encode_name (f : TextField) : encode (codes f.name) = goString f.name := by
  cases f <;> decide

omit [RuleLibrary] in
theorem encode_foldedCodes (f : TextField) :
    encode (foldedCodes f) = goString f.name ++ goString ".lowerAscii()" := by
  have hmethod : encode (methodCodes (codes "lowerAscii") ++ [0x29]) =
    goString ".lowerAscii()" := by decide +kernel
  rw [foldedCodes, encode_append, encode_name, hmethod]

omit [RuleLibrary] in
theorem lookup_textField {field : GoString} (h : field ∈ textFields) :
    ∃ f : TextField, textFieldNames.lookup field = some f ∧ field = goString f.name := by
  simp only [textFields, List.mem_cons, List.not_mem_nil, or_false] at h
  rcases h with rfl | rfl | rfl | rfl | rfl | rfl
  exacts [⟨.subject, by decide, rfl⟩, ⟨.body, by decide, rfl⟩, ⟨.fromAddress, by decide, rfl⟩,
    ⟨.fromName, by decide, rfl⟩, ⟨.recipient, by decide, rfl⟩, ⟨.fromDomain, by decide, rfl⟩]

variable [GoLibrary]

theorem textExpr_reads {at_ field op e : GoString} {c : Condition} (h : textExpr at_ field op c = .ok e) :
    ∃ f o, textFieldNames.lookup field = some f ∧ textOpNames.lookup op = some o ∧
      e = encode (Test.text f o c.value).codes := by
  have hfield : field ∈ textFields := by
    by_contra hfield
    rw [textExpr, if_pos hfield] at h
    cases h
  obtain ⟨f, hf, rfl⟩ := lookup_textField hfield
  have hcall : ∀ (name : String) {method : GoString}, encode (methodCodes (codes name)) = method →
      encode (callCodes (foldedCodes f) name (asciiLower c.value)) =
        goString f.name ++ goString ".lowerAscii()" ++ method ++ quote (asciiLower c.value) ++
        goString ")" :=
    fun name _ hmethod => encode_callCodes name (encode_foldedCodes f) hmethod _
  have hrel : ∀ {r : RelOp} {sign : GoString}, encode (spaced r) = sign →
      encode (foldedCodes f ++ (spaced r ++ quotedCodes (asciiLower c.value))) =
        goString f.name ++ goString ".lowerAscii()" ++ sign ++ quote (asciiLower c.value) := by
    intro r sign hsign
    rw [encode_append, encode_append, encode_foldedCodes, hsign, encode_quotedCodes]
    simp only [List.append_assoc]
  have hcontains := hcall "contains" (by decide +kernel : _ = goString ".contains(")
  unfold textExpr at h
  split_ifs at h with hop _ h₁ h₂ h₃ h₄ h₅ h₆
  · refine ⟨f, .search, hf, by rw [h₁]; decide, ?_⟩
    have hsearch := encode_callCodes "matches" (encode_name f)
      (by decide +kernel : _ = goString ".matches(") c.value
    split at h
    · cases h
    · rw [← Except.ok.inj h]
      exact hsearch.symm
  · refine ⟨f, .contains, hf, by rw [h₂]; decide, ?_⟩
    rw [← Except.ok.inj h]
    exact hcontains.symm
  · refine ⟨f, .notContains, hf, by rw [h₃]; decide, ?_⟩
    have hbang : encodeRune 0x21 = goString "!" := by decide
    rw [← Except.ok.inj h, Test.codes, encode_cons, hcontains, hbang]
    simp only [List.append_assoc]
  · refine ⟨f, .equals, hf, by rw [h₄]; decide, ?_⟩
    rw [← Except.ok.inj h]
    exact (hrel (by decide)).symm
  · refine ⟨f, .notEquals, hf, by rw [h₅]; decide, ?_⟩
    rw [← Except.ok.inj h]
    exact (hrel (by decide)).symm
  · refine ⟨f, .startsWith, hf, by rw [h₆]; decide, ?_⟩
    rw [← Except.ok.inj h]
    exact (hcall "startsWith" (by decide +kernel)).symm
  · have hends : op = goString "ends_with" := by
      simp only [textOperators, List.mem_cons, List.not_mem_nil, or_false] at hop
      rcases hop with h | h | h | h | h | h | h
      exacts [absurd h h₂, absurd h h₃, absurd h h₄, absurd h h₅, absurd h h₆, h, absurd h h₁]
    refine ⟨f, .endsWith, hf, by rw [hends]; decide, ?_⟩
    rw [← Except.ok.inj h]
    exact (hcall "endsWith" (by decide +kernel)).symm

theorem attachmentsExpr_reads {at_ op e : GoString} {c : Condition} (h : attachmentsExpr at_ op c = .ok e) :
    e = encode (Test.attachments (Decidable.decide (op ≠ goString "not_equals" ∧ op ≠ goString "neq"))
      (Decidable.decide (toLower (trimSpace c.value) ≠ goString "false"))).codes := by
  have hname : encode (codes "hasAttachments") = goString "hasAttachments" := by decide +kernel
  have hsign : encode (spaced
      (if Decidable.decide (op ≠ goString "not_equals" ∧ op ≠ goString "neq") = true then
      .eq else .ne)) =
      if op = goString "not_equals" ∨ op = goString "neq" then goString " != " else goString " == " := by
    by_cases hop : op = goString "not_equals" ∨ op = goString "neq"
    · have hnot : ¬ (op ≠ goString "not_equals" ∧ op ≠ goString "neq") := by
        rw [← not_or]
        exact not_not.mpr hop
      rw [if_pos hop, if_neg (by simpa using hnot)]
      decide
    · rw [if_neg hop, if_pos (decide_eq_true (not_or.mp hop))]
      decide
  have htrue : encode (codes "true") = goString "true" := by decide
  have hfalse : encode (codes "false") = goString "false" := by decide
  rw [Test.codes, encode_append, encode_append, hname, hsign]
  unfold attachmentsExpr at h
  dsimp only at h
  generalize (if op = goString "not_equals" ∨ op = goString "neq" then goString " != "
    else goString " == ") = cmp at h
  split_ifs at h with _ hvalue hvalue'
  · have hne : toLower (trimSpace c.value) ≠ goString "false" := by
      rcases hvalue with hv | hv <;> rw [hv] <;> decide
    rw [← Except.ok.inj h, if_pos (decide_eq_true hne), htrue, List.append_assoc]
  · rw [← Except.ok.inj h, if_neg (by simp [hvalue']), hfalse, List.append_assoc]

omit [RuleLibrary] [GoLibrary] in
theorem lookup_numericOp {op sym : GoString} (h : numericOps.lookup op = some sym) :
    ∃ r, relOpNames.lookup op = some r ∧ goString "spamScore " ++ sym ++ goString " " = encode
      (codes "spamScore" ++ spaced r) := by
  obtain ⟨l₁, l₂, hl, -⟩ := List.lookup_eq_some_iff.mp h
  have hmem : (op, sym) ∈ numericOps := by
    rw [hl]
    exact List.mem_append_right _ List.mem_cons_self
  simp only [numericOps, List.mem_cons, List.not_mem_nil, or_false, Prod.mk.injEq] at hmem
  rcases hmem with ⟨rfl, rfl⟩ | ⟨rfl, rfl⟩ | ⟨rfl, rfl⟩ | ⟨rfl, rfl⟩ | ⟨rfl, rfl⟩ | ⟨rfl, rfl⟩
  · exact ⟨.gt, by decide, by decide +kernel⟩
  · exact ⟨.ge, by decide, by decide +kernel⟩
  · exact ⟨.lt, by decide, by decide +kernel⟩
  · exact ⟨.le, by decide, by decide +kernel⟩
  · exact ⟨.eq, by decide, by decide +kernel⟩
  · exact ⟨.ne, by decide, by decide +kernel⟩

section Float

variable [Host] [FloatLaws]

omit [GoLibrary] in
theorem encode_runes_doubleLiteral {v : UInt64} (hv : notFinite v = false) :
    encode (runes (doubleLiteral v)) = doubleLiteral v := by
  obtain ⟨cs, t, hcs, -⟩ := doubleLiteral_text hv
  rw [hcs, runes_encode (scalars_of_ascii t.ascii)]

theorem spamExpr_reads {at_ op e : GoString} {c : Condition} (h : spamExpr at_ op c = .ok e) :
    ∃ r number, relOpNames.lookup op = some r ∧ RuleLibrary.parseFloat (trimSpace c.value) = some number ∧
      notFinite number = false ∧ e = encode (Test.score r number).codes := by
  unfold spamExpr at h
  split at h
  · cases h
  · rename_i sym hsym
    obtain ⟨r, hr, htext⟩ := lookup_numericOp hsym
    split at h
    · cases h
    · rename_i number hnumber
      obtain ⟨hparse, hfinite⟩ := Option.filter_eq_some_iff.mp hnumber
      rw [Bool.not_eq_true'] at hfinite
      refine ⟨r, number, hr, hparse, hfinite, ?_⟩
      rw [← Except.ok.inj h, htext, Test.codes, ← List.append_assoc,
        encode_append (codes "spamScore" ++ spaced r), encode_runes_doubleLiteral hfinite]

theorem conditionExpr_reads {i : ℕ} {e : GoString} {c : Condition} (h : conditionExpr i c = .ok e) :
    ∃ t, readCondition c = some t ∧ t.Legal ∧ e = encode t.codes := by
  unfold conditionExpr at h
  dsimp only at h
  split_ifs at h with hvalid _ hattachments hspam
  · refine ⟨.attachments _ _, ?_, trivial, attachmentsExpr_reads h⟩
    rw [readCondition, if_pos hattachments]
  · obtain ⟨r, number, hr, hnumber, hfinite, he⟩ := spamExpr_reads h
    refine ⟨.score r number, ?_, hfinite, he⟩
    rw [readCondition, if_neg hattachments, if_pos hspam, hr, hnumber]
    rfl
  · obtain ⟨f, o, hf, ho, he⟩ := textExpr_reads h
    refine ⟨.text f o c.value, ?_, hvalid, he⟩
    rw [readCondition, if_neg hattachments, if_neg hspam, hf, ho]
    rfl

theorem conditionExprs_reads {i : ℕ} {cs : List Condition} {es : List GoString}
    (h : conditionExprs i cs = .ok es) :
    ∃ ts : List Test, cs.mapM readCondition = some ts ∧ (∀ t ∈ ts, t.Legal) ∧
      es = ts.map fun t => encode (0x28 :: (t.codes ++ [0x29])) := by
  induction cs generalizing i es with
  | nil =>
    refine ⟨[], rfl, fun t ht => absurd ht List.not_mem_nil, ?_⟩
    exact (Except.ok.inj h).symm
  | cons c cs ih =>
    unfold conditionExprs at h
    obtain ⟨e, he, h⟩ := bind_eq_ok.mp h
    obtain ⟨es', hes, h⟩ := bind_eq_ok.mp h
    obtain ⟨t, ht, hlegal, rfl⟩ := conditionExpr_reads he
    obtain ⟨ts, hts, hlegals, rfl⟩ := ih hes
    refine ⟨t :: ts, ?_, List.forall_mem_cons.mpr ⟨hlegal, hlegals⟩, ?_⟩
    · rw [List.mapM_cons, ht, hts]
      rfl
    · have hopen : encodeRune 0x28 = goString "(" := by decide
      have hclose : encode [0x29] = goString ")" := by decide
      rw [← Except.ok.inj h, List.map_cons, encode_cons, encode_append, hopen, hclose, List.append_assoc]

end Float

end Rendered

section Condition

variable [RuleLibrary]

def numberTokens (cs : Codes) : List Token :=
  if cs.head? = some 0x2D then [.sym .minus, .float cs.tail] else [.float cs]

def callTokens (target : List Token) (method : String) (value : GoString) : List Token :=
  target ++
    ([.sym .dot, .ident (codes method), .sym .lparen, .str (runes value), .sym .rparen] : List Token)

def foldedTokens (field : TextField) : List Token :=
  [.ident (codes field.name), .sym .dot, .ident (codes "lowerAscii"), .sym .lparen, .sym .rparen]

def Test.tokens : Test → List Token
  | .attachments same want =>
    [.ident (Cel.codes "hasAttachments"), .sym (.rel (if same then .eq else .ne)),
      .ident (Cel.codes (if want then "true" else "false"))]
  | .score op number =>
    .ident (Cel.codes "spamScore") :: .sym (.rel op) :: numberTokens (runes (doubleLiteral number))
  | .text field op value =>
    let folded := foldedTokens field
    let x := asciiLower value
    match op with
    | .contains => callTokens folded "contains" x
    | .notContains => .sym .bang :: callTokens folded "contains" x
    | .equals => folded ++ [.sym (.rel .eq), .str (runes x)]
    | .notEquals => folded ++ [.sym (.rel .ne), .str (runes x)]
    | .startsWith => callTokens folded "startsWith" x
    | .endsWith => callTokens folded "endsWith" x
    | .search => callTokens [.ident (Cel.codes field.name)] "matches" value

def Test.expr : Test → Expr
  | .attachments same want =>
    .rel (if same then .eq else .ne) (.ident (Cel.codes "hasAttachments")) (.bool want)
  | .score op number => .rel op (.ident (Cel.codes "spamScore")) (.double (runes (doubleLiteral number)))
  | .text field op value =>
    let folded := Expr.call (.ident (Cel.codes field.name)) (Cel.codes "lowerAscii")
    let x := Expr.str (runes (asciiLower value))
    match op with
    | .contains => .callWith folded (Cel.codes "contains") x
    | .notContains => .not (.callWith folded (Cel.codes "contains") x)
    | .equals => .rel .eq folded x
    | .notEquals => .rel .ne folded x
    | .startsWith => .callWith folded (Cel.codes "startsWith") x
    | .endsWith => .callWith folded (Cel.codes "endsWith") x
    | .search => .callWith (.ident (Cel.codes field.name)) (Cel.codes "matches") (.str (runes value))

omit [RuleLibrary] in
theorem isName_field (f : TextField) : isName (codes f.name) = true := by
  cases f <;> decide

omit [RuleLibrary] in
theorem reads_folded (f : TextField) (tail : Codes) :
    Cel.Reads (foldedCodes f ++ tail) (foldedTokens f) tail := by
  have hsplit : foldedCodes f ++ tail =
      codes f.name ++ 0x2E :: ((codes "lowerAscii" ++ [0x28]) ++ 0x29 :: tail) := by
    simp only [foldedCodes, methodCodes, List.append_assoc, List.cons_append, List.nil_append]
  rw [hsplit]
  have hmethod : Cel.Reads (methodCodes (codes "lowerAscii") ++ 0x29 :: tail) _ (0x29 :: tail) :=
    reads_method (by decide) _
  exact (reads_ident (isName_field f) rfl rfl _).trans (hmethod.trans (reads_rparen tail))

section Print

variable [PrintLaws]

theorem reads_quoted (s : GoString) {c : ℕ} (hc : c ≠ 0x22) (tail : Codes) :
    Cel.Reads (quotedCodes s ++ c :: tail) [.str (runes s)] (c :: tail) := by
  have hsplit : quotedCodes s ++ c :: tail = 0x22 ::
      ((runes s).flatMap quoteCodes ++ 0x22 :: c :: tail) := by
    simp [quotedCodes]
  rw [hsplit]
  have hstring := stringAt_quoted (scalars_runes s)
    (show runes s ≠ [] ∨ (c :: tail).head? ≠ some 0x22 from .inr fun h => hc (Option.some.inj h))
  have hnext : next (0x22 :: ((runes s).flatMap quoteCodes ++ 0x22 :: c :: tail)) =
      some (some (.str (runes s)), c :: tail) := by
    simp only [next]
    rw [if_neg (by decide), if_pos (by decide), hstring]
    rfl
  exact Reads.of_next hnext (by simp only [List.length_append, List.length_cons]; omega)

theorem reads_call {target : Codes} {ts : List Token}
    (htarget : ∀ tail, Cel.Reads (target ++ 0x2E :: tail) ts (0x2E :: tail)) {method : String}
    (hmethod : isName (codes method) = true) (value : GoString) (tail : Codes) :
    Cel.Reads (callCodes target method value ++ tail) (callTokens ts method value) tail := by
  have hsplit : callCodes target method value ++ tail =
      target ++ 0x2E :: ((codes method ++ [0x28]) ++ (quotedCodes value ++ 0x29 :: tail)) := by
    simp only [callCodes, methodCodes, List.append_assoc, List.cons_append, List.nil_append]
  rw [hsplit]
  have hopen : Cel.Reads (methodCodes (codes method) ++ (quotedCodes value ++ 0x29 :: tail)) _ _ :=
    reads_method hmethod _
  have hquoted := reads_quoted value (by decide : (0x29 : ℕ) ≠ 0x22) tail
  exact (htarget _).trans (hopen.trans (hquoted.trans (reads_rparen tail)))

end Print

theorem reads_number [Host] [FloatLaws] {v : UInt64} (hv : notFinite v = false) {c : ℕ}
    (hc : endsFloat c = true) (tail : Codes) : Cel.Reads (runes (doubleLiteral v) ++ c :: tail)
    (numberTokens (runes (doubleLiteral v))) (c :: tail) := by
  obtain ⟨cs, t, hcs, hfloat⟩ := doubleLiteral_text hv
  rw [hcs, runes_encode (scalars_of_ascii t.ascii)]
  obtain ⟨sign, whole, fraction, exponent, hs, hw, hf, hx, rfl⟩ := t
  have hnumber : Cel.Reads (whole ++ (fraction ++ (exponent ++ c :: tail)))
      [.float (whole ++ (fraction ++ exponent))] (c :: tail) := by
    rw [← List.append_assoc whole fraction exponent]
    exact reads_float hw hf hx hfloat hc tail
  simp only [List.append_assoc]
  rcases hs with rfl | rfl
  · have hhead : ([] ++ (whole ++ (fraction ++ exponent))).head? ≠ some 0x2D := by
      obtain ⟨d, ds, rfl⟩ := List.exists_cons_of_ne_nil hw.1
      intro h
      have hd := hw.2 d List.mem_cons_self
      rw [Option.some.inj h] at hd
      exact absurd hd (by decide)
    rw [numberTokens, if_neg hhead]
    exact hnumber
  · have hminus : Cel.Reads (0x2D :: (whole ++ (fraction ++ (exponent ++ c :: tail)))) [.sym .minus] _ :=
      reads_sym (by decide) rfl (Nat.le_refl _)
    exact hminus.trans hnumber

theorem reads_test [PrintLaws] [Host] [FloatLaws] {t : Test} (ht : t.Legal) (tail : Codes) :
    Cel.Reads (t.codes ++ 0x29 :: tail) t.tokens (0x29 :: tail) := by
  cases t with
  | attachments same want =>
    have hwant : isName (codes (if want then "true" else "false")) = true := by cases want <;> decide
    have hname : isName (codes "hasAttachments") = true := by decide
    have hsplit : (Test.attachments same want).codes ++ 0x29 :: tail = codes "hasAttachments" ++
        0x20 :: ((relCodes (if same then .eq else .ne) ++ [0x20]) ++
          (codes (if want then "true" else "false") ++ 0x29 :: tail)) := by
      simp only [Test.codes, spaced, List.append_assoc, List.cons_append, List.nil_append]
    rw [hsplit]
    exact (reads_ident hname rfl rfl _).trans ((reads_spaced _ _).trans (reads_ident hwant rfl rfl tail))
  | score op number =>
    have hname : isName (codes "spamScore") = true := by decide
    have hsplit : (Test.score op number).codes ++ 0x29 :: tail =
        codes "spamScore" ++ 0x20 ::
        ((relCodes op ++ [0x20]) ++ (runes (doubleLiteral number) ++ 0x29 :: tail)) := by
      simp only [Test.codes, spaced, List.append_assoc, List.cons_append, List.nil_append]
    rw [hsplit]
    exact (reads_ident hname rfl rfl _).trans ((reads_spaced _ _).trans (reads_number ht (by decide) tail))
  | text field op value =>
    have hfolded : ∀ tail, Cel.Reads (foldedCodes field ++ 0x2E :: tail) (foldedTokens field)
        (0x2E :: tail) :=
      fun tail => reads_folded field _
    have hcompare : ∀ (r : RelOp) (x : GoString),
        Cel.Reads (foldedCodes field ++ (spaced r ++ quotedCodes x) ++ 0x29 :: tail)
          (foldedTokens field ++ [.sym (.rel r), .str (runes x)]) (0x29 :: tail) := by
      intro r x
      rw [List.append_assoc, List.append_assoc]
      exact (reads_folded field _).trans ((reads_spaced r _).trans (reads_quoted x (by decide) tail))
    cases op with
    | contains => exact reads_call hfolded (by decide) _ _
    | notContains =>
      have hcall := reads_call hfolded (by decide : isName (codes "contains") = true)
        (asciiLower value) (0x29 :: tail)
      have hbang : Cel.Reads (0x21 ::
          (callCodes (foldedCodes field) "contains" (asciiLower value) ++ 0x29 :: tail))
          [.sym .bang] _ :=
        reads_sym (by decide) (by cases field <;> rfl) (Nat.le_refl _)
      exact hbang.trans hcall
    | equals => exact hcompare .eq _
    | notEquals => exact hcompare .ne _
    | startsWith => exact reads_call hfolded (by decide) _ _
    | endsWith => exact reads_call hfolded (by decide) _ _
    | search => exact reads_call (fun tail => reads_ident (isName_field field) rfl rfl tail) (by decide) _ _

theorem parses_test (t : Test) (depth : ℕ) (rest : List Token) :
    expression (depth + 2) (t.tokens ++ .sym .rparen :: rest) = some (t.expr, .sym .rparen :: rest) := by
  cases t with
  | attachments same want => cases same <;> cases want <;> rfl
  | score op number =>
    rw [Test.tokens, numberTokens, Test.expr]
    split_ifs with hsign
    · obtain ⟨cs, hcs⟩ := List.head?_eq_some_iff.mp hsign
      rw [hcs]
      rfl
    · rfl
  | text field op value => cases field <;> cases op <;> rfl

def Test.item (t : Test) : Item := ⟨t.tokens, t.expr, parses_test t⟩

end Condition

theorem asciiLower_valid {s : GoString} (h : validString s = true) : asciiLower s = Cel.lowerAscii s := by
  obtain ⟨rs, hrs, rfl⟩ := exists_encode h
  rw [Cel.lowerAscii, runes_encode hrs, asciiLower]
  refine map_encode hrs ?_ ?_ ?_
  · decide
  · intro b hb
    refine if_neg fun hupper => ?_
    have hle := UInt8.le_iff_toNat_le.mp hupper.2
    simp only [UInt8.reduceToNat] at hle
    omega
  · intro r hr
    exact if_neg (by omega)

theorem scalars_lowered {rs : List ℕ} (h : Scalars rs) :
    Scalars (rs.map fun r => if 0x41 ≤ r ∧ r ≤ 0x5A then r + 0x20 else r) := by
  intro x hx
  obtain ⟨r, hr, rfl⟩ := List.mem_map.mp hx
  have hscalar := h r hr
  unfold Scalar at hscalar ⊢
  split_ifs <;> omega

theorem encode_runes_asciiLower {s : GoString} (h : validString s = true) :
    encode (runes (asciiLower s)) = Cel.lowerAscii s := by
  rw [asciiLower_valid h, Cel.lowerAscii, runes_encode (scalars_lowered (scalars_runes s))]

theorem isNaN_of_finite {bits : UInt64} (h : notFinite bits = false) : isNaN bits = false := by
  have hexp : bits.toNat / 2 ^ 52 % 2 ^ 11 ≠ 2 ^ 11 - 1 := by
    intro heq
    have hbits : bits / 2 ^ 52 % 2 ^ 11 = 2 ^ 11 - 1 := by
      apply UInt64.toNat_inj.mp
      rw [UInt64.toNat_mod, UInt64.toNat_div]
      exact heq
    simp [notFinite, hbits] at h
  have hlt := bits.toNat_lt
  simp only [isNaN, decide_eq_false_iff_not]
  omega

theorem vars_field (m : Email) (f : TextField) : vars m (codes f.name) = some (.str (f.of m)) := by
  cases f <;> rfl

section Evaluated

variable [RuleLibrary] [Host] [FloatLaws] (m : Email)

omit [RuleLibrary] [FloatLaws] in
theorem eval_folded (f : TextField) :
    eval (vars m) (.call (.ident (codes f.name)) (codes "lowerAscii")) =
      some (.str (Cel.lowerAscii (f.of m)), Host.identCost + Host.callCost (codes "lowerAscii")
        [.str (f.of m)]) := by
  simp only [eval, vars_field, Option.map_some]
  rfl

theorem eval_test {t : Test} (ht : t.Legal) (hm : notFinite m.spamScore = false) :
    eval (vars m) t.expr = some (.bool (t.holds m), t.cost m) := by
  cases t with
  | attachments same want =>
    have hvar : vars m (codes "hasAttachments") = some (.bool m.hasAttachments) := rfl
    have hrel : applyRel (if same then .eq else .ne) (.bool m.hasAttachments) (.bool want) =
        some ((m.hasAttachments == want) == same) := by
      generalize m.hasAttachments = b
      cases same <;> cases want <;> cases b <;> rfl
    simp only [Test.expr, eval, hvar, Option.map_some]
    simp [hrel, Test.holds, Test.cost]
  | score op number =>
    have hvar : vars m (codes "spamScore") = some (.double m.spamScore) := rfl
    have hliteral : Host.parseDouble (encode (runes (doubleLiteral number))) = some number := by
      rw [encode_runes_doubleLiteral ht, parse_doubleLiteral ht]
    simp only [Test.expr, eval, hvar, hliteral, Option.map_some]
    simp [applyRel, isNaN_of_finite ht, isNaN_of_finite hm, Test.holds, Test.cost]
  | text field op value =>
    have hx := encode_runes_asciiLower ht
    have hvalue : encode (runes value) = value := encode_runes ht
    have hfold := eval_folded m field
    cases op with
    | contains =>
      rw [Test.expr, eval, hfold, eval, hx]
      rfl
    | notContains =>
      rw [Test.expr, eval, eval, hfold, eval, hx]
      rfl
    | equals =>
      rw [Test.expr, eval, hfold, eval, hx]
      rfl
    | notEquals =>
      rw [Test.expr, eval, hfold, eval, hx]
      rfl
    | startsWith =>
      rw [Test.expr, eval, hfold, eval, hx]
      rfl
    | endsWith =>
      rw [Test.expr, eval, hfold, eval, hx]
      rfl
    | search =>
      simp only [Test.expr, eval, vars_field, hvalue, Option.map_some]
      rfl

end Evaluated

/-- A message as rules see it: its spam score is a finite number. -/
structure Readable where
  email : Email
  finite : notFinite email.spamScore = false

def decisive (mode : MatchMode) : Bool := Decidable.decide (mode = .any)

section Build

variable [RuleLibrary]

def jointCodes (stop : Bool) : Codes := if stop then [0x20, 0x7C, 0x7C, 0x20] else [0x20, 0x26, 0x26, 0x20]

def bracketCodes (t : Test) : Codes := 0x28 :: (t.codes ++ [0x29])

def furtherCodes (stop : Bool) (ts : List Test) : Codes :=
  ts.flatMap fun t => jointCodes stop ++ bracketCodes t

theorem scalars_callCodes {target : Codes} {method : String} (htarget : Scalars target)
    (hmethod : Scalars (methodCodes (codes method))) (value : GoString) :
    Scalars (callCodes target method value) :=
  Scalars.append_iff.mpr ⟨htarget, Scalars.append_iff.mpr ⟨hmethod,
    Scalars.append_iff.mpr ⟨scalars_quoted value, by decide⟩⟩⟩

theorem scalars_test (t : Test) : Scalars t.codes := by
  cases t with
  | attachments same want =>
    rw [Test.codes]
    cases same <;> cases want <;> decide
  | score op number =>
    have hstart : Scalars (codes "spamScore" ++ spaced op) := by cases op <;> decide
    rw [Test.codes, ← List.append_assoc]
    exact Scalars.append_iff.mpr ⟨hstart, scalars_runes _⟩
  | text field op value =>
    have hname : Scalars (codes field.name) := by cases field <;> decide
    have hfolded : Scalars (foldedCodes field) := Scalars.append_iff.mpr ⟨hname, by decide⟩
    have hcompare : ∀ r, Scalars
        (foldedCodes field ++ (spaced r ++ quotedCodes (asciiLower value))) := fun r =>
      Scalars.append_iff.mpr ⟨hfolded, Scalars.append_iff.mpr ⟨by cases r <;> decide, scalars_quoted _⟩⟩
    cases op with
    | contains => exact scalars_callCodes hfolded (by decide) _
    | notContains => exact Scalars.cons_iff.mpr ⟨by decide, scalars_callCodes hfolded (by decide) _⟩
    | equals => exact hcompare .eq
    | notEquals => exact hcompare .ne
    | startsWith => exact scalars_callCodes hfolded (by decide) _
    | endsWith => exact scalars_callCodes hfolded (by decide) _
    | search => exact scalars_callCodes hname (by decide) _

theorem scalars_bracketCodes (t : Test) : Scalars (bracketCodes t) :=
  Scalars.cons_iff.mpr ⟨by decide, Scalars.append_iff.mpr ⟨scalars_test t, by decide⟩⟩

theorem scalars_furtherCodes (stop : Bool) (ts : List Test) : Scalars (furtherCodes stop ts) := by
  intro r hr
  obtain ⟨t, -, hr⟩ := List.mem_flatMap.mp hr
  have hjoint : Scalars (jointCodes stop) := by cases stop <;> decide
  exact Scalars.append_iff.mpr ⟨hjoint, scalars_bracketCodes t⟩ r hr

theorem join_brackets (stop : Bool) (t : Test) (ts : List Test) :
    join ((t :: ts).map fun t => encode (bracketCodes t)) (encode (jointCodes stop)) =
      encode (bracketCodes t ++ furtherCodes stop ts) := by
  induction ts generalizing t with
  | nil =>
    rw [furtherCodes, List.flatMap_nil, List.append_nil]
    exact List.append_nil _
  | cons u ts ih =>
    have hsplit : furtherCodes stop (u :: ts) = jointCodes stop ++
        (bracketCodes u ++ furtherCodes stop ts) := by
      simp [furtherCodes]
    rw [hsplit, encode_append, encode_append, ← ih u]
    simp [join, List.intercalate]

section Tokens

variable [PrintLaws] [Host] [FloatLaws]

theorem reads_bracketCodes {t : Test} (ht : t.Legal) (tail : Codes) :
    Cel.Reads (bracketCodes t ++ tail) (bracketed t.item.tokens) tail := by
  have hsplit : bracketCodes t ++ tail = 0x28 :: (t.codes ++ 0x29 :: tail) := by simp [bracketCodes]
  rw [hsplit]
  have hopen : Cel.Reads (0x28 :: (t.codes ++ 0x29 :: tail)) [.sym .lparen] _ :=
    reads_sym (by decide) rfl (Nat.le_refl _)
  exact hopen.trans ((reads_test ht tail).trans (reads_rparen tail))

omit [RuleLibrary] [PrintLaws] [Host] [FloatLaws] in
theorem reads_jointCodes (stop : Bool) (tail : Codes) :
    Cel.Reads (jointCodes stop ++ tail) [jointSymbol stop] tail := by
  have hop : ∀ (r : ℕ) (s : Symbol), r ∈ symbolStarts → symbolAt (r :: r :: 0x20 :: tail) =
      some (s, 0x20 :: tail) →
      Cel.Reads (0x20 :: r :: r :: 0x20 :: tail) [.sym s] tail := fun r s hr hs =>
    (reads_space _).trans ((reads_sym hr hs (Nat.le_succ _)).trans (reads_space tail))
  cases stop with
  | false => exact hop 0x26 .and (by decide) rfl
  | true => exact hop 0x7C .or (by decide) rfl

theorem reads_furtherCodes (stop : Bool) {ts : List Test} (hts : ∀ t ∈ ts, t.Legal) :
    Cel.Reads (furtherCodes stop ts) (further stop (ts.map Test.item)) [] := by
  induction ts with
  | nil => exact fun rest hrest => hrest
  | cons t ts ih =>
    obtain ⟨ht, hts⟩ := List.forall_mem_cons.mp hts
    have hcodes : furtherCodes stop (t :: ts) = jointCodes stop ++
        (bracketCodes t ++ furtherCodes stop ts) := by
      simp [furtherCodes]
    have htokens : further stop ((t :: ts).map Test.item) =
        [jointSymbol stop] ++ (bracketed t.item.tokens ++ further stop (ts.map Test.item)) := by
      simp [further]
    rw [hcodes, htokens]
    exact (reads_jointCodes stop _).trans ((reads_bracketCodes ht _).trans (ih hts))

theorem read_joined (stop : Bool) {t : Test} {ts : List Test} (h : ∀ x ∈ t :: ts, x.Legal) :
    Cel.read (join ((t :: ts).map fun t => encode (bracketCodes t)) (encode (jointCodes stop))) =
      some ((ts.map Test.expr).foldl (joint stop) t.expr) := by
  obtain ⟨ht, hts⟩ := List.forall_mem_cons.mp h
  have hscalars : Scalars (bracketCodes t ++ furtherCodes stop ts) :=
    Scalars.append_iff.mpr ⟨scalars_bracketCodes t, scalars_furtherCodes stop ts⟩
  have hlex := ((reads_bracketCodes ht _).trans (reads_furtherCodes stop hts)).lex
  rw [Cel.read, join_brackets, runes_encode hscalars, hlex, Option.bind_some, parse_joined, List.map_map]
  rfl

end Tokens

end Build

section Accepted

variable [GoLibrary] [RuleLibrary] [Host]

/-- The conditions as tests. -/
def tests (conds : List Condition) : Option (List Test) := conds.mapM readCondition

/-- The tests joined: any of them holds, or all do. -/
def reading (mode : MatchMode) (ts : List Test) (m : Email) : Bool :=
  match mode with
  | .any => ts.any fun t => t.holds m
  | _ => ts.all fun t => t.holds m

/-- What CEL charges for the tests, up to the one that decides. -/
def charged (mode : MatchMode) (ts : List Test) (m : Email) : ℕ :=
  spent (decisive mode) (ts.map fun t => (t.holds m, t.cost m))

omit [GoLibrary] [RuleLibrary] in
theorem joined_eq_reading (mode : MatchMode) (ts : List Test) (m : Email) :
    joined (decisive mode) (ts.map fun t => t.holds m) = reading mode ts m := by
  have hany : joined true (ts.map fun t => t.holds m) = ts.any fun t => t.holds m := by
    rw [Bool.eq_iff_iff, List.any_eq_true]
    simp [joined]
  have hall : joined false (ts.map fun t => t.holds m) = ts.all fun t => t.holds m := by
    rw [Bool.eq_iff_iff, List.all_eq_true]
    simp [joined]
  cases mode with
  | any => exact hany
  | all => exact hall
  | unset => exact hall
  | other text => exact hall

variable [FloatLaws]

omit [GoLibrary] in
theorem eval_joined {t : Test} {ts : List Test} (h : ∀ x ∈ t :: ts, x.Legal) (mode : MatchMode)
    (m : Readable) :
    eval (vars m.email) ((ts.map Test.expr).foldl (joint (decisive mode)) t.expr) =
      some (.bool (reading mode (t :: ts) m.email), charged mode (t :: ts) m.email) := by
  obtain ⟨ht, hts⟩ := List.forall_mem_cons.mp h
  have hparts : List.Forall₂ (fun x v => eval (vars m.email) x = some (.bool v.1, v.2)) (ts.map Test.expr)
      (ts.map fun t => (t.holds m.email, t.cost m.email)) := by
    rw [List.forall₂_map_left_iff, List.forall₂_map_right_iff, List.forall₂_same]
    exact fun x hx => eval_test m.email (hts x hx) m.finite
  rw [eval_foldl_joint hparts (eval_test m.email ht m.finite), ← joined_eq_reading, List.map_map]
  rfl

theorem buildExpression_tests {match_ source : GoString} {conds : List Condition}
    (h : buildExpression match_ conds = .ok source) :
    ∃ mode t ts, normalizeMatch match_ = .ok mode ∧ tests conds = some (t :: ts) ∧
    (∀ x ∈ t :: ts, x.Legal) ∧
      source = join ((t :: ts).map fun t => encode (bracketCodes t))
        (encode (jointCodes (decisive mode))) := by
  unfold buildExpression at h
  obtain ⟨mode, hmode, h⟩ := bind_eq_ok.mp h
  have hsep : (if mode = .any then goString " || " else goString " && ") =
      encode (jointCodes (decisive mode)) := by
    unfold decisive
    split_ifs with hany
    · rw [decide_eq_true hany]
      decide
    · rw [decide_eq_false hany]
      decide
  rw [hsep] at h
  split_ifs at h with hconds
  obtain ⟨parts, hparts, h⟩ := bind_eq_ok.mp h
  obtain ⟨ts, hts, hlegal, rfl⟩ := conditionExprs_reads hparts
  cases ts with
  | nil =>
    cases conds with
    | nil => exact absurd rfl hconds
    | cons c cs =>
      rw [List.mapM_cons] at hts
      obtain ⟨t, -, hts⟩ := Option.bind_eq_some_iff.mp hts
      obtain ⟨ts, -, hts⟩ := Option.bind_eq_some_iff.mp hts
      cases hts
  | cons t ts =>
    exact ⟨mode, t, ts, hmode, hts, hlegal, (Except.ok.inj h).symm⟩

variable [PrintLaws]

end Accepted

@[reducible] def plainHost : Host where
  parseDouble := plainFloat
  search _ _ := false
  identCost := 1
  callCost f
    | [.str s, .str x] =>
      if f = codes "contains" then ((runeCount s + 9) / 10) * ((runeCount x + 9) / 10)
      else if f = codes "matches" then ((runeCount s + 10) / 10) * ((runeCount x + 3) / 4)
      else (runeCount s + 9) / 10
    | [.str s] => (runeCount s + 9) / 10
    | _ => 1
  relCost _
    | .str s, .str x => (min (runeCount s) (runeCount x) + 9) / 10
    | _, _ => 1
  notCost := 1

theorem encode_replicate_letter (n : ℕ) : encode (List.replicate n 0x61) = List.replicate n 0x61 := by
  induction n with
  | zero => rfl
  | succ n ih =>
    rw [List.replicate_succ, encode_cons, ih]
    rfl

theorem scalars_replicate_letter (n : ℕ) : Scalars (List.replicate n 0x61) := by
  intro r hr
  rw [List.eq_of_mem_replicate hr]
  decide

theorem lowerAscii_replicate_letter (n : ℕ) :
    Cel.lowerAscii (List.replicate n 0x61) = List.replicate n 0x61 := by
  have hrunes := runes_encode (scalars_replicate_letter n)
  rw [encode_replicate_letter] at hrunes
  rw [Cel.lowerAscii, hrunes, List.map_replicate, if_neg (by decide), encode_replicate_letter]

theorem runeCount_replicate_letter (n : ℕ) : runeCount (List.replicate n 0x61) = n := by
  have hcount := runeCount_encode (scalars_replicate_letter n)
  rwa [encode_replicate_letter, List.length_replicate] at hcount

theorem decimalDigit {n : ℕ} (h : n < 10) :
    isDigit (0x30 + n.toUInt8).toNat = true ∧ digitValue 10 (0x30 + n.toUInt8).toNat = some n := by
  interval_cases n <;> decide

theorem isDigit_decimalPad (w n : ℕ) : ∀ b ∈ decimalPad w n, isDigit b.toNat = true := by
  induction w generalizing n with
  | zero => exact fun b hb => absurd hb List.not_mem_nil
  | succ w ih =>
    intro b hb
    rcases List.mem_append.mp hb with hb | hb
    · exact ih _ b hb
    · rw [List.mem_singleton.mp hb]
      exact (decimalDigit (Nat.mod_lt n (by decide))).1

theorem numeral_decimalPad (w n : ℕ) :
    numeral 10 ((decimalPad w n).map UInt8.toNat) = some (n % 10 ^ w) := by
  induction w generalizing n with
  | zero =>
    rw [pow_zero, Nat.mod_one]
    rfl
  | succ w ih =>
    rw [decimalPad, List.map_append, List.map_singleton, numeral_concat, ih,
      (decimalDigit (Nat.mod_lt n (by decide))).2, pow_succ', Nat.mod_mul, Option.bind_some,
      Option.map_some, Option.some.injEq]
    omega

theorem digits_decimalPad (w n : ℕ) : Digits ((decimalPad (w + 1) n).map UInt8.toNat) := by
  refine ⟨by simp [decimalPad], fun r hr => ?_⟩
  obtain ⟨b, hb, rfl⟩ := List.mem_map.mp hr
  exact isDigit_decimalPad _ _ b hb

theorem numeral_bits (v : UInt64) :
    ((numeral 10 ((decimalPad 20 v.toNat).map UInt8.toNat)).bind fun n => if n < 2 ^ 64 then
      some (UInt64.ofNat n) else none) =
      some v := by
  have hlt := v.toNat_lt
  rw [numeral_decimalPad, Nat.mod_eq_of_lt (by omega), Option.bind_some, if_pos hlt, UInt64.ofNat_toNat]

theorem decimalPad_ne_nil (w n : ℕ) : (decimalPad (w + 1) n).isEmpty = false := by simp [decimalPad]

theorem floatLaws_plain : @FloatLaws plainRules plainHost := by
  let := plainRules
  let := plainHost
  have hdigits : ∀ v : UInt64, Digits ((decimalPad 20 v.toNat).map UInt8.toNat) :=
    fun v => digits_decimalPad 19 _
  have hencode : ∀ v : UInt64, encode ((decimalPad 20 v.toNat).map UInt8.toNat) =
      decimalPad 20 v.toNat := by
    intro v
    refine encode_map_toNat fun b hb => ?_
    have hascii := Digits.ascii (hdigits v) b.toNat (List.mem_map_of_mem hb)
    exact UInt8.lt_iff_toNat_lt.mpr hascii
  have hpoint : ∀ v : UInt64, hasPrefix (decimalPad 20 v.toNat).reverse [0x30, 0x2E] = false := by
    intro v
    by_contra h
    have hpre := List.isPrefixOf_iff_prefix.mp (Bool.eq_true_of_not_eq_false h)
    have hmem : 0x2E ∈ (decimalPad 20 v.toNat).reverse := hpre.subset (by decide)
    exact absurd (isDigit_decimalPad _ _ _ (List.mem_reverse.mp hmem)) (by decide)
  refine ⟨?_, ?_, ?_, fun s => rfl⟩
  · intro v _
    refine ⟨_, ⟨⟨[], _, [], [], .inl rfl, hdigits v, .inl rfl, .inl rfl, ?_⟩⟩, (hencode v).symm⟩
    simp
  · intro v _
    change plainFloat (decimalPad 20 v.toNat) = some v
    rw [plainFloat, hpoint v, if_neg Bool.false_ne_true, decimalPad_ne_nil 19, if_neg Bool.false_ne_true]
    exact numeral_bits v
  · intro v _ _
    have hzero : goString ".0" = [0x2E, 0x30] := by decide
    have hadded : hasPrefix (decimalPad 20 v.toNat ++ [0x2E, 0x30]).reverse [0x30, 0x2E] =
      true := by simp [hasPrefix]
    have htake : (decimalPad 20 v.toNat ++ [0x2E, 0x30]).take
        ((decimalPad 20 v.toNat ++ [0x2E, 0x30]).length - 2) =
        decimalPad 20 v.toNat := by
      simp
    change plainFloat (decimalPad 20 v.toNat ++ goString ".0") = some v
    rw [plainFloat, hzero, hadded, if_pos rfl, htake, decimalPad_ne_nil 19, if_neg Bool.false_ne_true]
    exact numeral_bits v

def longWord : Condition := ⟨"body", "contains", List.replicate 151 0x61⟩

def longMail : Readable where
  email := ⟨[], List.replicate (2 ^ 16) 0x61, [], [], [], [], false, 0⟩
  finite := by decide

theorem cost_letters {m : Email} {k : ℕ} (hbody : TextField.of m .body = List.replicate k 0x61) (n : ℕ) :
    @Test.cost plainHost m (.text .body .contains (List.replicate n 0x61)) =
      1 + (k + 9) / 10 + ((k + 9) / 10) * ((n + 9) / 10) := by
  have hcall : ∀ s t : GoString, @Host.callCost plainHost (codes "contains") [.str s, .str t] =
      ((runeCount s + 9) / 10) * ((runeCount t + 9) / 10) := fun _ _ => rfl
  have hlower : ∀ s : GoString, @Host.callCost plainHost (codes "lowerAscii") [.str s] =
      (runeCount s + 9) / 10 :=
    fun _ => rfl
  simp only [Test.cost, hbody, lowerAscii_replicate_letter, hcall, hlower, runeCount_replicate_letter]
  rfl

theorem cost_longWord :
    @Test.cost plainHost longMail.email (.text .body .contains (List.replicate 151 0x61)) = 1 +
    6554 + 6554 * 16 := by
  have hlen : (List.replicate (2 ^ 16) (0x61 : UInt8)).length ≤ maxBodyEval := by
    rw [List.length_replicate, maxBodyEval]
  have hwhole : ∀ s : GoString, s.length ≤ maxBodyEval → truncate s maxBodyEval = s := fun _ h => if_pos h
  have hbody : TextField.of longMail.email .body = List.replicate (2 ^ 16) 0x61 := hwhole _ hlen
  exact cost_letters hbody 151

-- an invoice that is not a reminder
def invoiceRule : List Condition :=
  [⟨"subject", "contains", "INVOICE"⟩, ⟨"from", "ends_with", "@Example.com"⟩,
    ⟨"body", "not_contains", "\"final\"\n"⟩]

def invoiceTests : List Test :=
  [.text .subject .contains "INVOICE", .text .fromAddress .endsWith "@Example.com",
    .text .body .notContains "\"final\"\n"]

def invoiceSource : GoString :=
  goString "(subject.lowerAscii().contains(\"invoice\")) && " ++
    goString "(from.lowerAscii().endsWith(\"@example.com\")) && " ++
    goString "(!body.lowerAscii().contains(\"\\\"final\\\"\\u000a\"))"

def invoiceMail : Readable where
  email := ⟨"Your invoice 42", "See the attachment.", "billing@example.com", "Billing", "s@x",
    "example.com", true, 0⟩
  finite := by decide

end TangraTicket.Services.Rules
