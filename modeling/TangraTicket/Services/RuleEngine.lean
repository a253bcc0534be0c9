import Mathlib.Data.UInt
import TangraTicket.Cel.Expression
import TangraTicket.Services.Rules

/-!
The rule language (`internal/rules/engine.go`): conditions rendered as one CEL expression, and its
compilation. CEL itself, regular expressions and the printing of floats are the libraries' own.
-/

namespace TangraTicket.Services.Rules

open GoText Store

def maxConditions : ℕ := 50
def maxValueLen : ℕ := 1000
def maxExpressionLen : ℕ := 4096
def maxErrorLen : ℕ := 500

structure CelType where
  isBool : Bool
  text : GoString

/-- What the libraries answer: `strconv.ParseFloat` and `FormatFloat` on the bits of a float,
`unicode.IsPrint`, the error of `regexp.Compile`, and CEL's check of an expression and its building
of the program. -/
class RuleLibrary where
  parseFloat : GoString → Option UInt64
  formatFloat : UInt64 → GoString
  isPrint : ℕ → Bool
  regexpError : GoString → Option GoString
  celCompile : GoString → Except GoString CelType
  celProgram : GoString → Except GoString Unit

def defaultCostLimit : ℕ := 100000

/-- The variables an expression sees. -/
def vars (m : Email) : Cel.Codes → Option Cel.Value := fun x =>
  [(Cel.codes "subject", Cel.Value.str m.subject), (Cel.codes "body", .str (truncate m.body maxBodyEval)),
    (Cel.codes "from", .str m.fromAddress), (Cel.codes "fromName", .str m.fromName),
    (Cel.codes "recipient", .str m.recipient), (Cel.codes "fromDomain", .str m.fromDomain),
    (Cel.codes "hasAttachments", .bool m.hasAttachments),
    (Cel.codes "spamScore", .double m.spamScore)].lookup x

/-- A rule refused when it is saved or compiled. -/
structure InvalidError where
  field : GoString
  msg : GoString
deriving DecidableEq

def invalid (field msg : GoString) : InvalidError := ⟨field, truncate msg maxErrorLen⟩

def textFields : List GoString := ["subject", "body", "from", "fromName", "recipient", "fromDomain"]

def textOperators : List GoString :=
  ["contains", "not_contains", "equals", "not_equals", "starts_with", "ends_with", "matches"]

def boolOperators : List GoString := ["equals", "not_equals", "eq", "neq"]

def numericOps : List (GoString × GoString) :=
  [("gt", ">"), ("gte", ">="), ("lt", "<"), ("lte", "<="), ("eq", "=="), ("neq", "!=")]

def asciiLower (s : GoString) : GoString := s.map fun b => if 0x41 ≤ b ∧ b ≤ 0x5A then b + 0x20 else b

def hexDigit (n : ℕ) : UInt8 := if n < 10 then 0x30 + n.toUInt8 else 0x57 + n.toUInt8

/-- `%0wx` of a number below `16 ^ w`. -/
def hexPad : ℕ → ℕ → GoString
  | 0, _ => []
  | w + 1, n => hexPad w (n / 16) ++ [hexDigit (n % 16)]

def notFinite (bits : UInt64) : Bool := bits / 2 ^ 52 % 2 ^ 11 = 2 ^ 11 - 1

section Render

variable [RuleLibrary]

def quoteRune (r : ℕ) : GoString :=
  if r = 0x5C then [0x5C, 0x5C]
  else if r = 0x22 then [0x5C, 0x22]
  else if r < 0x80 ∧ RuleLibrary.isPrint r then encodeRune r
  else if r ≥ 0x80 ∧ RuleLibrary.isPrint r ∧ r ≠ 0x2028 ∧ r ≠ 0x2029 then encodeRune r
  else if r ≤ 0xFFFF then [0x5C, 0x75] ++ hexPad 4 r
  else [0x5C, 0x55] ++ hexPad 8 r

/-- A CEL string literal. -/
def quote (s : GoString) : GoString := [0x22] ++ (runes s).flatMap quoteRune ++ [0x22]

def doubleLiteral (v : UInt64) : GoString :=
  let lit := RuleLibrary.formatFloat v
  if containsAny lit ".eE" then lit else lit ++ goString ".0"

variable [GoLibrary]

def attachmentsExpr (at_ op : GoString) (c : Condition) : Except InvalidError GoString :=
  if op ≠ [] ∧ op ∉ boolOperators then
    .error (invalid (at_ ++ goString ".operator")
      (GoLibrary.quote c.operator ++ goString " is not an operator of hasAttachments (equals, not_equals)"))
  else
    let v := toLower (trimSpace c.value)
    let cmp : GoString := if op = goString "not_equals" ∨ op = goString "neq" then " != " else " == "
    if v = [] ∨ v = goString "true" then .ok (goString "hasAttachments" ++ cmp ++ goString "true")
    else if v = goString "false" then .ok (goString "hasAttachments" ++ cmp ++ goString "false")
    else .error (invalid (at_ ++ goString ".value") "hasAttachments takes true or false")

def spamExpr (at_ op : GoString) (c : Condition) : Except InvalidError GoString :=
  match numericOps.lookup op with
  | none =>
    .error (invalid (at_ ++ goString ".operator")
      (GoLibrary.quote c.operator ++ goString " is not a numeric operator (gt, gte, lt, lte, eq, neq)"))
  | some sym =>
    match (RuleLibrary.parseFloat (trimSpace c.value)).filter (fun v => !notFinite v) with
    | none => .error (invalid (at_ ++ goString ".value") "spamScore takes a number")
    | some v => .ok (goString "spamScore " ++ sym ++ goString " " ++ doubleLiteral v)

def textExpr (at_ field op : GoString) (c : Condition) : Except InvalidError GoString :=
  if field ∉ textFields then
    .error (invalid (at_ ++ goString ".field") (goString "unknown field " ++ GoLibrary.quote c.field))
  else if op ∉ textOperators then
    .error (invalid (at_ ++ goString ".operator")
      (GoLibrary.quote c.operator ++ goString " is not a text operator"))
  else if c.value = [] ∧ op ≠ goString "equals" ∧ op ≠ goString "not_equals" then
    .error (invalid (at_ ++ goString ".value") "a value is required")
  else if op = goString "matches" then
    match RuleLibrary.regexpError c.value with
    | some e => .error (invalid (at_ ++ goString ".value") (goString "invalid pattern: " ++ e))
    | none => .ok (field ++ goString ".matches(" ++ quote c.value ++ goString ")")
  else
    let lf := field ++ goString ".lowerAscii()"
    let lv := quote (asciiLower c.value)
    .ok (if op = goString "contains" then lf ++ goString ".contains(" ++ lv ++ goString ")"
      else if op = goString "not_contains" then goString "!" ++ lf ++ goString ".contains(" ++
      lv ++ goString ")"
      else if op = goString "equals" then lf ++ goString " == " ++ lv
      else if op = goString "not_equals" then lf ++ goString " != " ++ lv
      else if op = goString "starts_with" then lf ++ goString ".startsWith(" ++ lv ++ goString ")"
      else lf ++ goString ".endsWith(" ++ lv ++ goString ")")

def conditionExpr (i : ℕ) (c : Condition) : Except InvalidError GoString :=
  let field := trimSpace c.field
  let op := toLower (trimSpace c.operator)
  let at_ := goString "conditions[" ++ decimal i ++ goString "]"
  if ¬ validString c.value then .error (invalid (at_ ++ goString ".value") "must be valid UTF-8")
  else if c.value.length > maxValueLen then
    .error (invalid (at_ ++ goString ".value") (goString "longer than " ++ decimal maxValueLen ++
      goString " bytes"))
  else if field = goString "hasAttachments" then attachmentsExpr at_ op c
  else if field = goString "spamScore" then spamExpr at_ op c
  else textExpr at_ field op c

def normalizeMatch (match_ : GoString) : Except InvalidError MatchMode :=
  let m := toLower (trimSpace match_)
  if m = [] ∨ m = goString "all" then .ok .all
  else if m = goString "any" then .ok .any
  else .error (invalid "match" "must be all or any")

/-- The conditions from the `i`-th on, each in brackets. -/
def conditionExprs : ℕ → List Condition → Except InvalidError (List GoString)
  | _, [] => .ok []
  | i, c :: cs => do
    let e ← conditionExpr i c
    let es ← conditionExprs (i + 1) cs
    pure ((goString "(" ++ e ++ goString ")") :: es)

def buildExpression (match_ : GoString) (conds : List Condition) : Except InvalidError GoString := do
  let m ← normalizeMatch match_
  if conds = [] then .error (invalid "conditions" "add at least one condition or an expression")
  else if conds.length > maxConditions then
    .error (invalid "conditions" (goString "at most " ++ decimal maxConditions ++ goString " conditions"))
  else do
    let parts ← conditionExprs 0 conds
    pure (join parts (if m = .any then goString " || " else goString " && "))

def effective (r : Rule) : Except InvalidError GoString :=
  let x := trimSpace r.expression
  if x ≠ [] then
    if r.expression.length > maxExpressionLen then
      .error (invalid "expression" (goString "longer than " ++ decimal maxExpressionLen ++
        goString " bytes"))
    else if ¬ validString x then .error (invalid "expression" "must be valid UTF-8")
    else .ok x
  else buildExpression r.matchMode.text r.conditions

/-- A compiled, type-checked rule. -/
structure Program where
  expr : GoString
  version : ℤ
deriving DecidableEq

def compile (r : Rule) : Except InvalidError Program := do
  let expr ← effective r
  let field : GoString := if trimSpace r.expression = [] then "conditions" else "expression"
  match RuleLibrary.celCompile expr with
  | .error issues => .error (invalid field issues)
  | .ok type =>
    if type.isBool = false then
      .error (invalid field (goString "must evaluate to true or false, not " ++ type.text))
    else
      match RuleLibrary.celProgram expr with
      | .error e => .error (invalid field e)
      | .ok () => .ok ⟨expr, r.version⟩

end Render

end TangraTicket.Services.Rules
