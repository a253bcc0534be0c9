import TangraTicket.Cel.Lexer
import TangraTicket.Library.GoScalars

/-!
Expressions of the Common Expression Language over strings, doubles and booleans: the grammar of
comparisons, method calls and logical operators, and their evaluation with its cost. An expression
that uses anything else is not read; one whose operands do not fit has no value.
-/

namespace TangraTicket.Cel

open GoText

inductive Expr
  | str (value : Codes)
  | double (text : Codes)
  | bool (b : Bool)
  | ident (name : Codes)
  | call (target : Expr) (method : Codes)
  | callWith (target : Expr) (method : Codes) (arg : Expr)
  | not (e : Expr)
  | rel (op : RelOp) (l r : Expr)
  | and (l r : Expr)
  | or (l r : Expr)
deriving DecidableEq

abbrev Reader := List Token → Option (Expr × List Token)

def codes (s : String) : Codes := s.toList.map Char.toNat

def reserved : List Codes :=
  ["as", "break", "const", "continue", "else", "for", "function", "if", "import", "in", "let",
    "loop", "namespace", "null", "package", "return", "var", "void", "while"].map codes

def nameExpr (x : Codes) : Option Expr :=
  if x = codes "true" then some (.bool true)
  else if x = codes "false" then some (.bool false)
  else if x ∈ reserved then none
  else some (.ident x)

def primary (sub : Reader) : Reader
  | .sym .lparen :: ts =>
    match sub ts with
    | some (e, .sym .rparen :: rest) => some (e, rest)
    | _ => none
  | .str v :: ts => some (.str v, ts)
  | .float text :: ts => some (.double text, ts)
  | .sym .minus :: .float text :: ts => some (.double (0x2D :: text), ts)
  | .ident x :: ts => (nameExpr x).map fun e => (e, ts)
  | _ => none

def members (sub : Reader) : ℕ → Expr → Reader
  | 0, _, _ => none
  | fuel + 1, e, .sym .dot :: .ident f :: .sym .lparen :: .sym .rparen :: ts =>
    members sub fuel (.call e f) ts
  | fuel + 1, e, .sym .dot :: .ident f :: .sym .lparen :: ts =>
    match sub ts with
    | some (a, .sym .rparen :: rest) => members sub fuel (.callWith e f a) rest
    | _ => none
  | _ + 1, e, ts => some (e, ts)

def unary (sub : Reader) : Reader
  | .sym .bang :: ts => (unary sub ts).map fun r => (.not r.1, r.2)
  | ts =>
    match primary sub ts with
    | some (e, rest) => members sub (rest.length + 1) e rest
    | none => none

def chain (item : Reader) (op : Token → Option (Expr → Expr → Expr)) : ℕ → Expr → Reader
  | 0, _, _ => none
  | _ + 1, e, [] => some (e, [])
  | fuel + 1, e, t :: ts =>
    match op t with
    | none => some (e, t :: ts)
    | some f =>
      match item ts with
      | some (e', rest) => chain item op fuel (f e e') rest
      | none => none

def chained (item : Reader) (op : Token → Option (Expr → Expr → Expr)) : Reader := fun ts =>
  match item ts with
  | some (e, rest) => chain item op (rest.length + 1) e rest
  | none => none

def relOf : Token → Option (Expr → Expr → Expr)
  | .sym (.rel op) => some (.rel op)
  | _ => none

def andOf : Token → Option (Expr → Expr → Expr)
  | .sym .and => some .and
  | _ => none

def orOf : Token → Option (Expr → Expr → Expr)
  | .sym .or => some .or
  | _ => none

def relation (sub : Reader) : Reader := chained (unary sub) relOf

def conjunction (sub : Reader) : Reader := chained (relation sub) andOf

/-- An expression nested at most `depth` deep. -/
def expression : ℕ → Reader
  | 0 => fun _ => none
  | depth + 1 => chained (conjunction (expression depth)) orOf

def parse (ts : List Token) : Option Expr :=
  match expression (ts.length + 1) ts with
  | some (e, []) => some e
  | _ => none

/-- The expression a source text stands for. -/
def read (source : GoString) : Option Expr := (lex (runes source)).bind parse

inductive Value
  | str (s : GoString)
  | double (bits : UInt64)
  | bool (b : Bool)
deriving DecidableEq

/-- What the host gives: the reading of a double literal, the search for a regular expression, and
what each operation costs. -/
class Host where
  parseDouble : GoString → Option UInt64
  search : (pattern text : GoString) → Bool
  identCost : ℕ
  callCost : Codes → List Value → ℕ
  relCost : RelOp → Value → Value → ℕ
  notCost : ℕ

def isNaN (bits : UInt64) : Bool := bits.toNat % 2 ^ 63 > 0x7FF * 2 ^ 52

def rank (bits : UInt64) : ℤ :=
  if bits.toNat < 2 ^ 63 then bits.toNat else -((bits.toNat - 2 ^ 63 : ℕ) : ℤ)

def compareNumbers (op : RelOp) (x y : UInt64) : Bool :=
  match op with
  | .eq => rank x = rank y
  | .ne => rank x ≠ rank y
  | .lt => rank x < rank y
  | .le => rank x ≤ rank y
  | .gt => rank x > rank y
  | .ge => rank x ≥ rank y

def lowerAscii (s : GoString) : GoString :=
  encode ((runes s).map fun r => if 0x41 ≤ r ∧ r ≤ 0x5A then r + 0x20 else r)

def hasSuffix (s suffix : GoString) : Bool := suffix.isSuffixOf s

def applyMethod [Host] (f : Codes) : Value → Option Value
  | .str s => if f = codes "lowerAscii" then some (.str (lowerAscii s)) else none
  | _ => none

def applyMethodTo [Host] (f : Codes) : Value → Value → Option Value
  | .str s, .str x =>
    if f = codes "contains" then some (.bool (contains s x))
    else if f = codes "startsWith" then some (.bool (hasPrefix s x))
    else if f = codes "endsWith" then some (.bool (hasSuffix s x))
    else if f = codes "matches" then some (.bool (Host.search x s))
    else none
  | _, _ => none

def applyRel (op : RelOp) : Value → Value → Option Bool
  | .double x, .double y => if isNaN x || isNaN y then none else some (compareNumbers op x y)
  | .str x, .str y => if op = .eq then some (x = y) else if op = .ne then some (x ≠ y) else none
  | .bool x, .bool y => if op = .eq then some (x = y) else if op = .ne then some (x ≠ y) else none
  | _, _ => none

section Eval

variable [Host] (env : Codes → Option Value)

def eval : Expr → Option (Value × ℕ)
  | .str v => some (.str (encode v), 0)
  | .double text => (Host.parseDouble (encode text)).map fun v => (.double v, 0)
  | .bool b => some (.bool b, 0)
  | .ident x => (env x).map fun v => (v, Host.identCost)
  | .call target f => do
    let t ← eval target
    let v ← applyMethod f t.1
    pure (v, t.2 + Host.callCost f [t.1])
  | .callWith target f arg => do
    let t ← eval target
    let a ← eval arg
    let v ← applyMethodTo f t.1 a.1
    pure (v, t.2 + a.2 + Host.callCost f [t.1, a.1])
  | .not e =>
    match eval e with
    | some (.bool b, c) => some (.bool (!b), c + Host.notCost)
    | _ => none
  | .rel op l r => do
    let x ← eval l
    let y ← eval r
    let b ← applyRel op x.1 y.1
    pure (.bool b, x.2 + y.2 + Host.relCost op x.1 y.1)
  | .and l r =>
    match eval l with
    | some (.bool true, c) => (eval r).map fun v => (v.1, c + v.2)
    | some (.bool false, c) => some (.bool false, c)
    | _ => none
  | .or l r =>
    match eval l with
    | some (.bool false, c) => (eval r).map fun v => (v.1, c + v.2)
    | some (.bool true, c) => some (.bool true, c)
    | _ => none

/-- The value, unless its cost goes over the limit. -/
def evalWithin (limit : ℕ) (e : Expr) : Option Value :=
  match eval env e with
  | some (v, cost) => if cost ≤ limit then some v else none
  | none => none

end Eval

def joint (stop : Bool) : Expr → Expr → Expr := if stop then .or else .and

def jointSymbol (stop : Bool) : Token := .sym (if stop then .or else .and)

def bracketed (ts : List Token) : List Token := .sym .lparen :: (ts ++ [Token.sym .rparen])

structure Item where
  tokens : List Token
  expr : Expr
  parses : ∀ depth rest,
    expression (depth + 2) (tokens ++ .sym .rparen :: rest) = some (expr, .sym .rparen :: rest)

section Joined

variable {stop : Bool} {rest : List Token}

theorem chain_stop {item : Reader} {op : Token → Option (Expr → Expr → Expr)} (fuel : ℕ) (e : Expr)
    (h : ∀ t ∈ rest.head?, op t = none) : chain item op (fuel + 1) e rest = some (e, rest) := by
  cases rest with
  | nil => rfl
  | cons t ts => rw [chain, h t rfl]

theorem chained_stop {item : Reader} {op : Token → Option (Expr → Expr → Expr)} {ts : List Token} {e : Expr}
    (hts : item ts = some (e, rest)) (h : ∀ t ∈ rest.head?, op t = none) :
    chained item op ts = some (e, rest) := by
  rw [chained, hts]
  exact chain_stop _ e h

/-- Only a logical operator follows the item. -/
def Closed (rest : List Token) : Prop := ∀ t ∈ rest.head?, t = .sym .and ∨ t = .sym .or

theorem relation_item (x : Item) (depth : ℕ) (h : Closed rest) :
    relation (expression (depth + 2)) (bracketed x.tokens ++ rest) = some (x.expr, rest) := by
  have hprimary : primary (expression (depth + 2)) (bracketed x.tokens ++ rest) = some (x.expr, rest) := by
    have htokens : bracketed x.tokens ++ rest = .sym .lparen ::
      (x.tokens ++ .sym .rparen :: rest) := by simp [bracketed]
    rw [htokens, primary, x.parses]
  have hmembers : members (expression (depth + 2)) (rest.length + 1) x.expr rest = some (x.expr, rest) := by
    cases rest with
    | nil => rfl
    | cons t ts => rcases h t rfl with rfl | rfl <;> rfl
  have hunary : unary (expression (depth + 2)) (bracketed x.tokens ++ rest) = some (x.expr, rest) := by
    rw [bracketed, List.cons_append] at hprimary ⊢
    rw [unary, hprimary]
    exacts [hmembers, nofun]
  refine chained_stop hunary fun t ht => ?_
  rcases h t ht with rfl | rfl <;> rfl

def further (stop : Bool) (xs : List Item) : List Token :=
  xs.flatMap fun x => jointSymbol stop :: bracketed x.tokens

theorem closed_further (stop : Bool) (xs : List Item) : Closed (further stop xs) := by
  intro t ht
  cases xs with
  | nil => cases ht
  | cons x xs =>
    cases ht
    cases stop
    · exact .inl rfl
    · exact .inr rfl

theorem further_head (stop : Bool) (xs : List Item) :
    ∀ t ∈ (further stop xs).head?, t = jointSymbol stop := by
  intro t ht
  cases xs with
  | nil => cases ht
  | cons x xs => exact (Option.some.inj ht).symm

theorem chain_further {item : Reader} {op : Token → Option (Expr → Expr → Expr)}
    (hop : op (jointSymbol stop) = some (joint stop)) (xs : List Item)
    (hitem : ∀ (x : Item) (ys : List Item), item (bracketed x.tokens ++ further stop ys) =
      some (x.expr, further stop ys))
    {fuel : ℕ} (hfuel : xs.length < fuel) (e : Expr) :
    chain item op fuel e (further stop xs) = some ((xs.map Item.expr).foldl (joint stop) e, []) := by
  induction xs generalizing fuel e with
  | nil =>
    obtain ⟨fuel, rfl⟩ := Nat.exists_eq_succ_of_ne_zero (Nat.ne_zero_of_lt hfuel)
    rfl
  | cons x xs ih =>
    obtain ⟨fuel, rfl⟩ := Nat.exists_eq_succ_of_ne_zero (Nat.ne_zero_of_lt hfuel)
    rw [List.length_cons, Nat.succ_lt_succ_iff] at hfuel
    have hsplit : further stop (x :: xs) = jointSymbol stop :: (bracketed x.tokens ++ further stop xs) := by
      simp [further]
    rw [hsplit, chain, hop]
    simp only [hitem]
    exact ih hfuel _

theorem length_le_further (stop : Bool) (xs : List Item) : xs.length ≤ (further stop xs).length := by
  induction xs with
  | nil => exact Nat.zero_le _
  | cons x xs ih =>
    have hsplit : further stop (x :: xs) = jointSymbol stop :: (bracketed x.tokens ++ further stop xs) := by
      simp [further]
    rw [hsplit, List.length_cons, List.length_cons, List.length_append]
    omega

theorem expression_joined (stop : Bool) (x : Item) (xs : List Item) (depth : ℕ) :
    expression (depth + 3) (bracketed x.tokens ++ further stop xs) =
      some ((xs.map Item.expr).foldl (joint stop) x.expr, []) := by
  have hfuel : xs.length < (further stop xs).length + 1 := Nat.lt_succ_of_le (length_le_further stop xs)
  rw [expression]
  cases stop with
  | false =>
    refine chained_stop ?_ (by simp)
    rw [conjunction, chained, relation_item x depth (closed_further _ xs)]
    exact chain_further rfl xs (fun y ys => relation_item y depth (closed_further _ ys)) hfuel x.expr
  | true =>
    have hitem : ∀ (y : Item) (ys : List Item), conjunction (expression (depth + 2))
        (bracketed y.tokens ++ further true ys) =
        some (y.expr, further true ys) := by
      intro y ys
      refine chained_stop (relation_item y depth (closed_further _ ys)) fun t ht => ?_
      rw [further_head true ys t ht]
      rfl
    rw [chained, hitem x xs]
    exact chain_further rfl xs hitem hfuel x.expr

theorem parse_joined (stop : Bool) (x : Item) (xs : List Item) :
    parse (bracketed x.tokens ++ further stop xs) =
    some ((xs.map Item.expr).foldl (joint stop) x.expr) := by
  have hlen : ∃ depth, (bracketed x.tokens ++ further stop xs).length + 1 = depth + 3 := by
    refine ⟨(x.tokens ++ further stop xs).length, ?_⟩
    simp only [bracketed, List.cons_append, List.length_cons, List.length_append, List.length_nil]
    omega
  obtain ⟨depth, hdepth⟩ := hlen
  rw [parse, hdepth, expression_joined]

end Joined

def spent (stop : Bool) : List (Bool × ℕ) → ℕ
  | [] => 0
  | x :: xs => x.2 + if x.1 = stop then 0 else spent stop xs

def joined (stop : Bool) (bs : List Bool) : Bool := if stop ∈ bs then stop else !stop

theorem joined_cons_of_ne {stop b : Bool} (hb : b ≠ stop) (bs : List Bool) :
    joined stop (b :: bs) = joined stop bs := by
  unfold joined
  refine if_congr ?_ rfl rfl
  rw [List.mem_cons, or_iff_right (Ne.symm hb)]

section Evaluate

variable [Host] {env : Codes → Option Value}

theorem eval_joint {l r : Expr} {stop b : Bool} {c : ℕ} (hl : eval env l = some (.bool b, c)) :
    eval env (joint stop l r) =
      if b = stop then some (.bool b, c) else (eval env r).map fun v => (v.1, c + v.2) := by
  cases stop <;> cases b <;> simp [joint, eval, hl]

theorem eval_foldl_joint {stop : Bool} {xs : List Expr} {vs : List (Bool × ℕ)}
    (h : List.Forall₂ (fun x v => eval env x = some (.bool v.1, v.2)) xs vs) {e : Expr} {b : Bool} {c : ℕ}
    (he : eval env e = some (.bool b, c)) :
    eval env (xs.foldl (joint stop) e) =
      some (.bool (joined stop (b :: vs.map Prod.fst)), spent stop ((b, c) :: vs)) := by
  induction h generalizing e b c with
  | nil =>
    rw [List.foldl_nil, he]
    cases stop <;> cases b <;> simp [joined, spent]
  | @cons x v xs vs hx _ ih =>
    rw [List.foldl_cons]
    have hjoint : eval env (joint stop e x) = _ := eval_joint he
    rw [hx] at hjoint
    by_cases hb : b = stop
    · rw [if_pos hb] at hjoint
      rw [ih hjoint]
      simp [joined, spent, hb]
    · rw [if_neg hb] at hjoint
      rw [ih hjoint]
      rw [List.map_cons, joined_cons_of_ne hb]
      simp [spent, hb, Nat.add_assoc]

theorem evalWithin_eq {e : Expr} {v : Value} {c : ℕ} (h : eval env e = some (v, c)) (limit : ℕ) :
    evalWithin env limit e = if c ≤ limit then some v else none := by
  rw [evalWithin, h]

end Evaluate

end TangraTicket.Cel
