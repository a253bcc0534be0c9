import TangraTicket.Services.RuleService

/-!
The engine's programs and the dry run (`internal/rules/engine.go`, `service.go`): programs are kept
by rule and version, and a rule that is not saved is compiled and evaluated for a sample message.
Running a CEL program is the library's; the deadline of an evaluation is not reached.
-/

namespace TangraTicket.Services.Rules

open GoText Store

def maxCacheItems : ℕ := 10000

/-- Running the program of an expression on some variables: an error, or its value if that is a boolean. -/
class Evaluator where
  run : GoString → (Cel.Codes → Option Cel.Value) → Except GoString (Option Bool)

abbrev Cache := List (GoString × Program)

def Cache.forget (cache : Cache) (id : GoString) : Cache := cache.filter fun p => p.1 ≠ id

/-- Programs are made by `Compile`, so there always is one to run. -/
def evaluateProgram [Evaluator] (p : Program) (m : Email) : Except GoString Bool :=
  match Evaluator.run p.expr (vars m) with
  | .error e => .error (goString "rules: evaluate: " ++ e)
  | .ok none => .error "rules: expression did not yield a boolean"
  | .ok (some b) => .ok b

section Engine

variable [GoLibrary] [RuleLibrary]

/-- Compile and keep; the whole cache is dropped when it is full. -/
def recompile (cache : Cache) (r : Rule) : Except InvalidError Program × Cache :=
  match compile r with
  | .error e => (.error e, cache.forget r.id)
  | .ok p => (.ok p, (r.id, p) :: if cache.length ≥ maxCacheItems then [] else cache.forget r.id)

/-- The program of a rule, kept for its id and version; a rule without id is not kept. -/
def program (cache : Cache) (r : Rule) : Except InvalidError Program × Cache :=
  if r.id = [] then (compile r, cache)
  else
    match cache.lookup r.id with
    | some p => if p.version = r.version then (.ok p, cache) else recompile cache r
    | none => recompile cache r

variable [Evaluator]

/-- What `Decide` learns of one rule. -/
def verdict (cache : Cache) (r : Rule) (m : Email) : Except Unit Bool :=
  match (program cache r).1 with
  | .error _ => .error ()
  | .ok p => (evaluateProgram p m).mapError fun _ => ()

/-- The surroundings with the engine among them. -/
def engineStep (c : Choice) : (e : Call) → World × Cache → Answer e × (World × Cache)
  | .evaluate r m, s => (verdict s.2 r m, s.1, (program s.2 r).2)
  | e, s => ((step c e s.1).1, (step c e s.1).2, s.2)

structure Sample where
  subject : GoString
  body : GoString
  fromAddress : GoString
  fromName : GoString
  recipient : GoString
  hasAttachments : Bool
  spamScore : UInt64

omit [RuleLibrary] [Evaluator] in
def Sample.email (s : Sample) : Email where
  subject := s.subject
  body := truncate s.body maxBodyEval
  fromAddress := s.fromAddress
  fromName := s.fromName
  recipient := s.recipient
  fromDomain := domainOf s.fromAddress
  hasAttachments := s.hasAttachments
  spamScore := s.spamScore

/-- The rule's actions, when it matched. -/
structure TestResult where
  matched : Bool
  actions : List Action
deriving DecidableEq

def test (subj : Subjects) (i : Input) (sample : Sample) : Except Failure TestResult := do
  let _ ← tenantOf subj
  let r ← (build i).mapError .invalid
  let p ← (compile r).mapError .invalid
  match evaluateProgram p sample.email with
  | .error e => .error (.invalid (invalid "expression" (goString "evaluation failed: " ++ e)))
  | .ok true => .ok ⟨true, r.actions⟩
  | .ok false => .ok ⟨false, []⟩

end Engine

end TangraTicket.Services.Rules
