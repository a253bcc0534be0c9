import TangraTicket.Services.RuleEngine

/-!
The administration of rules (`internal/rules/service.go`): a rule is checked as a whole and compiled
before it is stored.
-/

namespace TangraTicket.Services.Rules

open GoText Store CallProgram

def maxName : ℕ := 200
def maxActions : ℕ := 20
def maxTagNames : ℕ := 20
def maxTagName : ℕ := 100
def maxSort : ℤ := 1000000
def defaultMaxRules : ℤ := 500

inductive Failure
  | repo (e : RepoErr)
  | forbidden (why : GoString)
  | invalid (e : InvalidError)
  | notFound
  | invalidAssignee
  | directoryUnavailable

/-- The create and update body; both replace the whole rule. -/
structure Input where
  name : GoString := []
  enabled : Option Bool := none
  sortOrder : ℤ := 0
  matchMode : GoString := []
  conditions : List Condition := []
  expression : GoString := []
  actions : List Action := []

/-- The most rules a tenant may have. -/
def ruleLimit (d : Deps) : ℤ := if d.maxRules ≤ 0 then defaultMaxRules else d.maxRules

def tenantOf (subj : Subjects) : Except Failure GoString :=
  if subj.tenantID = [] then .error (.forbidden "tenant required") else .ok subj.tenantID

def mapErr : RepoErr → Failure
  | .notFound => .notFound
  | e => .repo e

def hasControlByte (v : GoString) : Bool := (runes v).any fun r => r < 0x20 || r == 0x7F

/-- Too long for `limit` characters, or not plain text. -/
def badText (v : GoString) (limit : ℕ) : Bool := !validString v || runeCount v > limit || hasControlByte v

section Checks

variable [GoLibrary]

def cleanTagNames (at_ : GoString) : List GoString → List GoString → Except InvalidError (List GoString)
  | _, [] => .ok []
  | seen, name :: names =>
    let name := trimSpace name
    if name = [] ∨ toLower name ∈ seen then cleanTagNames at_ seen names
    else if badText name maxTagName then
      .error (invalid (at_ ++ goString ".tag_names") "a tag name is too long or has invalid characters")
    else do
      let rest ← cleanTagNames at_ (toLower name :: seen) names
      pure (name :: rest)

def cleanTagAction (at_ : GoString) (a : Action) : Except InvalidError Action :=
  let kind := if a.tagKind = .unset then .tag else a.tagKind
  if validKind kind = false then .error (invalid (at_ ++ goString ".tag_kind") "tag or category")
  else do
    let names ← cleanTagNames at_ [] a.tagNames
    if names = [] then .error (invalid (at_ ++ goString ".tag_names") "name at least one tag")
    else if names.length > maxTagNames then
      .error (invalid (at_ ++ goString ".tag_names") (goString "at most " ++ decimal maxTagNames ++
        goString " tags"))
    else .ok { type := .tag, tagKind := kind, tagNames := names }

def cleanAction (i : ℕ) (a : Action) : Except InvalidError Action :=
  let at_ := goString "actions[" ++ decimal i ++ goString "]"
  match ActionType.ofText (trimSpace a.type.text) with
  | .tag => cleanTagAction at_ a
  | .assign =>
    let id := trimSpace a.assigneeID
    if id = [] then .error (invalid (at_ ++ goString ".assignee_id") "choose an assignee")
    else .ok { type := .assign, assigneeID := id }
  | .status =>
    if validStatus a.status then .ok { type := .status, status := a.status }
    else .error (invalid (at_ ++ goString ".status") "unknown status")
  | .priority =>
    if validPriority a.priority then .ok { type := .priority, priority := a.priority }
    else .error (invalid (at_ ++ goString ".priority") "unknown priority")
  | .drop => .ok { type := .drop }
  | .other _ =>
    .error (invalid (at_ ++ goString ".type") (goString "unknown action " ++ GoLibrary.quote a.type.text))

def cleanActions : ℕ → List Action → Except InvalidError (List Action)
  | _, [] => .ok []
  | i, a :: as => do
    let n ← cleanAction i a
    let rest ← cleanActions (i + 1) as
    pure (n :: rest)

def normalizeActions (actions : List Action) : Except InvalidError (List Action) :=
  if actions = [] then .error (invalid "actions" "add at least one action")
  else if actions.length > maxActions then
    .error (invalid "actions" (goString "at most " ++ decimal maxActions ++ goString " actions"))
  else cleanActions 0 actions

def normalizeCondition (c : Condition) : Condition :=
  ⟨trimSpace c.field, toLower (trimSpace c.operator), c.value⟩

variable [RuleLibrary]

def overridden (mode : MatchMode) (conds : List Condition) : Except InvalidError Unit :=
  if conds.length > maxConditions then
    .error (invalid "conditions" (goString "at most " ++ decimal maxConditions ++ goString " conditions"))
  else if conds = [] then .ok ()
  else (buildExpression mode.text conds).map fun _ => ()

/-- The rule of an input, without the check of its assignees. -/
def build (i : Input) : Except InvalidError Rule :=
  let name := trimSpace i.name
  if name = [] then .error (invalid "name" "required")
  else if badText name maxName then .error (invalid "name" "too long or invalid characters")
  else if i.sortOrder < -maxSort ∨ i.sortOrder > maxSort then .error (invalid "sort_order" "out of range")
  else do
    let mode ← normalizeMatch i.matchMode
    let actions ← normalizeActions i.actions
    let r : Rule :=
      { name := name, enabled := i.enabled.getD true, sortOrder := i.sortOrder, matchMode := mode
        conditions := i.conditions.map normalizeCondition, expression := trimSpace i.expression,
        actions := actions }
    if r.expression ≠ [] then overridden mode r.conditions else .ok ()
    let _ ← compile r
    pure r

end Checks

abbrev Managing (α : Type) := Fallible Call Answer Failure α

def checked {α : Type} (x : Except Failure α) : Managing α := ExceptT.mk (Prog.ret x)

def query (q : StoreCall) (g : RepoErr → Failure) : Managing q.Value := Prog.orFail (request (.store q)) g

def checkAssignees (d : Deps) (tenantID : GoString) : List Action → Managing Unit
  | [] => pure ()
  | a :: as =>
    if a.type ≠ .assign then checkAssignees d tenantID as
    else if d.agents = false then throw .directoryUnavailable
    else do
      match ← request (.lookup tenantID a.assigneeID) with
      | .ok _ => checkAssignees d tenantID as
      | .error .unknownUser => throw .invalidAssignee
      | .error .notAssignable => throw .invalidAssignee
      | .error .unavailable => throw .directoryUnavailable

section Service

variable [GoLibrary] [RuleLibrary] (d : Deps) (subj : Subjects)

def validate (i : Input) : Managing Rule := do
  let r ← checked ((build i).mapError .invalid)
  checkAssignees d subj.tenantID r.actions
  pure r

def create (i : Input) : Managing Rule := do
  let tenantID ← checked (tenantOf subj)
  let existing ← query (.listRules tenantID) .repo
  if (existing : List Rule).length ≥ ruleLimit d then
    throw (.invalid (invalid "rules"
      (goString "a tenant may have at most " ++ decimal (ruleLimit d).toNat ++ goString " rules")))
  else do
    let id ← newID
    let r ← validate d subj i
    let now ← clock
    query
      (.createRule
        { r with
          id := id, tenantID := tenantID, version := 1, createdAt := now,
          updatedAt := now }) .repo
    query (.getRule tenantID id) mapErr

def update (id : GoString) (i : Input) : Managing Rule := do
  let tenantID ← checked (tenantOf subj)
  let cur : Rule ← query (.getRule tenantID id) mapErr
  let r ← validate d subj i
  let now ← clock
  query (.updateRule { r with
    id := id, tenantID := tenantID, version := cur.version, createdAt := cur.createdAt,
      updatedAt := now }) mapErr

omit [GoLibrary] [RuleLibrary] in
def delete (id : GoString) : Managing Unit := do
  let tenantID ← checked (tenantOf subj)
  query (.deleteRule tenantID id) mapErr

end Service

end TangraTicket.Services.Rules
