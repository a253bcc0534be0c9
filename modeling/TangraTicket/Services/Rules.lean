import TangraTicket.Services.Mail
import TangraTicket.Services.Tickets

/-!
Triage rules (`internal/rules`): the decision over a message that would open a ticket, and its
actions on the ticket once it exists. Compiling and evaluating one rule is the rule engine's answer.
-/

namespace TangraTicket.Services.Rules

open GoText Store CallProgram

def maxBodyEval : ℕ := 2 ^ 16

/-- Drop bytes from the end, at most `fuel` of them, until the text is valid. -/
def trimToValid : ℕ → GoString → GoString
  | 0, s => s
  | fuel + 1, s => if s ≠ [] ∧ ¬ validString s then trimToValid fuel s.dropLast else s

/-- Cut to at most `n` bytes on a rune boundary. -/
def truncate (s : GoString) (n : ℕ) : GoString := if s.length ≤ n then s else trimToValid n (s.take n)

def domainOf [GoLibrary] (addr : GoString) : GoString := ((afterLast 0x40 addr).map toLower).getD []

def emailOf [GoLibrary] (msg : Message) (recipient : GoString) : Email where
  subject := msg.subject
  body := truncate msg.text maxBodyEval
  fromAddress := msg.fromEmail
  fromName := msg.fromName
  recipient := recipient
  fromDomain := domainOf msg.fromEmail
  hasAttachments := !msg.attachments.isEmpty || !msg.skipped.isEmpty
  spamScore := msg.spamScore

structure TagRef where
  kind : Kind
  name : GoString
deriving DecidableEq

/-- The combined outcome of the matching rules; `errors` counts the rules skipped because they failed. -/
@[ext] structure Decision where
  drop : Bool := false
  matchedIDs : List GoString := []
  matchedNames : List GoString := []
  tags : List TagRef := []
  assigneeID : GoString := []
  status : Status := .unset
  priority : Priority := .unset
  errors : ℕ := 0

def Decision.empty (d : Decision) : Bool :=
  d.tags.isEmpty && d.assigneeID = [] && d.status = .unset && d.priority = .unset

section Decide

variable [GoLibrary]

def TagRef.key (r : TagRef) : GoString := r.kind.text ++ 0 :: toLower r.name

def addTag (kind : Kind) (tags : List TagRef) (name : GoString) : List TagRef :=
  let ref : TagRef := ⟨kind, trimSpace name⟩
  if ref.name = [] ∨ tags.any (fun r => r.key = ref.key) then tags else tags ++ [ref]

def mergeAction (d : Decision) (a : Action) : Decision :=
  match a.type with
  | .tag =>
    { d with
      tags := a.tagNames.foldl (addTag (if a.tagKind = .unset then .tag else a.tagKind)) d.tags }
  | .assign => { d with assigneeID := if d.assigneeID = [] then a.assigneeID else d.assigneeID }
  | .status => { d with status := if d.status = .unset then a.status else d.status }
  | .priority => { d with priority := if d.priority = .unset then a.priority else d.priority }
  | .drop => { d with drop := true }
  | .other _ => d

def merge (d : Decision) (r : Rule) : Decision :=
  r.actions.foldl mergeAction
    { d with matchedIDs := d.matchedIDs ++ [r.id], matchedNames := d.matchedNames ++ [r.name] }

/-- Fold the rules that match; one that cannot be compiled or evaluated is skipped. -/
def decideAll (email : Email) : List Rule → Decision → Act Decision
  | [], d => pure d
  | r :: rs, d => do
    match ← request (.evaluate r email) with
    | .ok true => decideAll email rs (merge d r)
    | .ok false => decideAll email rs d
    | .error _ => decideAll email rs { d with errors := d.errors + 1 }

def decide (deps : Deps) (tenantID : GoString) (email : Email) : Attempt Decision := do
  let rules ← ask (.listEnabledRules tenantID) .rulesList
  let rules : List Rule := if deps.maxRules > 0 then rules.take deps.maxRules.toNat else rules
  decideAll email rules {}

end Decide

section Apply

variable (d : Deps) (subj : Subjects)

def ensureTags (tenantID : GoString) : List TagRef → Act (List GoString × List (GoString × Err))
  | [] => pure ([], [])
  | ref :: refs => do
    let r ← tryAsk (.ensureTagByName tenantID ref.kind ref.name)
    let (ids, errs) ← ensureTags tenantID refs
    match r with
    | .ok t => pure (Tag.id t :: ids, errs)
    | .error e => pure (ids, (goString "tag", .repo e) :: errs)

def applyTags (ticketID : GoString) (tags : List TagRef) : Act (List (GoString × Err)) :=
  if tags = [] then pure []
  else do
    let (ids, errs) ← ensureTags subj.tenantID tags
    if ids = [] then pure errs
    else do
      match ← tryAsk (.addTicketTags subj.tenantID ticketID ids) with
      | .ok _ => pure errs
      | .error e => pure (errs ++ [(goString "tags", .repo e)])

def attempted (name : GoString) (x : Attempt View) : Act (List (GoString × Err)) := do
  match ← x.run with
  | .ok _ => pure []
  | .error e => pure [(name, e)]

def applyAssignee (ticketID : GoString) (dec : Decision) : Act (List (GoString × Err)) :=
  if dec.assigneeID = [] then pure []
  else attempted "assign" (Tickets.assignAs d subj ticketID dec.assigneeID .rule)

def applyStatus (ticketID : GoString) (dec : Decision) : Act (List (GoString × Err)) :=
  if dec.status = .unset then pure []
  else attempted "status" (Tickets.setStatusAs d subj ticketID dec.status .rule)

def applyPriority (ticketID : GoString) (dec : Decision) : Act (List (GoString × Err)) :=
  if dec.priority = .unset then pure []
  else attempted "priority" (Tickets.setPriorityAs d subj ticketID dec.priority .rule)

/-- Every action is tried; the failures are returned joined. -/
def apply (ticketID : GoString) (dec : Decision) : Attempt Unit := do
  let tagErrs ← applyTags subj ticketID dec.tags
  let assignErrs ← applyAssignee d subj ticketID dec
  let statusErrs ← applyStatus d subj ticketID dec
  let priorityErrs ← applyPriority d subj ticketID dec
  let errs := tagErrs ++ assignErrs ++ statusErrs ++ priorityErrs
  if errs = [] then pure () else throw (.joined errs)

end Apply

structure Plan where
  drop : Bool := false
  apply : Option Decision := none

def evaluate [GoLibrary] (d : Deps) (subj : Subjects) (msg : Message) (recipient : GoString) :
    Attempt Plan := do
  if subj.tenantID = [] then throw (.forbidden "tenant required")
  else do
    let dec ← decide d subj.tenantID (emailOf msg recipient)
    if dec.drop then pure { drop := true }
    else if dec.empty then pure {}
    else pure { apply := some dec }

end TangraTicket.Services.Rules
