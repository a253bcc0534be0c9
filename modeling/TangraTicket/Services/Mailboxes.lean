import TangraTicket.Services.Tickets

/-!
The mailbox service (`internal/mailboxes`): the addresses the inbound edge routes, the reply
identity and the acknowledgement settings.
-/

namespace TangraTicket.Services.Mailboxes

open GoText Store CallProgram

inductive Failure
  | repo (e : RepoErr)
  | forbidden (why : GoString)
  | validation (field msg : GoString)
  | notFound
  | conflict
  | inUse

def defaultDisplayName : GoString := "Support"
def maxAddress : ℕ := 320
def maxDisplayName : ℕ := 200
def maxTemplate : ℕ := 8192

/-- The create and update body; a missing field is left unchanged. -/
structure Input where
  address : Option GoString := none
  displayName : Option GoString := none
  active : Option Bool := none
  autoAck : Option Bool := none
  autoAckTemplate : Option GoString := none

def addressRequired : Failure := .validation "address" "a single email address is required"

def tenantOf (subj : Subjects) : Except Failure GoString :=
  if subj.tenantID = [] then .error (.forbidden "tenant required") else .ok subj.tenantID

def applyDisplayName (m : Mailbox) : Option GoString → Except Failure Mailbox
  | none => .ok m
  | some v =>
    let n := trimSpace v
    if runeCount n > maxDisplayName ∨ hasControl n false ∨ ¬ validString n then
      .error (.validation "display_name" "too long or invalid characters")
    else .ok { m with displayName := if n = [] then defaultDisplayName else n }

def applyTemplate (m : Mailbox) : Option GoString → Except Failure Mailbox
  | none => .ok m
  | some tpl =>
    if tpl.length > maxTemplate ∨ hasControl tpl true ∨ ¬ validString tpl then
      .error (.validation "auto_ack_template" "too long or invalid characters")
    else .ok { m with autoAckTemplate := tpl }

section Checks

variable [GoLibrary]

def normalizeAddress (v : GoString) : Except Failure GoString :=
  let v := toLower (trimSpace v)
  if v = [] ∨ v.length > maxAddress ∨ hasControl v false ∨ ¬ validString v then .error addressRequired
  else if GoLibrary.parseAddress v = some ([], v) then .ok v
  else .error addressRequired

def applyAddress (m : Mailbox) : Option GoString → Except Failure Mailbox
  | none => .ok m
  | some v => (normalizeAddress v).map fun a => { m with address := a }

/-- The checked input put onto a mailbox. -/
def apply (m : Mailbox) (i : Input) : Except Failure Mailbox := do
  let m ← applyAddress m i.address
  let m ← applyDisplayName m i.displayName
  applyTemplate { m with active := i.active.getD m.active, autoAck := i.autoAck.getD m.autoAck }
    i.autoAckTemplate

end Checks

def mapErr : RepoErr → Failure
  | .notFound => .notFound
  | .conflict => .conflict
  | .notEmpty => .inUse
  | e => .repo e

abbrev Managed (α : Type) := Fallible Call Answer Failure α

def query (q : StoreCall) : Managed q.Value := Prog.orFail (request (.store q)) mapErr

def checked {α : Type} (x : Except Failure α) : Managed α := ExceptT.mk (Prog.ret x)

variable (subj : Subjects)

def delete (id : GoString) (force : Bool) : Managed Unit := do
  let tenantID ← checked (tenantOf subj)
  query (.deleteMailbox tenantID id force)

variable [GoLibrary]

def create (i : Input) : Managed Mailbox := do
  let tenantID ← checked (tenantOf subj)
  if i.address.isNone then throw addressRequired
  else do
    let id ← newID
    let m ← checked
      (apply { id := id, tenantID := tenantID, displayName := defaultDisplayName, active := true }
      i)
    query (.createMailbox m)
    query (.getMailbox tenantID m.id)

def update (id : GoString) (i : Input) : Managed Mailbox := do
  let tenantID ← checked (tenantOf subj)
  let m ← query (.getMailbox tenantID id)
  let m ← checked (apply m i)
  query (.updateMailbox m)
  query (.getMailbox tenantID id)

end TangraTicket.Services.Mailboxes
