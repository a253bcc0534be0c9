import TangraTicket.Library.SliceSort
import TangraTicket.Store.MemVocabulary

/-!
The lists of a tenant's rules in both stores: the list that is shown page by page (`store.RuleList`,
`PageRules`) and the list that is evaluated (`ListEnabledRules`). Sorting and cutting pages is the
list library's; it sorts by the field asked for and breaks ties by id.
-/

namespace TangraTicket.Store

open GoText KeyedTable

inductive Dir
  | asc | desc
deriving DecidableEq

inductive RuleField
  | sortOrder | name
deriving DecidableEq

structure ListSpec where
  defaultDir : RuleField → Dir
  default : RuleField

structure ListRequest where
  page : ℕ
  size : ℕ
  sort : RuleField
  order : Dir

def ruleList : ListSpec where
  defaultDir _ := .asc
  default := .sortOrder

def ListSpec.request (s : ListSpec) (page size : ℕ) : ListRequest :=
  ⟨page, size, s.default, s.defaultDir s.default⟩

/-- The orders a store compares by: its texts, its ids, and texts as a list shows them. -/
structure Collation where
  text : GoString → GoString → Bool
  id : GoString → GoString → Bool
  listed : GoString → GoString → Bool
  text_total : StrictTotal text
  id_total : StrictTotal id

def bytewise : Collation :=
  ⟨lessString, lessString, lessString, strictTotal_lessString, strictTotal_lessString⟩

namespace Collation

variable (c : Collation)

def lessField : RuleField → Rule → Rule → Bool
  | .sortOrder, a, b => a.sortOrder < b.sortOrder
  | .name, a, b => c.listed a.name b.name

def lessListed (req : ListRequest) (a b : Rule) : Bool :=
  let (x, y) := if req.order = .asc then (a, b) else (b, a)
  if c.lessField req.sort x y then true
  else if c.lessField req.sort y x then false
  else c.id a.id b.id

/-- `ORDER BY sort_order, name, id` -/
def lessEvaluated (a b : Rule) : Bool :=
  if a.sortOrder ≠ b.sortOrder then decide (a.sortOrder < b.sortOrder)
  else if a.name ≠ b.name then c.text a.name b.name
  else c.id a.id b.id

end Collation

def ListRequest.clamp (req : ListRequest) (total : ℕ) : ListRequest :=
  { req with page := max 1 (min req.page ((total + req.size - 1) / req.size)) }

def window {α : Type} (items : List α) (req : ListRequest) : List α :=
  let req := req.clamp items.length
  pageOf items req.size (req.page - 1)

/-- The in-memory store, or the rows of the database's rule table with the order the database
compares by. -/
inductive RuleStore
  | memstore (m : Mem)
  | database (c : Collation) (rows : Table GoString Rule Rule.id)

namespace RuleStore

def rows : RuleStore → List Rule
  | .memstore m => m.rules.rows
  | .database _ t => t.rows

def collation : RuleStore → Collation
  | .memstore _ => bytewise
  | .database c _ => c

def ofTenant (s : RuleStore) (tenantID : GoString) : List Rule :=
  s.rows.filter fun r => r.tenantID = tenantID

def listEnabledRules (tenantID : GoString) : RuleStore → Except RepoErr (List Rule)
  | .memstore m => (m.listRules tenantID true).1
  | .database c t =>
    .ok (sortSlice c.lessEvaluated
      ((t.rows.filter fun r => r.tenantID = tenantID).filter (·.enabled)))

def pageRules (tenantID : GoString) (req : ListRequest) : RuleStore → Except RepoErr (List Rule)
  | .memstore m =>
    (m.listRules tenantID false).1.map fun all => window (sortSlice (bytewise.lessListed req) all) req
  | .database c t =>
    .ok (window (sortSlice (c.lessListed req) (t.rows.filter fun r => r.tenantID = tenantID)) req)

/-- The rules as the pages of the default list show them, first page to last. -/
def shown (s : RuleStore) (tenantID : GoString) (size : ℕ) : List Rule :=
  (List.range (((s.ofTenant tenantID).length + size - 1) / size)).flatMap fun n =>
    (s.pageRules tenantID (ruleList.request (n + 1) size)).toOption.getD []

end RuleStore

end TangraTicket.Store
