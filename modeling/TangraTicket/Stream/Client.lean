import TangraTicket.Library.GoText
import Mathlib.Data.Prod.Lex

/-!
Stream ids and the in-process stream client (`internal/stream/client.go`). One tenant has one
stream; the fields of an entry are its recipients, type and data.
-/

namespace TangraTicket.Stream

open GoText

structure ParsedID where
  ms : ℤ
  seq : ℤ
  ok : Bool
deriving DecidableEq

def parseID (id : GoString) : ParsedID :=
  let ms := id.takeWhile (· ≠ 0x2D)
  match id.drop ms.length with
  | [] => ⟨0, 0, false⟩
  | _ :: seq => ⟨(parseInt ms).value, (parseInt seq).value, (parseInt ms).ok && (parseInt seq).ok⟩

def less (a b : GoString) : Bool :=
  if (parseID a).ms ≠ (parseID b).ms then (parseID a).ms < (parseID b).ms else (parseID a).seq <
    (parseID b).seq

-- the part of an id that `less` looks at
def rank (id : GoString) : ℤ ×ₗ ℤ := toLex ((parseID id).ms, (parseID id).seq)

theorem less_iff (a b : GoString) : less a b = true ↔ rank a < rank b := by
  rw [rank, rank, Prod.Lex.toLex_lt_toLex, less]
  by_cases h : (parseID a).ms = (parseID b).ms
  · simp [h]
  · simp only [ne_eq, h, not_false_eq_true, if_true, decide_eq_true_eq, false_and, or_false]

theorem not_less_iff (a b : GoString) : less a b = false ↔ rank b ≤ rank a := by
  rw [← not_lt, ← less_iff, Bool.not_eq_true]

structure Entry where
  id : GoString
  to_ : GoString
  type : GoString
  data : GoString
deriving DecidableEq

/-- What the server of the stream promises of its ids: well formed, above the zero id, strictly
increasing. -/
structure Ordered (s : List Entry) : Prop where
  formed : ∀ e ∈ s, (parseID e.id).ok = true
  positive : ∀ e ∈ s, rank (goString "0-0") < rank e.id
  increasing : s.Pairwise fun e f => rank e.id < rank f.id

theorem ordered_iff (s : List Entry) : Ordered s ↔ (∀ e ∈ s, (parseID e.id).ok = true) ∧
    (∀ e ∈ s, less "0-0" e.id = true) ∧ s.Pairwise fun e f => less e.id f.id = true := by
  simp only [less_iff]
  exact ⟨fun h => ⟨h.formed, h.positive, h.increasing⟩, fun h => ⟨h.1, h.2.1, h.2.2⟩⟩

instance (s : List Entry) : Decidable (Ordered s) := decidable_of_iff' _ (ordered_iff s)

namespace Memory

def xadd (maxLen : ℕ) (s : List Entry) (e : Entry) : List Entry :=
  if 0 < maxLen ∧ maxLen < (s ++ [e]).length then (s ++ [e]).drop ((s ++ [e]).length - maxLen) else s ++ [e]

def after (s : List Entry) (afterID : GoString) (count : ℕ) : List Entry :=
  let out := s.filter fun e => afterID = [] || less afterID e.id
  if 0 < count then out.take count else out

def xlast (s : List Entry) : GoString := (s.getLast?.map Entry.id).getD []

end Memory

end TangraTicket.Stream
