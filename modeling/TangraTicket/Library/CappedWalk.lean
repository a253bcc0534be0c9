import Mathlib.Data.List.Infix

/-!
Walks through nested collections under two caps: how deep the walk may descend, and how many nodes
it may visit. The nodes are listed in the order in which they are met; a walk takes a start of that
list.
-/

namespace TangraTicket.CappedWalk

structure Visit (κ α : Type) where
  depth : ℕ
  context : κ
  node : α

section Preorder

variable {κ α : Type} (inside : α → Option (κ × List α)) (maxDepth : ℕ)

def preorder : ℕ → ℕ → κ → List α → List (Visit κ α)
  | 0, _, _, _ => []
  | levels + 1, depth, k, nodes => nodes.flatMap fun a => ⟨depth, k, a⟩ :: match inside a with
    | none => []
    | some (k', below) => if maxDepth < depth + 1 then [] else preorder levels (depth + 1) k' below

def stops (v : Visit κ α) : Bool := (inside v.node).isSome && maxDepth < v.depth + 1

/-- The nodes taken while there is room; a node that stops the walk is not. -/
def taken : ℕ → List (Visit κ α) → List (Visit κ α)
  | 0, _ => []
  | _, [] => []
  | room + 1, v :: vs => if stops inside maxDepth v then [] else v :: taken room vs

variable {inside maxDepth}

theorem preorder_levels {levels levels' depth : ℕ} (hdepth : depth ≤ maxDepth)
    (h : maxDepth < depth + levels) (h' : maxDepth < depth + levels') (k : κ) (nodes : List α) :
    preorder inside maxDepth levels depth k nodes = preorder inside maxDepth levels' depth k nodes := by
  induction levels generalizing levels' depth k nodes with
  | zero => omega
  | succ levels ih =>
    obtain ⟨levels', rfl⟩ : ∃ n, levels' = n + 1 := ⟨levels' - 1, by omega⟩
    unfold preorder
    congr 1
    funext a
    congr 1
    split
    · rfl
    · split_ifs with hdeep
      · rfl
      · exact ih (by omega) (by omega) (by omega) _ _

theorem taken_isPrefix (room : ℕ) (vs : List (Visit κ α)) : taken inside maxDepth room vs <+: vs := by
  induction vs generalizing room with
  | nil => cases room <;> exact List.nil_prefix
  | cons v vs ih =>
    cases room with
    | zero => exact List.nil_prefix
    | succ room =>
      unfold taken
      split_ifs
      · exact List.nil_prefix
      · exact List.prefix_cons_inj v |>.mpr (ih room)

theorem stops_of_mem_taken {room : ℕ} {vs : List (Visit κ α)} {v : Visit κ α}
    (h : v ∈ taken inside maxDepth room vs) :
    stops inside maxDepth v = false := by
  induction vs generalizing room with
  | nil => cases room <;> cases h
  | cons x vs ih =>
    cases room with
    | zero => cases h
    | succ room =>
      unfold taken at h
      split_ifs at h with hx
      · cases h
      · rcases List.mem_cons.mp h with rfl | h
        · simpa using hx
        · exact ih h

end Preorder

end TangraTicket.CappedWalk
