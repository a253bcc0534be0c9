import Mathlib.Data.List.Basic

/-!
The first element of each key, in order: what a loop with a set of keys seen so far collects.
-/

namespace TangraTicket.FirstOccurrence

variable {α κ : Type} [DecidableEq κ] (key : α → κ)

def firsts : List α → List α
  | [] => []
  | a :: as => a :: (firsts as).filter fun b => key b ≠ key a

def add (out : List α) (a : α) : List α := if out.any fun b => key b = key a then out else out ++ [a]

variable {key}

theorem add_old {out : List α} {a : α} (h : key a ∈ out.map key) : add key out a = out := by
  obtain ⟨b, hb, hkey⟩ := List.mem_map.mp h
  have hany : (out.any fun b => key b = key a) = true := by simpa using ⟨b, hb, hkey⟩
  rw [add, if_pos hany]

theorem add_new {out : List α} {a : α} (h : key a ∉ out.map key) : add key out a = out ++ [a] := by
  have hany : ¬ (out.any fun b => key b = key a) = true := by
    simpa using fun b hb hkey => h (List.mem_map.mpr ⟨b, hb, hkey⟩)
  rw [add, if_neg hany]

theorem foldl_add (as out : List α) :
    as.foldl (add key) out = out ++ (firsts key as).filter fun a => key a ∉ out.map key := by
  induction as generalizing out with
  | nil => simp [firsts]
  | cons a as ih =>
    rw [List.foldl_cons, ih, firsts]
    by_cases hold : key a ∈ out.map key
    · rw [add_old hold, List.filter_cons_of_neg (by simpa using hold), List.filter_filter]
      congr 1
      refine List.filter_congr fun b _ => ?_
      by_cases hb : key b = key a
      · simp only [hb]
        simp only [List.mem_map] at hold
        simp [hold]
      · simp [hb]
    · rw [add_new hold, List.filter_cons_of_pos (by simpa using hold), List.filter_filter,
        List.append_assoc, List.singleton_append]
      congr 2
      refine List.filter_congr fun b _ => ?_
      rw [Bool.eq_iff_iff]
      simp only [List.map_append, List.map_cons, List.map_nil, List.mem_append, List.mem_singleton,
        Bool.and_eq_true, decide_eq_true_eq, not_or, ne_eq]

theorem foldl_add_nil (as : List α) : as.foldl (add key) [] = firsts key as := by
  rw [foldl_add, List.nil_append]
  simp

end TangraTicket.FirstOccurrence
