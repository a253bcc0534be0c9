import TangraTicket.Library.KeyedTable

/-!
Tables with more than their key: no two rows are in a relation that tells when they would clash.
-/

namespace TangraTicket.KeyedTable.Table

variable {κ ρ : Type} {key : ρ → κ} {r : ρ → ρ → Prop} {t : Table κ ρ key}

def Apart (r : ρ → ρ → Prop) (t : Table κ ρ key) : Prop := ∀ x ∈ t.rows, ∀ y ∈ t.rows, r x y → x = y

theorem apart_empty : (empty : Table κ ρ key).Apart r :=
  fun _ hx => absurd hx List.not_mem_nil

theorem Apart.keep (h : t.Apart r) (p : ρ → Bool) : (t.keep p).Apart r :=
  fun x hx y hy hxy => h x (mem_keep.mp hx).1 y (mem_keep.mp hy).1 hxy

theorem Apart.amend {f : ρ → ρ} (h : t.Apart r) (hf : ∀ x, key (f x) = key x)
    (hr : ∀ x y, r (f x) (f y) → r x y) :
    (t.amend f hf).Apart r := by
  intro x hx y hy hxy
  obtain ⟨x₀, hx₀, rfl⟩ := List.mem_map.mp hx
  obtain ⟨y₀, hy₀, rfl⟩ := List.mem_map.mp hy
  rw [h x₀ hx₀ y₀ hy₀ (hr x₀ y₀ hxy)]

variable [DecidableEq κ]

theorem Apart.put {x : ρ} (h : t.Apart r) (hsymm : ∀ y, r x y → r y x)
    (hfree : ∀ y ∈ t.rows, key y ≠ key x → ¬ r y x) :
    (t.put x).Apart r := by
  intro y hy z hz hyz
  rcases mem_put.mp hy with rfl | ⟨hyold, hyx⟩
  · rcases mem_put.mp hz with rfl | ⟨hzold, hzx⟩
    · rfl
    · exact absurd (hsymm z hyz) (hfree z hzold hzx)
  · rcases mem_put.mp hz with rfl | ⟨hzold, -⟩
    · exact absurd hyz (hfree y hyold hyx)
    · exact h y hyold z hzold hyz

theorem Apart.rewrite {x x₀ : ρ} (h : t.Apart r) (hx₀ : x₀ ∈ t.rows) (hkey : key x = key x₀)
    (hsymm : ∀ y, r x y → r y x) (hr : ∀ y, r y x → r y x₀) : (t.put x).Apart r := by
  refine h.put hsymm fun y hy hne hyx => hne ?_
  rw [hkey, h y hy x₀ hx₀ (hr y hyx)]

end TangraTicket.KeyedTable.Table
