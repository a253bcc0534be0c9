import TangraTicket.Library.ReadCommitted

/-!
What the locks of a READ COMMITTED database give: no two open transactions write in each other's
way, and in the committed rows, as in what each transaction sees, every reference has the row it
refers to.
-/

namespace TangraTicket.ReadCommitted

open KeyedTable CallProgram

variable {κ ρ ξ : Type} [DecidableEq κ] [DecidableEq ξ] {S : Schema κ ρ}

structure Apart (S : Schema κ ρ) (w w' : Write κ ρ) : Prop where
  target : w.target S.key ≠ w'.target S.key
  insert_remove : ∀ r k, w = .insert r → w' = .remove k → k ∉ S.parents r
  remove_insert : ∀ k r, w = .remove k → w' = .insert r → k ∉ S.parents r

theorem Apart.symm {w w' : Write κ ρ} (h : Apart S w w') : Apart S w' w :=
  ⟨h.target.symm, fun r k hw hw' => h.remove_insert k r hw' hw, fun k r hw hw' =>
    h.insert_remove r k hw' hw⟩

theorem apart_of_clash {w w' : Write κ ρ} (h : S.clash w w' = false) : Apart S w w' := by
  cases w <;> cases w' <;> simp only [Schema.clash, Bool.or_eq_false_iff, decide_eq_false_iff_not] at h
  all_goals
    refine ⟨by simp_all [Write.target], ?_, ?_⟩ <;> simp_all

structure Sound (db : Db S ξ) : Prop where
  apart : ∀ p ∈ db.pending, ∀ p' ∈ db.pending, p.1 ≠ p'.1 → Apart S p.2 p'.2
  closed : Closed S.parents db.rows
  views : ∀ x, Closed S.parents (db.view x)
  named : ∀ x r', (x, .update r') ∈ db.pending → ∀ k ∈ S.parents r',
    (∃ r, db.rows.get? (S.key r') = some r ∧ k ∈ S.parents r) ∨ ∃ r, (x, .insert r) ∈ db.pending ∧
    k ∈ S.parents r

theorem sound_of_closed {t : Table κ ρ S.key} (h : Closed S.parents t) : Sound (⟨t, [], []⟩ : Db S ξ) :=
  ⟨nofun, h, fun _ => h, nofun⟩

variable {db db' : Db S ξ} {x y : ξ}

theorem Sound.apart_mine (h : Sound db) (hxy : x ≠ y) {w w' : Write κ ρ} (hw : w ∈ db.mine x)
    (hw' : w' ∈ db.mine y) :
    Apart S w w' := h.apart _ (Db.mem_mine.mp hw) _ (Db.mem_mine.mp hw') hxy

theorem Sound.untouched (h : Sound db) (hxy : x ≠ y) {w : Write κ ρ} (hw : w ∈ db.mine x) :
    (db.view y).get? (w.target S.key) = db.rows.get? (w.target S.key) :=
  get?_writeAll_of_untouched fun _ hw' => (h.apart_mine hxy hw hw').target.symm

theorem Sound.not_removed (h : Sound db) (hxy : x ≠ y) {k k' : κ} {r : ρ} (hr : (db.view x).get? k = some r)
    (hk' : k' ∈ S.parents r) (hfree : ∀ w ∈ db.mine y, w.target S.key ≠ k) :
    left S.key (db.mine y) k' ≠ some none := by
  intro hleft
  have hgone : (db.view y).get? k' = none := by
    rw [Db.view, get?_writeAll, hleft]
    rfl
  have hold : ∀ r₀, db.rows.get? k = some r₀ → k' ∈ S.parents r₀ → False := by
    intro r₀ hr₀ hk₀
    have hview : (db.view y).get? k = some r₀ := (get?_writeAll_of_untouched hfree).trans hr₀
    exact h.views y k r₀ hview k' hk₀ hgone
  obtain ⟨w', hw', htarget, hnone⟩ := left_eq_some hleft
  have hremove : w' = .remove k' := by
    cases w' with
    | remove k₀ => exact congrArg Write.remove htarget
    | _ => cases hnone
  have hinsert : ∀ r₁, .insert r₁ ∈ db.mine x → k' ∉ S.parents r₁ := fun r₁ hr₁ =>
    (h.apart_mine hxy hr₁ hw').insert_remove r₁ k' rfl hremove
  obtain ⟨w, hw, hrow⟩ | ⟨hr, -⟩ := get?_writeAll_some hr
  · have hkey := (Table.get?_eq_some.mp hr).2
    cases w with
    | insert r₁ =>
      obtain rfl := Option.some.inj hrow
      exact hinsert r₁ hw hk'
    | update r₁ =>
      obtain rfl := Option.some.inj hrow
      obtain ⟨r₀, hr₀, hk₀⟩ | ⟨r₂, hr₂, hk₂⟩ := h.named x r₁ (Db.mem_mine.mp hw) k' hk'
      · exact hold r₀ (hkey ▸ hr₀) hk₀
      · exact hinsert r₂ (Db.mem_mine.mpr hr₂) hk₂
    | remove k₀ => cases hrow
  · exact hold r hr hk'

theorem Sound.closed_over (h : Sound db) (hxy : x ≠ y) :
    Closed S.parents (writeAll (db.view y) (db.mine x)) := by
  intro k r hr k' hk'
  have hget := get?_writeAll (db.view y) (db.mine x)
  cases hx : left S.key (db.mine x) k with
  | some o =>
    -- a row written by `x`: what it refers to is in the view of `x`, and not deleted by `y`
    obtain ⟨w, hw, htarget, -⟩ := left_eq_some hx
    have hview : (db.view x).get? k = some r := by
      rw [hget, hx] at hr
      rw [Db.view, get?_writeAll, hx]
      exact hr
    have hfree : ∀ w' ∈ db.mine y, w'.target S.key ≠ k := fun w' hw' =>
      htarget ▸ (h.apart_mine hxy hw hw').target.symm
    have hthere := h.views x k r hview k' hk'
    have hkept := h.not_removed hxy hview hk' hfree
    rw [Db.view, get?_writeAll] at hthere
    rw [hget]
    cases hx' : left S.key (db.mine x) k' with
    | some o' => rwa [hx'] at hthere
    | none =>
      rw [hx'] at hthere
      rw [Option.getD_none, Db.view, get?_writeAll]
      cases hy' : left S.key (db.mine y) k' with
      | none => exact hthere
      | some o' =>
        rintro rfl
        exact hkept hy'
  | none =>
    rw [hget, hx, Option.getD_none] at hr
    have hthere := h.views y k r hr k' hk'
    have hkept := h.not_removed hxy.symm hr hk' (left_eq_none.mp hx)
    rw [hget]
    cases hx' : left S.key (db.mine x) k' with
    | none => exact hthere
    | some o' =>
      rintro rfl
      exact hkept hx'

theorem Sound.extend (h : Sound db) {ws : List (Write κ ρ)} (hfree : db.blocked x ws = false)
    (hws : Lawful S.parents (db.view x) ws) : Sound (db.extend x ws) := by
  have hnew : ∀ w ∈ ws, ∀ p ∈ db.pending, p.1 ≠ x → Apart S w p.2 := by
    intro w hw p hp hpx
    have hb := List.any_eq_false.mp hfree p hp
    simp only [hpx, ne_eq, not_false_eq_true, decide_true, Bool.true_and, List.any_eq_true,
      not_exists, not_and, Bool.or_eq_true, not_or] at hb
    exact apart_of_clash (Bool.eq_false_iff.mpr (hb w hw).1)
  have hmem : ∀ p ∈ (db.extend x ws).pending, p ∈ db.pending ∨ p.1 = x ∧ p.2 ∈ ws := by
    intro p hp
    refine (List.mem_append.mp hp).imp_right fun hp => ?_
    obtain ⟨w, hw, rfl⟩ := List.mem_map.mp hp
    exact ⟨rfl, hw⟩
  refine ⟨?_, h.closed, ?_, ?_⟩
  · intro p hp p' hp' hne
    rcases hmem p hp with hp | ⟨hpx, hp⟩ <;> rcases hmem p' hp' with hp' | ⟨hpx', hp'⟩
    · exact h.apart p hp p' hp' hne
    · exact (hnew _ hp' p hp (hpx' ▸ hne)).symm
    · exact hnew _ hp p' hp' (hpx ▸ hne.symm)
    · exact absurd (hpx.trans hpx'.symm) hne
  · intro y
    by_cases hy : y = x
    · subst hy
      rw [Db.view_extend_self]
      exact hws.closed (h.views y)
    · rw [Db.view, Db.mine_extend_other hy]
      exact h.views y
  · intro y r' hr' k hk
    have hinsert : ∀ r, (y, .insert r) ∈ db.pending → k ∈ S.parents r →
        ∃ r, (y, .insert r) ∈ (db.extend x ws).pending ∧ k ∈ S.parents r :=
      fun r hr hk => ⟨r, List.mem_append_left _ hr, hk⟩
    have holds : ∀ r', (y, .update r') ∈ db.pending → k ∈ S.parents r' →
        (∃ r, db.rows.get? (S.key r') = some r ∧ k ∈ S.parents r) ∨
          ∃ r, (y, .insert r) ∈ (db.extend x ws).pending ∧ k ∈ S.parents r := by
      intro r' hr' hk
      rcases h.named y r' hr' k hk with hrow | ⟨r, hr, hk⟩
      · exact .inl hrow
      · exact .inr (hinsert r hr hk)
    rcases hmem _ hr' with hold | ⟨hy, hin⟩
    · exact holds r' hold hk
    · obtain rfl : y = x := hy
      obtain ⟨r, hr, hk⟩ | ⟨r, hr, hk⟩ := hws.named r' hin k hk
      · obtain ⟨w, hw, hrow⟩ | ⟨hold, -⟩ := get?_writeAll_some hr
        · have hkey := (Table.get?_eq_some.mp hr).2
          cases w with
          | insert r₁ =>
            obtain rfl := Option.some.inj hrow
            exact .inr (hinsert r₁ (Db.mem_mine.mp hw) hk)
          | update r₁ =>
            obtain rfl := Option.some.inj hrow
            exact hkey ▸ holds r₁ (Db.mem_mine.mp hw) hk
          | remove k₀ => cases hrow
        · exact .inl ⟨r, hold, hk⟩
      · exact .inr ⟨r, List.mem_append_right _ (List.mem_map_of_mem hr), hk⟩

theorem mem_pending_drop {p : ξ × Write κ ρ} :
    p ∈ db.pending.filter (fun p => p.1 ≠ y) ↔ p ∈ db.pending ∧ p.1 ≠ y := by
  simp [List.mem_filter]

theorem Sound.commit (h : Sound db) : Sound (db.commit y) := by
  refine ⟨?_, h.views y, ?_, ?_⟩
  · intro p hp p' hp'
    exact h.apart p (mem_pending_drop.mp hp).1 p' (mem_pending_drop.mp hp').1
  · intro x
    by_cases hx : x = y
    · subst hx
      have hnone : (db.commit x).mine x = [] := Db.mine_drop_self
      rw [Db.view, hnone]
      exact h.views x
    · have hsame : (db.commit y).mine x = db.mine x := Db.mine_drop_other hx
      rw [Db.view, hsame]
      exact h.closed_over hx
  · intro x r' hr' k hk
    obtain ⟨hr', hx⟩ := mem_pending_drop.mp hr'
    obtain ⟨r, hr, hk⟩ | ⟨r, hr, hk⟩ := h.named x r' hr' k hk
    · exact .inl ⟨r, (h.untouched hx (Db.mem_mine.mpr hr')).trans hr, hk⟩
    · exact .inr ⟨r, mem_pending_drop.mpr ⟨hr, hx⟩, hk⟩

theorem Sound.abort (h : Sound db) : Sound (db.abort y) := by
  refine ⟨?_, h.closed, ?_, ?_⟩
  · intro p hp p' hp'
    exact h.apart p (mem_pending_drop.mp hp).1 p' (mem_pending_drop.mp hp').1
  · intro x
    by_cases hx : x = y
    · subst hx
      have hnone : (db.abort x).mine x = [] := Db.mine_drop_self
      rw [Db.view, hnone]
      exact h.closed
    · have hsame : (db.abort y).mine x = db.mine x := Db.mine_drop_other hx
      rw [Db.view, hsame]
      exact h.views x
  · intro x r' hr' k hk
    obtain ⟨hr', hx⟩ := mem_pending_drop.mp hr'
    obtain hold | ⟨r, hr, hk⟩ := h.named x r' hr' k hk
    · exact .inl hold
    · exact .inr ⟨r, mem_pending_drop.mpr ⟨hr, hx⟩, hk⟩

theorem Sound.moves {may : Prop} (h : Sound db) (hm : Moves x may db db') : Sound db' := by
  cases hm with
  | idle => exact h
  | find p => exact ⟨h.apart, h.closed, h.views, h.named⟩
  | extend ws hfree hws => exact h.extend hfree hws
  | commit _ => exact h.commit
  | abort => exact h.abort

end TangraTicket.ReadCommitted
