import TangraTicket.Library.Checks
import TangraTicket.Services.RuleService

/-!
What a rule input accepted by `build` is known to hold.
-/

namespace TangraTicket.Services.Rules

open GoText Store Checks

section Built

variable [GoLibrary] [RuleLibrary] {i : Input} {r : Rule}

def ruleOf (i : Input) (mode : MatchMode) (actions : List Action) : Rule :=
  { name := trimSpace i.name, enabled := i.enabled.getD true, sortOrder := i.sortOrder, matchMode := mode
    conditions := i.conditions.map normalizeCondition, expression := trimSpace i.expression,
    actions := actions }

structure Built (i : Input) (r : Rule) : Prop where
  named : trimSpace i.name ≠ []
  nameText : badText (trimSpace i.name) maxName = false
  sortOrder : -maxSort ≤ i.sortOrder ∧ i.sortOrder ≤ maxSort
  mode : normalizeMatch i.matchMode = .ok r.matchMode
  actions : normalizeActions i.actions = .ok r.actions
  rule : r = ruleOf i r.matchMode r.actions
  overridden : r.expression ≠ [] → Rules.overridden r.matchMode r.conditions = .ok ()
  compiled : ∃ p, compile r = .ok p

theorem build_eq_ok : build i = .ok r ↔ Built i r := by
  have hbuild : build i = if trimSpace i.name = [] then .error (invalid "name" "required")
      else if badText (trimSpace i.name) maxName then
      .error (invalid "name" "too long or invalid characters")
      else if i.sortOrder < -maxSort ∨ i.sortOrder > maxSort then
      .error (invalid "sort_order" "out of range")
      else normalizeMatch i.matchMode >>= fun mode => normalizeActions i.actions >>= fun actions =>
        (if (ruleOf i mode actions).expression ≠ [] then
          Rules.overridden mode (ruleOf i mode actions).conditions else .ok ()) >>=
          fun _ => compile (ruleOf i mode actions) >>= fun _ => pure (ruleOf i mode actions) := by
    by_cases hexpr : trimSpace i.expression = []
    · simp only [build, ruleOf, hexpr, ne_eq, not_true_eq_false, if_false]
    · simp only [build, ruleOf, hexpr, ne_eq, not_false_eq_true, if_true]
  rw [hbuild]
  constructor
  · intro h
    by_cases hname : trimSpace i.name = []
    · rw [if_pos hname] at h
      cases h
    by_cases htext : badText (trimSpace i.name) maxName = true
    · rw [if_neg hname, if_pos htext] at h
      cases h
    by_cases hsort : i.sortOrder < -maxSort ∨ i.sortOrder > maxSort
    · rw [if_neg hname, if_neg htext, if_pos hsort] at h
      cases h
    rw [if_neg hname, if_neg htext, if_neg hsort] at h
    obtain ⟨mode, hmode, h⟩ := bind_eq_ok.mp h
    obtain ⟨actions, hactions, h⟩ := bind_eq_ok.mp h
    obtain ⟨_, hover, h⟩ := bind_eq_ok.mp h
    obtain ⟨p, hp, h⟩ := bind_eq_ok.mp h
    cases h
    refine ⟨hname, by simpa using htext, by omega, hmode, hactions, rfl, fun hexpr => ?_, p, hp⟩
    rwa [if_pos hexpr] at hover
  · rintro ⟨hname, htext, hsort, hmode, hactions, hrule, hover, p, hp⟩
    rw [if_neg hname, if_neg (by simp [htext]), if_neg (by omega), hmode, hactions]
    refine bind_eq_ok.mpr ⟨_, rfl,
      bind_eq_ok.mpr ⟨_, rfl, bind_eq_ok.mpr ⟨(), ?_, bind_eq_ok.mpr ⟨p, ?_, ?_⟩⟩⟩⟩
    · split_ifs with hexpr
      · rw [← hrule] at hexpr ⊢
        exact hover hexpr
      · rfl
    · rwa [← hrule]
    · rw [← hrule]
      rfl

omit [RuleLibrary] in
theorem normalizeMatch_ok {match_ : GoString} {mode : MatchMode} (h : normalizeMatch match_ = .ok mode) :
    mode = .all ∨ mode = .any := by
  unfold normalizeMatch at h
  dsimp only at h
  split_ifs at h
  · exact .inl (Except.ok.inj h).symm
  · exact .inr (Except.ok.inj h).symm

end Built

end TangraTicket.Services.Rules
