import TangraTicket.Library.FirstOccurrence
import TangraTicket.Services.Rules

/-!
What the triage decides. The loop over the rules and their actions, with fields that are set once
and a set of tags seen so far, computes the decision that the matching rules declare.
-/

namespace TangraTicket.Services.Rules

open GoText KeyedTable Store CallProgram FirstOccurrence

abbrev Verdict := Except Unit Bool

def matching (vs : List (Rule × Verdict)) : List Rule :=
  vs.filterMap fun v =>
    match v.2 with
    | .ok true => some v.1
    | _ => none

def failing (vs : List (Rule × Verdict)) : ℕ := vs.countP fun v => !v.2.isOk

-- a value that is not set counts as no action
def assigneeOf (a : Action) : Option GoString :=
  if a.type = .assign ∧ a.assigneeID ≠ [] then some a.assigneeID else none

def statusOf (a : Action) : Option Status :=
  if a.type = .status ∧ a.status ≠ .unset then some a.status else none

def priorityOf (a : Action) : Option Priority :=
  if a.type = .priority ∧ a.priority ≠ .unset then some a.priority else none

def tagRefs (a : Action) : List TagRef :=
  if a.type = .tag then
    (a.tagNames.map fun n => ⟨if a.tagKind = .unset then .tag else a.tagKind, trimSpace n⟩).filter
      fun r : TagRef => r.name ≠ []
  else []

section Declared

variable [GoLibrary]

def declared (vs : List (Rule × Verdict)) : Decision :=
  let acts := (matching vs).flatMap (·.actions)
  { drop := acts.any fun a => a.type = .drop
    matchedIDs := (matching vs).map (·.id)
    matchedNames := (matching vs).map (·.name)
    tags := firsts TagRef.key (acts.flatMap tagRefs)
    assigneeID := (acts.findSome? assigneeOf).getD []
    status := (acts.findSome? statusOf).getD .unset
    priority := (acts.findSome? priorityOf).getD .unset
    errors := failing vs }

def decided (d : Decision) (v : Rule × Verdict) : Decision :=
  match v.2 with
  | .ok true => merge d v.1
  | .ok false => d
  | .error _ => { d with errors := d.errors + 1 }

structure SetOnce {α : Type} [DecidableEq α] (field : Decision → α) (z : α)
    (value : Action → Option α) : Prop where
  set : ∀ a, value a ≠ some z
  action : ∀ d a, field (mergeAction d a) = if field d = z then (value a).getD z else field d
  matched : ∀ d ids names, field { d with matchedIDs := ids, matchedNames := names } = field d

theorem setOnce_assignee : SetOnce (·.assigneeID) [] assigneeOf where
  set a := by
    unfold assigneeOf
    split_ifs with h
    · simpa using h.2
    · simp
  action d a := by
    unfold mergeAction assigneeOf
    split <;> rename_i h <;> simp only [h] <;> grind
  matched d ids names := rfl

theorem setOnce_status : SetOnce (·.status) .unset statusOf where
  set a := by
    unfold statusOf
    split_ifs with h
    · simpa using h.2
    · simp
  action d a := by
    unfold mergeAction statusOf
    split <;> rename_i h <;> simp only [h] <;> grind
  matched d ids names := rfl

theorem setOnce_priority : SetOnce (·.priority) .unset priorityOf where
  set a := by
    unfold priorityOf
    split_ifs with h
    · simpa using h.2
    · simp
  action d a := by
    unfold mergeAction priorityOf
    split <;> rename_i h <;> simp only [h] <;> grind
  matched d ids names := rfl

section SetOnce

variable {α : Type} [DecidableEq α] {field : Decision → α} {z : α} {value : Action → Option α}
  (h : SetOnce field z value)

include h

theorem SetOnce.findSome?_ne (acts : List Action) : acts.findSome? value ≠ some z := by
  intro hz
  obtain ⟨a, -, ha⟩ := List.exists_of_findSome?_eq_some hz
  exact h.set a ha

theorem SetOnce.actions (acts : List Action) (d : Decision) :
    field (acts.foldl mergeAction d) = if field d = z then (acts.findSome? value).getD z else field d := by
  induction acts generalizing d with
  | nil =>
    by_cases hd : field d = z <;> simp [hd]
  | cons a acts ih =>
    rw [List.foldl_cons, ih, h.action, List.findSome?_cons]
    by_cases hd : field d = z
    · have ha := h.set a
      cases hv : value a with
      | none => simp [hd]
      | some v =>
        have hvz : v ≠ z := fun hz => ha (by rw [hv, hz])
        simp [hd, hvz]
    · simp [hd]

theorem SetOnce.rules (rs : List Rule) (d : Decision) :
    field (rs.foldl merge d) =
      if field d = z then ((rs.flatMap (·.actions)).findSome? value).getD z else field d := by
  induction rs generalizing d with
  | nil =>
    by_cases hd : field d = z <;> simp [hd]
  | cons r rs ih =>
    have hmerge : field (merge d r) = if field d = z then (r.actions.findSome? value).getD z
        else field d := by
      rw [merge, h.actions, h.matched]
    rw [List.foldl_cons, ih, hmerge, List.flatMap_cons, List.findSome?_append]
    by_cases hd : field d = z
    · cases hv : r.actions.findSome? value with
      | none => simp [hd]
      | some v =>
        have hvz : v ≠ z := fun hz => h.findSome?_ne r.actions (by rw [hv, hz])
        simp [hd, hvz]
    · simp [hd]

end SetOnce

theorem foldl_addTag (kind : Kind) (names : List GoString) (tags : List TagRef) :
    names.foldl (addTag kind) tags =
      ((names.map fun n => ⟨kind, trimSpace n⟩).filter fun r : TagRef => r.name ≠ []).foldl
      (add TagRef.key) tags := by
  induction names generalizing tags with
  | nil => rfl
  | cons n names ih =>
    rw [List.foldl_cons, ih, List.map_cons]
    by_cases hn : trimSpace n = []
    · rw [List.filter_cons_of_neg (by simpa using hn)]
      simp [addTag, hn]
    · rw [List.filter_cons_of_pos (by simpa using hn), List.foldl_cons]
      simp [addTag, add, hn]

theorem tags_action (d : Decision) (a : Action) :
    (mergeAction d a).tags = (tagRefs a).foldl (add TagRef.key) d.tags := by
  unfold mergeAction tagRefs
  split <;> rename_i htype <;> simp only [htype]
  · rw [if_pos trivial, foldl_addTag]
  all_goals rfl

theorem tags_actions (acts : List Action) (d : Decision) :
    (acts.foldl mergeAction d).tags = (acts.flatMap tagRefs).foldl (add TagRef.key) d.tags := by
  induction acts generalizing d with
  | nil => rfl
  | cons a acts ih => rw [List.foldl_cons, ih, tags_action, List.flatMap_cons, List.foldl_append]

theorem tags_rules (rs : List Rule) (d : Decision) :
    (rs.foldl merge d).tags = ((rs.flatMap (·.actions)).flatMap tagRefs).foldl (add TagRef.key) d.tags := by
  induction rs generalizing d with
  | nil => rfl
  | cons r rs ih =>
    rw [List.foldl_cons, ih, merge, tags_actions, List.flatMap_cons, List.flatMap_append, List.foldl_append]

theorem drop_actions (acts : List Action) (d : Decision) :
    (acts.foldl mergeAction d).drop = (d.drop || acts.any fun a => a.type = .drop) := by
  induction acts generalizing d with
  | nil => simp
  | cons a acts ih =>
    have haction : (mergeAction d a).drop = (d.drop || Decidable.decide (a.type = .drop)) := by
      unfold mergeAction
      split <;> rename_i htype <;> simp [htype]
    rw [List.foldl_cons, ih, haction, List.any_cons, Bool.or_assoc]

theorem drop_rules (rs : List Rule) (d : Decision) :
    (rs.foldl merge d).drop = (d.drop || (rs.flatMap (·.actions)).any fun a => a.type = .drop) := by
  induction rs generalizing d with
  | nil => simp
  | cons r rs ih =>
    rw [List.foldl_cons, ih, merge, drop_actions, List.flatMap_cons, List.any_append, Bool.or_assoc]

theorem unmatched_actions (acts : List Action) (d : Decision) :
    (acts.foldl mergeAction d).matchedIDs = d.matchedIDs ∧ (acts.foldl mergeAction d).matchedNames =
    d.matchedNames ∧
      (acts.foldl mergeAction d).errors = d.errors := by
  induction acts generalizing d with
  | nil => exact ⟨rfl, rfl, rfl⟩
  | cons a acts ih =>
    rw [List.foldl_cons]
    obtain ⟨hids, hnames, herrors⟩ := ih (mergeAction d a)
    rw [hids, hnames, herrors]
    unfold mergeAction
    split <;> exact ⟨rfl, rfl, rfl⟩

theorem matched_rules (rs : List Rule) (d : Decision) :
    (rs.foldl merge d).matchedIDs = d.matchedIDs ++ rs.map (·.id) ∧
      (rs.foldl merge d).matchedNames = d.matchedNames ++ rs.map (·.name) ∧
      (rs.foldl merge d).errors = d.errors := by
  induction rs generalizing d with
  | nil => simp
  | cons r rs ih =>
    rw [List.foldl_cons]
    obtain ⟨hids, hnames, herrors⟩ := ih (merge d r)
    obtain ⟨hids', hnames', herrors'⟩ := unmatched_actions r.actions
      { d with matchedIDs := d.matchedIDs ++ [r.id], matchedNames := d.matchedNames ++ [r.name] }
    rw [hids, hnames, herrors, merge, hids', hnames', herrors']
    simp

theorem foldl_mergeAction_errors (acts : List Action) (d : Decision) (n : ℕ) :
    acts.foldl mergeAction { d with errors := n } = { acts.foldl mergeAction d with errors := n } := by
  induction acts generalizing d with
  | nil => rfl
  | cons a acts ih =>
    have haction : mergeAction { d with errors := n } a = { mergeAction d a with errors := n } := by
      unfold mergeAction
      split <;> rfl
    rw [List.foldl_cons, haction, ih, List.foldl_cons]

theorem foldl_merge_errors (rs : List Rule) (d : Decision) (n : ℕ) :
    rs.foldl merge { d with errors := n } = { rs.foldl merge d with errors := n } := by
  induction rs generalizing d with
  | nil => rfl
  | cons r rs ih =>
    have hmerge : merge { d with errors := n } r = { merge d r with errors := n } :=
      foldl_mergeAction_errors r.actions
        { d with matchedIDs := d.matchedIDs ++ [r.id], matchedNames := d.matchedNames ++ [r.name] } n
    rw [List.foldl_cons, hmerge, ih, List.foldl_cons]

theorem foldl_decided (vs : List (Rule × Verdict)) (d : Decision) :
    vs.foldl decided d = { (matching vs).foldl merge d with errors := d.errors + failing vs } := by
  induction vs generalizing d with
  | nil => rfl
  | cons v vs ih =>
    obtain ⟨r, verdict⟩ := v
    rw [List.foldl_cons, ih]
    match verdict with
    | .ok true =>
      have herrors : (merge d r).errors = d.errors := (matched_rules [r] d).2.2
      simp only [decided, herrors]
      rfl
    | .ok false => rfl
    | .error u =>
      simp only [decided, foldl_merge_errors]
      have hcount : d.errors + 1 + failing vs = d.errors + failing ((r, .error u) :: vs) := by
        simp only [failing, List.countP_cons]
        have hbad : (!(Except.error u : Verdict).isOk) = true := rfl
        rw [if_pos hbad]
        omega
      rw [hcount]
      rfl

theorem decided_eq_declared (vs : List (Rule × Verdict)) : vs.foldl decided {} = declared vs := by
  rw [foldl_decided]
  obtain ⟨hids, hnames, -⟩ := matched_rules (matching vs) {}
  apply Decision.ext
  · exact (drop_rules (matching vs) {}).trans (Bool.false_or _)
  · exact hids
  · exact hnames
  · exact (tags_rules (matching vs) {}).trans (foldl_add_nil _)
  · exact setOnce_assignee.rules (matching vs) {}
  · exact setOnce_status.rules (matching vs) {}
  · exact setOnce_priority.rules (matching vs) {}
  · exact Nat.zero_add _

/-- The rules with the engine's answers, the `n`-th under the `n`-th choice. -/
def judged (email : Email) (rules : List Rule) (cs : ℕ → Choice) : List (Rule × Verdict) :=
  rules.mapIdx fun n r => (r, (cs n).engine r email)

theorem run_decideAll (email : Email) (rules : List Rule) (d : Decision) (w : World) (cs : ℕ → Choice) :
    (run step (decideAll email rules d) w cs).value = (judged email rules cs).foldl decided d := by
  induction rules generalizing d cs with
  | nil => rfl
  | cons r rs ih =>
    have hrest := fun d' => ih d' fun n => cs (n + 1)
    rw [judged, List.mapIdx_cons, List.foldl_cons]
    unfold decided decideAll
    simp only [Bind.bind, request, Prog.perform, Prog.bind, run, step]
    cases hv : (cs 0).engine r email with
    | error u => exact hrest _
    | ok b =>
      cases b with
      | false => exact hrest _
      | true => exact hrest _

/-- With at most `maxRules` rules, all of them taken up in evaluation order, the triage decides what
the rules declare: each field by the first action that sets it, the tags without repetition, a drop
by any drop action. -/
theorem decide_eq_declared (deps : Deps) (tenantID : GoString) (email : Email) (w : World) (cs : ℕ → Choice)
    {rules : List Rule} (hlist : (step (cs 0) (.store (.listEnabledRules tenantID)) w).1 = .ok rules)
    (hmax : deps.maxRules ≤ 0 ∨ rules.length ≤ deps.maxRules) :
    (run step (Rules.decide deps tenantID email).run w cs).value =
      .ok (declared (judged email rules fun n => cs (n + 1))) := by
  have htaken : (if deps.maxRules > 0 then rules.take deps.maxRules.toNat else rules) = rules := by
    split_ifs with hpos
    · apply List.take_of_length_le
      omega
    · rfl
  have hanswer : (run step (Rules.decide deps tenantID email).run w cs) =
      run step ((decideAll email rules {}).bind fun a => .ret (.ok a))
        (step (cs 0) (.store (.listEnabledRules tenantID)) w).2 fun n => cs (n + 1) := by
    show run step (Prog.bind
      (.ret (Except.mapError Err.rulesList (step (cs 0) (.store (.listEnabledRules tenantID)) w).1))
      _) _ _ = _
    rw [hlist]
    show run step (Prog.bind
      (decideAll email (if deps.maxRules > 0 then rules.take deps.maxRules.toNat else rules)
        {}) _) _ _ = _
    rw [htaken]
    rfl
  rw [hanswer, run_seq]
  show Except.ok (run step (decideAll email rules {}) _ _).value = _
  rw [run_decideAll, decided_eq_declared]

end Declared

def emptyThenAgent : Rule :=
  { id := "r", tenantID := "t", enabled := true,
    actions := [{ type := .assign }, { type := .assign, assigneeID := "a" }, { type := .drop }] }

def triaged : World := { mem := { rules := Table.empty.put emptyThenAgent } }

def matchAll (_ : ℕ) : Choice := { engine := fun _ _ => .ok true }

/-- The first assign action names nobody; the decision takes the second. -/
theorem first_assign_passed_over :
    letI := asciiLibrary
    (emptyThenAgent.actions.find? fun a => a.type = .assign).map (·.assigneeID) = some [] ∧
      (run step (Rules.decide {} "t" (emailOf {} [])).run triaged matchAll).value.toOption.map
      (·.assigneeID) =
        some (goString "a") := by
  decide +kernel

theorem decide_eq_declared_passed_over :
    letI := asciiLibrary
    (run step (Rules.decide {} "t" (emailOf {} [])).run triaged matchAll).value =
      .ok (declared (judged (emailOf {} []) [emptyThenAgent] matchAll)) := by
  let := asciiLibrary
  exact decide_eq_declared {} "t" _ triaged matchAll (by rfl) (.inl (by decide))

end TangraTicket.Services.Rules
