import Mathlib.Data.Fintype.Option
import TangraTicket.Library.Interleaving
import TangraTicket.Properties.RuleOrder
import TangraTicket.Services.Frames
import TangraTicket.Services.Operations
import TangraTicket.Services.RuleService

/-!
The number of a tenant's rules while rules are created, changed, deleted and imported at once. A
creation counts the rules before it inserts one; an import counts nothing.
-/

namespace TangraTicket.Services.Rules

open GoText KeyedTable Store CallProgram

def ruleCount (tenantID : GoString) (m : Mem) : ℕ :=
  (m.rules.rows.filter fun r => r.tenantID = tenantID).length

section Store

variable [GoLibrary] (now : Time) (id : GoString) (m : Mem)

omit [GoLibrary] in
theorem ruleCount_createRule (T : GoString) (r : Rule) :
    ruleCount T (m.createRule now r).2 ≤ ruleCount T m + if r.tenantID = T then 1 else 0 := by
  unfold Mem.createRule
  split
  · exact Nat.le_add_right _ _
  · rename_i hdup
    have hnew : m.rules.get? r.id = none := by simpa using hdup
    unfold ruleCount
    rw [Table.put_rows_new (by exact hnew), List.filter_append, List.length_append]
    by_cases htenant : r.tenantID = T <;> simp [htenant]

omit [GoLibrary] in
theorem ruleCount_updateRule (T : GoString) (r : Rule) :
    ruleCount T (m.updateRule now r).2 = ruleCount T m := by
  unfold Mem.updateRule
  split
  · rfl
  · rename_i cur hcur
    obtain ⟨hmem, hten, hid⟩ := rule_ok hcur
    have htenants := Table.map_put_old (t := m.rules)
      (r := { r with createdAt := cur.createdAt, version := cur.version + 1, updatedAt := now,
                     matchMode := if r.matchMode = .unset then .all else r.matchMode })
      hmem hid.symm (fun x => Decidable.decide (x.tenantID = T)) (by rw [hten])
    unfold ruleCount
    rw [← List.countP_eq_length_filter, ← List.countP_eq_length_filter]
    exact (List.countP_map ..).symm.trans ((congrArg (List.countP id) htenants).trans (List.countP_map ..))

omit [GoLibrary] in
theorem ruleCount_deleteRule (T ten i : GoString) : ruleCount T (m.deleteRule ten i).2 ≤ ruleCount T m := by
  unfold Mem.deleteRule
  split
  · exact le_rfl
  · exact (List.Sublist.filter _ List.filter_sublist).length_le

omit [GoLibrary] in
theorem ruleCount_congr {m m' : Mem} (h : m'.rules = m.rules) (T : GoString) :
    ruleCount T m' = ruleCount T m := by
  rw [ruleCount, h, ruleCount]

theorem ruleCount_performStore (T : GoString) (q : StoreCall)
    (hq : ∀ r, q = .createRule r → r.tenantID ≠ T) :
    ruleCount T (performStore now id m q).2 ≤ ruleCount T m := by
  by_cases hw : writesRules q = true
  · cases q with
    | createRule r =>
      have hcreate := ruleCount_createRule now m T r
      rwa [if_neg (hq r rfl), Nat.add_zero] at hcreate
    | updateRule r => exact (ruleCount_updateRule now m T r).le
    | deleteRule ten i => exact ruleCount_deleteRule m T ten i
    | _ => cases hw
  · exact (ruleCount_congr (rules_performStore now id m (by simpa using hw)) T).le

end Store

inductive RuleTask
  | create (subj : Subjects) (input : Input)
  | update (subj : Subjects) (id : GoString) (input : Input)
  | delete (subj : Subjects) (id : GoString)
  | importBackup (subj : Subjects) (b : Backup.Document) (opts : Backup.Options)

def RuleTask.isImport : RuleTask → Bool
  | .importBackup .. => true
  | _ => false

def RuleTask.act [GoLibrary] [RuleLibrary] (d : Deps) : RuleTask → Act Unit
  | .create subj input => finish (Rules.create d subj input)
  | .update subj id input => finish (Rules.update d subj id input)
  | .delete subj id => finish (Rules.delete subj id)
  | .importBackup subj b opts => finish (Backup.importDocument d subj b opts)

def sizesListed (tenantID : GoString) (log : List (Event Call Answer)) : List ℕ :=
  log.filterMap fun x =>
    match x with
    | ⟨.store (.listRules ten), .ok rules⟩ =>
      if ten = tenantID then some (rules : List Rule).length else none
    | _ => none

def Counted (d : Deps) (log : List (Event Call Answer)) : Call → Prop
  | .store (.createRule r) => ∃ n ∈ sizesListed r.tenantID log, (n : ℤ) < ruleLimit d
  | _ => True

def InsertsNone : Call → Prop
  | .store (.createRule _) => False
  | _ => True

section Contracts

variable {A : (e : Call) → Answer e → Prop} (d : Deps)

theorem insertsNone_checkAssignees (T : GoString) (as : List Action) :
    Issues A InsertsNone (checkAssignees d T as).run (fun _ => True) := by
  induction as with
  | nil => trivial
  | cons a as ih =>
    unfold checkAssignees
    split_ifs
    · exact ih
    · trivial
    · refine Issues.lift ⟨trivial, fun r _ => ?_⟩
      rcases r with e | u
      · cases e <;> trivial
      · exact ih

variable [GoLibrary] [RuleLibrary] (subj : Subjects)

theorem insertsNone_validate (i : Input) :
    Issues A InsertsNone (validate d subj i).run (fun _ => True) := by
  unfold validate checked
  cases (build i).mapError Failure.invalid with
  | error e => trivial
  | ok r => exact (insertsNone_checkAssignees d _ _).andThen (fun _ _ => trivial) fun _ => trivial

theorem insertsNone_update (id : GoString) (i : Input) :
    Issues A InsertsNone (update d subj id i).run (fun _ => True) := by
  unfold update checked
  cases tenantOf subj with
  | error e => trivial
  | ok T =>
    have hget : Issues A InsertsNone (query (.getRule T id) mapErr).run (fun _ => True) :=
      ⟨trivial, fun _ _ => trivial⟩
    refine Issues.andThen (x := query (.getRule T id) mapErr) hget (fun cur _ => ?_) fun _ => trivial
    refine (insertsNone_validate d subj i).andThen (fun r _ => ?_) fun _ => trivial
    exact Issues.lift ⟨trivial, fun now _ => ⟨trivial, fun _ _ => trivial⟩⟩

omit [GoLibrary] [RuleLibrary] in
theorem insertsNone_delete (id : GoString) : Issues A InsertsNone (delete subj id).run (fun _ => True) := by
  unfold delete checked
  cases tenantOf subj with
  | error e => trivial
  | ok T => exact ⟨trivial, fun _ _ => trivial⟩

def RuleTask.Contract (task : RuleTask) (log : List (Event Call Answer)) (e : Call) : Prop :=
  task.isImport = true ∨ Counted d log e

omit [GoLibrary] [RuleLibrary] in
theorem counted_of_insertsNone {log : List (Event Call Answer)} {e : Call} (h : InsertsNone e) :
    Counted d log e := by
  cases e with
  | store q =>
    cases q with
    | createRule r => exact h.elim
    | _ => trivial
  | _ => trivial

omit [GoLibrary] [RuleLibrary] in
theorem counted_of_issues {ε α : Type} {x : Fallible Call Answer ε α}
    (h : Issues A InsertsNone x.run (fun _ => True)) (log : List (Event Call Answer)) :
    Obeys A (Counted d) (fun l _ => ∃ l', l = log ++ l') log x.run :=
  (h.obeys fun _ _ _ he => counted_of_insertsNone d he).mono fun _ _ hl => ⟨hl.2.choose, hl.2.choose_spec.1⟩

theorem counted_create (i : Input) : Obeys A (Counted d) (fun _ _ => True) [] (create d subj i).run := by
  unfold create checked
  cases tenantOf subj with
  | error e => trivial
  | ok T =>
    refine ⟨trivial, fun r _ => ?_⟩
    rcases r with e | rules
    · trivial
    -- from here on the log holds the size that was compared with the limit
    have hlisted : ∀ l, (rules : List Rule).length ∈ sizesListed T
        ([⟨.store (.listRules T), .ok rules⟩] ++ l) := by
      intro l
      simp [sizesListed]
    show Obeys A (Counted d) _ [⟨.store (.listRules T), .ok rules⟩] (ite _ _ _ : Managing Rule).run
    split_ifs with hfull
    · trivial
    refine Obeys.lift ⟨trivial, fun id _ => ?_⟩
    refine Obeys.andThen (counted_of_issues d (insertsNone_validate d subj i) _) ?_ fun _ _ _ => trivial
    rintro l r ⟨l', rfl⟩
    refine Obeys.lift ⟨trivial, fun now _ => ⟨⟨_, ?_, by simpa using hfull⟩, fun r _ => ?_⟩⟩
    · simpa only [List.append_assoc] using hlisted _
    · rcases r with e | u
      · trivial
      · exact ⟨trivial, fun _ _ => trivial⟩

end Contracts

section Runs

variable {ι : Type} [DecidableEq ι] (d : Deps) (tasks : ι → RuleTask)

/-- Where a rule is about to be inserted: a creation finds no more rules of the tenant than it
listed, and an import finds the tenant below the limit. -/
def Roomy (cfg : Config ι Call Answer Unit World) (i : ι) (_ : Choice) : Prop :=
  match (cfg.threads i).prog.pending with
  | some (.store (.createRule r)) =>
    if (tasks i).isImport then (ruleCount r.tenantID cfg.state.mem : ℤ) < ruleLimit d
    else ∀ n ∈ sizesListed r.tenantID (cfg.threads i).log, ruleCount r.tenantID cfg.state.mem ≤ n
  | _ => True

instance (cfg : Config ι Call Answer Unit World) (i : ι) (c : Choice) :
    Decidable (Roomy d tasks cfg i c) := by
  unfold Roomy
  split <;> infer_instance

omit [DecidableEq ι] in
theorem Roomy.room {cfg : Config ι Call Answer Unit World} {i : ι} {c : Choice}
    (hc : Roomy d tasks cfg i c) {r : Rule} {k : Except RepoErr Unit → Act Unit}
    (hp : (cfg.threads i).prog = .call (.store (.createRule r)) k)
    (hcontract : (tasks i).Contract d (cfg.threads i).log (.store (.createRule r))) :
    (ruleCount r.tenantID cfg.state.mem : ℤ) < ruleLimit d := by
  unfold Roomy at hc
  rw [hp] at hc
  rcases hcontract with himport | ⟨n, hn, hlimit⟩
  · simpa [Prog.pending, himport] using hc
  · by_cases himport : (tasks i).isImport = true
    · simpa [Prog.pending, himport] using hc
    · have hlisted : ruleCount r.tenantID cfg.state.mem ≤ n := by
        simp only [Prog.pending, himport] at hc
        exact hc n hn
      omega

theorem taken_eq_self {rules : List Rule} (h : (rules.length : ℤ) ≤ ruleLimit d) :
    taken d.maxRules rules = rules := by
  unfold taken ruleLimit at *
  split_ifs with hpos
  · rw [if_neg (by omega)] at h
    apply List.take_of_length_le
    omega
  · rfl

theorem length_listEnabled (m : Mem) (T : GoString) :
    (Mem.sortRules (m.rules.rows.filter fun r => r.tenantID = T ∧
      (true = false ∨ r.enabled))).length ≤ ruleCount T m := by
  unfold Mem.sortRules ruleCount
  rw [(perm_sortSlice _ _).length_eq, ← List.countP_eq_length_filter, ← List.countP_eq_length_filter]
  exact List.countP_mono_left fun r _ hr => by simpa using (And.left (by simpa using hr))

variable [GoLibrary] [RuleLibrary]

theorem contract_act {A : (e : Call) → Answer e → Prop} (task : RuleTask) :
    Obeys A (task.Contract d) (fun _ _ => True) [] (task.act d) := by
  have hfinish : ∀ {ε α : Type} {x : Fallible Call Answer ε α},
      Obeys A (Counted d) (fun _ _ => True) [] x.run →
      Obeys A (task.Contract d) (fun _ _ => True) [] (finish x) :=
    fun hx => Obeys.bind ((hx.weaken fun _ _ => .inr).mono fun _ _ _ => trivial)
  cases task with
  | create subj input => exact hfinish (counted_create d subj input)
  | update subj id input =>
    exact hfinish ((counted_of_issues d (insertsNone_update d subj id input) []).mono fun _ _ _ => trivial)
  | delete subj id =>
    exact hfinish ((counted_of_issues d (insertsNone_delete subj id) []).mono fun _ _ _ => trivial)
  | importBackup subj b opts => exact (Obeys.any _ []).weaken fun _ _ _ => .inl rfl

/-- As long as every insertion finds the room it counted on, no tenant gets more rules than the
limit, and the triage evaluates every enabled rule of every tenant. -/
theorem rules_within_limit (w : World) (hw : ∀ T, (ruleCount T w.mem : ℤ) ≤ ruleLimit d)
    {cfg : Config ι Call Answer Unit World}
    (h : Reaches step (Roomy d tasks) (Config.start w fun i => (tasks i).act d) cfg) (T : GoString) :
    (ruleCount T cfg.state.mem : ℤ) ≤ ruleLimit d ∧
      ∀ (email : Email) (answers : ℕ → (e : Call) → Answer e),
        answers 0 (.store (.listEnabledRules T)) = (cfg.state.mem.listRules T true).1 →
        Except.ok (run noting (Rules.decide d T email).run [] answers).state =
        (cfg.state.mem.listRules T true).1 := by
  have hinv : (∀ T, (ruleCount T cfg.state.mem : ℤ) ≤ ruleLimit d) ∧ _ :=
    h.guarded (A := fun _ _ => True) (I := fun cfg => ∀ T, (ruleCount T cfg.state.mem : ℤ) ≤ ruleLimit d) hw
      (fun i => contract_act d (tasks i)) ?_
  · have hcount := hinv.1 T
    refine ⟨hcount, fun email answers hlist => ?_⟩
    have hfew := length_listEnabled cfg.state.mem T
    rw [evaluated_decide d T email hlist, taken_eq_self d (by omega)]
    rfl
  · -- one step: a store call that inserts no rule lowers no limit, and an insertion is covered by
    -- its thread's contract
    intro cfg i c e k hI hc hp hcontract
    refine ⟨trivial, fun T => ?_⟩
    refine mem_step (J := fun m => (ruleCount T m : ℤ) ≤ ruleLimit d) (hI T) fun q he hfail => ?_
    by_cases hins : ∃ r, q = .createRule r ∧ r.tenantID = T
    · obtain ⟨r, rfl, rfl⟩ := hins
      subst he
      have hroom := hc.room d tasks hp hcontract
      have hone := ruleCount_createRule c.now cfg.state.mem r.tenantID r
      rw [if_pos rfl] at hone
      show (ruleCount r.tenantID (cfg.state.mem.createRule c.now r).2 : ℤ) ≤ _
      omega
    · have hle := ruleCount_performStore c.now c.newID cfg.state.mem T q
        fun r hq hr => hins ⟨r, hq, hr⟩
      have := hI T
      omega

end Runs

@[reducible] def anyExpression : RuleLibrary where
  parseFloat _ := none
  formatFloat _ := []
  isPrint _ := true
  regexpError _ := none
  celCompile _ := .ok ⟨true, []⟩
  celProgram _ := .ok ()

def caller : Subjects := ⟨uniformID 0x61, uniformID 0x62, [], .agent⟩

def dropping : Input := { name := "Drop all", expression := "true", actions := [{ type := .drop }] }

def stepID (n : ℕ) : Choice := { newID := uniformID (0x30 + (n % 10).toUInt8) }

def creations {ι : Type} (_ : ι) : RuleTask := .create caller dropping

def racing : Config Bool Call Answer Unit World :=
  letI := asciiLibrary
  letI := anyExpression
  (Config.start {} fun i : Bool => (creations i).act { maxRules := 1 }).schedule step
    [(true, stepID 0), (false, stepID 1), (true, stepID 2), (false, stepID 3), (true, stepID 4),
      (false, stepID 5), (true, stepID 6), (false, stepID 7)]

def twoRules : Backup.Document :=
  { rules := [{ id := uniformID 0x31, name := "First", enabled := true },
      { id := uniformID 0x32, name := "Second", enabled := true }] }

def imported : World :=
  letI := asciiLibrary
  (run step (Backup.importDocument { maxRules := 1 } caller twoRules {}).run {} stepID).state

def evaluated [GoLibrary] (w : World) : ℕ :=
  (run noting (Rules.decide { maxRules := 1 } caller.tenantID (emailOf {} [])).run [] fun _ e =>
    (step {} e w).1).state.length

/-- With one rule allowed a tenant gets two, by creations that race and by one import, and the
triage leaves one out. -/
theorem rules_pass_limit :
    letI := asciiLibrary
    (ruleCount caller.tenantID racing.state.mem = 2 ∧ evaluated racing.state = 1) ∧
      (ruleCount caller.tenantID imported.mem = 2 ∧ evaluated imported = 1) := by
  decide +kernel

-- the second creation begins before the first has returned; the third finds no room
def creationTurns : List (Option Bool × Choice) :=
  [(none, stepID 0), (none, stepID 1), (none, stepID 2), (none, stepID 3), (some true, stepID 4),
    (some true, stepID 5), (none, stepID 6), (some true, stepID 7), (some true, stepID 8),
    (some false, stepID 9), (some true, stepID 0)]

theorem rules_within_limit_in_turn :
    letI := asciiLibrary
    letI := anyExpression
    ∃ cfg : Config (Option Bool) Call Answer Unit World,
      Reaches step (Roomy { maxRules := 2 } creations)
        (Config.start {} fun i => (creations i).act { maxRules := 2 }) cfg ∧
        (∀ i, (cfg.threads i).prog.result? = some ()) ∧ ruleCount caller.tenantID cfg.state.mem = 2 ∧
        (ruleCount caller.tenantID cfg.state.mem : ℤ) ≤ ruleLimit { maxRules := 2 } := by
  let := asciiLibrary
  let := anyExpression
  have hroomy : (Config.start {} fun i => (creations i).act { maxRules := 2 }).Along step
      (Roomy { maxRules := 2 } creations) creationTurns := by decide +kernel
  have hreach := Reaches.refl.schedule creationTurns hroomy
  refine ⟨_, hreach, by decide +kernel, by decide +kernel, ?_⟩
  exact (rules_within_limit { maxRules := 2 } creations {} (fun T => Int.natCast_nonneg 2) hreach
    caller.tenantID).1

end TangraTicket.Services.Rules
