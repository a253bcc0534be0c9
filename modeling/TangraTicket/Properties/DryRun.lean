import TangraTicket.Library.VersionedCache
import TangraTicket.Properties.RuleLimit
import TangraTicket.Services.RuleChecks
import TangraTicket.Services.RuleTest

/-!
The dry run predicts the triage: what a test reports of an input is what the rule saved from it does
to the same message, in every state the rule engine's cache of programs can be in.
-/

namespace TangraTicket.Services.Rules

open GoText KeyedTable Store CallProgram VersionedCache Checks

section Cache

variable {cache : Cache} {id k : GoString}

theorem lookup_forget (cache : Cache) (id k : GoString) :
    (cache.forget id).lookup k = if k = id then none else cache.lookup k := by
  induction cache with
  | nil => simp [Cache.forget]
  | cons e cache ih =>
    rw [Cache.forget] at ih
    rw [Cache.forget, List.filter_cons]
    by_cases he : e.1 = id
    · rw [if_neg (by simpa using he), ih, List.lookup_cons]
      split_ifs with hk
      · rfl
      · have hke : (k == e.1) = false := by simpa [he] using hk
        rw [hke]
    · rw [if_pos (by simpa using he), List.lookup_cons, List.lookup_cons, ih]
      split_ifs with hk
      · have hke : (k == e.1) = false := by simpa [hk] using Ne.symm he
        rw [hke]
      · rfl

variable [GoLibrary] [RuleLibrary] {r : Rule}

theorem program_eq_compile
    (h : ∀ p, cache.lookup r.id = some p → p.version = r.version → compile r = .ok p) :
    (program cache r).1 = compile r := by
  have hrecompile : (recompile cache r).1 = compile r := by
    unfold recompile
    cases hc : compile r <;> rfl
  unfold program
  split_ifs with hid
  · rfl
  · split
    · rename_i p hp
      split_ifs with hversion
      · exact (h p hp hversion).symm
      · exact hrecompile
    · exact hrecompile

theorem lookup_program (cache : Cache) (r : Rule) :
    (∀ k p, (program cache r).2.lookup k = some p → cache.lookup k = some p) ∨
      ∃ p, compile r = .ok p ∧ ∀ k q, (program cache r).2.lookup k = some q →
        Function.update (fun k => cache.lookup k) r.id (some p) k = some q := by
  have hforget : ∀ k p, (cache.forget r.id).lookup k = some p → cache.lookup k = some p := by
    intro k p hp
    rw [lookup_forget] at hp
    split_ifs at hp
    exact hp
  have hrecompile : (∀ k p, (recompile cache r).2.lookup k = some p → cache.lookup k = some p) ∨
      ∃ p, compile r = .ok p ∧ ∀ k q, (recompile cache r).2.lookup k = some q →
        Function.update (fun k => cache.lookup k) r.id (some p) k = some q := by
    unfold recompile
    cases hc : compile r with
    | error e => exact .inl hforget
    | ok p =>
      refine .inr ⟨p, rfl, fun k q hq => ?_⟩
      rw [List.lookup_cons] at hq
      by_cases hk : k = r.id
      · rw [hk, Function.update_self]
        rwa [show (k == r.id) = true by simpa using hk] at hq
      · rw [Function.update_of_ne hk]
        rw [show (k == r.id) = false by simpa using hk] at hq
        split_ifs at hq
        · cases hq
        · exact hforget k q hq
  unfold program
  split_ifs with hid
  · exact .inl fun k p hp => hp
  · split
    · split_ifs
      · exact .inl fun k p hp => hp
      · exact hrecompile
    · exact hrecompile

end Cache

section States

variable [GoLibrary] [RuleLibrary] [Evaluator]

def Orderly (s : World × Cache) : Call → Prop
  | .store (.createRule r) => s.2.lookup r.id = none
  | .evaluate r _ => ∀ row, s.1.mem.rules.get? r.id = some row → r.version < row.version ∨ row = r
  | _ => True

inductive Reached : World × Cache → Prop
  | start (w : World) : Reached (w, [])
  | call {s : World × Cache} (hs : Reached s) (c : Choice) {e : Call} (he : Orderly s e) : Reached
      (engineStep c e s).2
  | forget {s : World × Cache} (hs : Reached s) (id : GoString) : Reached (s.1, s.2.forget id)

def UpToDate (s : World × Cache) : Prop :=
  Current Rule.version Program.version (fun r => (compile r).toOption) s.1.mem.rules.get?
    (fun id => s.2.lookup id)

omit [GoLibrary] [RuleLibrary] [Evaluator] in
theorem get?_put_eq_update (t : Table GoString Rule Rule.id) (r : Rule) :
    (t.put r).get? = Function.update t.get? r.id (some r) := by
  funext k
  rw [Table.get?_put, Function.update_apply]

omit [Evaluator] in
theorem upToDate_performStore {w : World} {cache : Cache} (h : UpToDate (w, cache)) (now : Time)
    (id : GoString) {q : StoreCall} (hq : Orderly (w, cache) (.store q)) :
    UpToDate ({ w with mem := (performStore now id w.mem q).2 }, cache) := by
  unfold UpToDate at h ⊢
  cases hw : writesRules q with
  | false =>
    have hrules := rules_performStore now id w.mem hw
    simpa only [hrules] using h
  | true =>
    cases q <;> try cases hw
    · rename_i r
      simp only [performStore, Mem.createRule]
      split
      · exact h
      · simp only [get?_put_eq_update]
        exact h.insert hq _
    · rename_i r
      simp only [performStore, Mem.updateRule]
      split
      · exact h
      · rename_i cur hcur
        obtain ⟨hmem, -, hid⟩ := rule_ok hcur
        simp only [get?_put_eq_update]
        exact h.advance (Table.get?_eq_some.mpr ⟨hmem, hid⟩) (Int.lt_succ cur.version)
    · rename_i T i
      simp only [performStore, Mem.deleteRule]
      split
      · exact h
      · refine h.of_rows fun k row hrow => ?_
        rw [Table.get?_keep] at hrow
        exact (Option.filter_eq_some_iff.mp hrow).1

omit [Evaluator] in
theorem compile_of_same {r stored : Rule} (hexpr : stored.expression = r.expression)
    (hmode : stored.matchMode = r.matchMode) (hconds : stored.conditions = r.conditions) :
    compile stored = (compile r).map fun p => ⟨p.expr, stored.version⟩ := by
  unfold compile effective
  rw [hexpr, hmode, hconds]
  generalize (if trimSpace r.expression = [] then goString "conditions" else goString "expression") = field
  generalize (if trimSpace r.expression ≠ [] then
    _ else buildExpression r.matchMode.text r.conditions) = text
  rcases text with e | expr
  · rfl
  · rcases hc : RuleLibrary.celCompile expr with issues | type
    · simp [bind, Except.bind, hc, Except.map]
    · by_cases hbool : type.isBool = false
      · simp [bind, Except.bind, hc, hbool, Except.map]
      · rcases hp : RuleLibrary.celProgram expr with e | u
        · simp [bind, Except.bind, hc, hbool, hp, Except.map]
        · simp [bind, Except.bind, hc, hbool, hp, Except.map]

omit [Evaluator] in
theorem compile_version {r : Rule} {p : Program} (h : compile r = .ok p) : p.version = r.version := by
  have hsame := compile_of_same (show r.expression = r.expression from rfl) rfl rfl
  rw [h] at hsame
  exact congrArg Program.version (Except.ok.inj hsame)

theorem upToDate_engineStep {s : World × Cache} (h : UpToDate s) (c : Choice) {e : Call}
    (he : Orderly s e) :
    UpToDate (engineStep c e s).2 := by
  obtain ⟨w, cache⟩ := s
  have hother : UpToDate ((step c e w).2, cache) := by
    refine mem_step (J := fun m =>
      Current Rule.version Program.version (fun r => (compile r).toOption) m.rules.get?
        fun id => cache.lookup id) h fun q hq _ => ?_
    subst hq
    exact upToDate_performStore h c.now c.newID he
  cases e with
  | evaluate r m =>
    show Current _ _ _ w.mem.rules.get? fun id => (program cache r).2.lookup id
    rcases lookup_program cache r with hkept | ⟨p, hp, hfilled⟩
    · exact Current.of_cache h hkept
    · have hmake : (compile r).toOption = some p := by rw [hp]; rfl
      exact Current.of_cache (Current.fill h hmake (compile_version hp) he) hfilled
  | store | putObject | deleteObject | newID | now | lookup | send | publish => exact hother

theorem Reached.upToDate {s : World × Cache} (hs : Reached s) : UpToDate s := by
  induction hs with
  | start w => exact fun k p row hp _ => by cases hp
  | call _ c he ih => exact upToDate_engineStep ih c he
  | forget _ id ih =>
    refine Current.of_cache ih fun k p hp => ?_
    rw [lookup_forget] at hp
    split_ifs at hp
    exact hp

end States

section Saving

variable [GoLibrary] [RuleLibrary] [Evaluator] (d : Deps) (subj : Subjects)

/-- How an input is saved: as a new rule, or in place of an old one. -/
inductive Save
  | create
  | update (id : GoString)

omit [Evaluator] in
def Save.program (i : Input) : Save → Managing Rule
  | .create => Rules.create d subj i
  | .update id => Rules.update d subj id i

structure Stored (r stored : Rule) : Prop where
  name : stored.name = r.name
  enabled : stored.enabled = r.enabled
  matchMode : stored.matchMode = r.matchMode
  conditions : stored.conditions = r.conditions
  expression : stored.expression = r.expression
  actions : stored.actions = r.actions

def SavedIn (i : Input) (cache : Cache) (stored : Rule) (s : World × Cache) : Prop :=
  ∃ r, subj.tenantID ≠ [] ∧ build i = .ok r ∧ Stored r stored ∧
    stored.tenantID = subj.tenantID ∧ s.2 = cache ∧
    s.1.mem.rules.get? stored.id = some stored ∧ ∀ p, cache.lookup stored.id = some p →
    p.version ≠ stored.version

variable {Ok : Choice → Prop} (s : World × Cache)

theorem ensures_checkAssignees (T : GoString) (as : List Action) :
    Ensures engineStep Ok (checkAssignees d T as).run (fun _ s' => s' = s) s := by
  induction as with
  | nil => rfl
  | cons a as ih =>
    unfold checkAssignees
    split_ifs
    · exact ih
    · rfl
    · refine EnsuresWhen.lift fun c _ => ?_
      show EnsuresWhen engineStep _ (ExceptT.run _) _ s
      generalize (engineStep c (.lookup T a.assigneeID) s).1 = answer
      rcases answer with e | u
      · cases e <;> rfl
      · exact ih

theorem ensures_validate (i : Input) :
    Ensures engineStep Ok (validate d subj i).run
      (fun res s' => s' = s ∧ ∀ r, res = .ok r → build i = .ok r) s := by
  unfold validate checked
  cases hb : build i with
  | error e => exact ⟨rfl, fun r hr => by cases hr⟩
  | ok r =>
    refine (ensures_checkAssignees d s subj.tenantID r.actions).andThen ?_ ?_
    · rintro _ s' rfl
      exact ⟨rfl, fun r' hr' => by rw [Except.ok.inj hr']⟩
    · rintro e s' rfl
      exact ⟨rfl, fun r' hr' => by cases hr'⟩

omit [GoLibrary] [RuleLibrary] [Evaluator] in
theorem stored_matchMode {mode : MatchMode} (h : mode = .all ∨ mode = .any) :
    (if mode = .unset then MatchMode.all else mode) = mode := by
  rcases h with rfl | rfl <;> rfl

theorem ensures_query {q : StoreCall} {g : RepoErr → Failure}
    {Q : Except Failure q.Value → World × Cache → Prop} (hfail : Q (.error (g .failure)) s)
    (hok : ∀ c, Ok c → Q ((performStore c.now c.newID s.1.mem q).1.mapError g)
      ({ s.1 with mem := (performStore c.now c.newID s.1.mem q).2 }, s.2)) :
    Ensures engineStep Ok (query q g).run Q s := by
  intro c hc
  show Q ((step c (.store q) s.1).1.mapError g) ((step c (.store q) s.1).2, s.2)
  cases hf : c.fail q.method with
  | true =>
    rw [step_store_failed hf]
    exact hfail
  | false =>
    rw [step_store hf]
    exact hok c hc

theorem ensures_read {q : StoreCall} {g : RepoErr → Failure}
    (hq : ∀ now id m, (performStore now id m q).2 = m) :
    Ensures engineStep Ok (query q g).run (fun _ s' => s' = s) s := by
  refine ensures_query s rfl fun c _ => ?_
  rw [hq]

omit [Evaluator] in
theorem createRule_stored {i : Input} {r : Rule} (hbuild : build i = .ok r) {m : Mem}
    {now' now : Time} {id T : GoString}
    (h : (m.createRule now'
      { r with id := id, tenantID := T, version := 1, createdAt := now, updatedAt := now }).1 = .ok
      ()) :
    ∃ stored, Stored r stored ∧ stored.tenantID = T ∧ stored.id = id ∧
      ((m.createRule now'
        { r with
          id := id, tenantID := T, version := 1, createdAt := now,
          updatedAt := now }).2).rules.get? id =
        some stored := by
  unfold Mem.createRule at h ⊢
  split at h
  · cases h
  · rename_i hnew
    rw [if_neg hnew]
    refine ⟨_, ?_, ?_, ?_, (congrFun (get?_put_eq_update _ _) _).trans (Function.update_self ..)⟩
    · exact ⟨rfl, rfl, stored_matchMode (normalizeMatch_ok (build_eq_ok.mp hbuild).mode), rfl, rfl, rfl⟩
    · rfl
    · rfl

omit [GoLibrary] [RuleLibrary] [Evaluator] in
theorem rule_eq_ok {m : Mem} {T id : GoString} {r : Rule} (hget : m.rules.get? id = some r)
    (hT : r.tenantID = T) :
    m.rule T id = .ok r := by
  have hown : (m.rules.get? id).filter (fun r => r.tenantID = T) = some r :=
    Option.filter_eq_some_iff.mpr ⟨hget, decide_eq_true hT⟩
  rw [Mem.rule, hown]

theorem ensures_create (i : Input) :
    Ensures engineStep (fun c => s.2.lookup c.newID = none) (create d subj i).run
      (Ends (SavedIn subj i s.2) fun _ _ => True) s := by
  unfold create checked tenantOf
  split_ifs with hten
  · trivial
  refine EnsuresWhen.andThen (x := query (.listRules subj.tenantID) .repo) (S := fun _ s' => s' = s)
    (ensures_read s fun _ _ _ => rfl) ?_ fun _ _ _ => trivial
  rintro existing s₀ rfl
  split_ifs with hfull
  · trivial
  refine EnsuresWhen.lift fun c hc => ?_
  refine (ensures_validate d subj s₀ i).andThen ?_ fun _ _ _ => trivial
  rintro r s₀ ⟨rfl, hr⟩
  have hbuild := hr r rfl
  refine EnsuresWhen.lift fun c' _ => ?_
  refine EnsuresWhen.andThen (S := fun res s₁ => res = .ok () → s₁.2 = s₀.2 ∧ ∃ stored, Stored r stored ∧
      stored.tenantID = subj.tenantID ∧ stored.id = c.newID ∧ s₁.1.mem.rules.get? c.newID = some stored)
    (ensures_query _ (fun h => by cases h) fun c₁ _ hok => ?_) ?_ fun _ _ _ => trivial
  · refine ⟨rfl, createRule_stored hbuild ?_⟩
    exact mapError_eq_ok hok
  · rintro _ s₁ hs₁
    obtain ⟨hcache, stored, hstored, hT, hid, hget⟩ := hs₁ rfl
    refine ensures_query _ trivial fun c₂ _ => ?_
    have hrule := rule_eq_ok hget hT
    show Ends _ _ ((s₁.1.mem.rule subj.tenantID c.newID).mapError mapErr) _
    rw [hrule]
    refine ⟨r, hten, hbuild, hstored, hT, hcache, by rw [hid]; exact hget, fun p hp => ?_⟩
    rw [hid, hc] at hp
    cases hp

omit [Evaluator] in
theorem updateRule_stored {i : Input} {r : Rule} (hbuild : build i = .ok r) {w : World} {cache : Cache}
    (hs : UpToDate (w, cache)) {now' now created : Time} {version : ℤ} {id T : GoString} {stored : Rule}
    (h : (w.mem.updateRule now'
      { r with
        id := id, tenantID := T, version := version, createdAt := created,
        updatedAt := now }).1 = .ok stored) :
    Stored r stored ∧ stored.tenantID = T ∧
      ((w.mem.updateRule now'
        { r with
          id := id, tenantID := T, version := version, createdAt := created,
          updatedAt := now }).2).rules.get? stored.id =
          some stored ∧
      ∀ p, cache.lookup stored.id = some p → p.version ≠ stored.version := by
  unfold Mem.updateRule at h ⊢
  split at h
  · cases h
  · rename_i cur hcur
    cases h
    obtain ⟨hmem, -, hid⟩ := rule_ok hcur
    have hget : w.mem.rules.get? id = some cur := Table.get?_eq_some.mpr ⟨hmem, hid⟩
    refine ⟨⟨rfl, rfl, stored_matchMode (normalizeMatch_ok (build_eq_ok.mp hbuild).mode), rfl, rfl,
      rfl⟩, rfl, ?_, ?_⟩
    · exact (congrFun (get?_put_eq_update _ _) _).trans (Function.update_self ..)
    · intro p hp
      have hle : p.version ≤ cur.version := (hs id p cur hp hget).1
      show p.version ≠ cur.version + 1
      omega

theorem ensures_update (hs : UpToDate s) (id : GoString) (i : Input) :
    Ensures engineStep Ok (update d subj id i).run (Ends (SavedIn subj i s.2) fun _ _ => True) s := by
  unfold update checked tenantOf
  split_ifs with hten
  · trivial
  refine EnsuresWhen.andThen (x := query (.getRule subj.tenantID id) mapErr) (S := fun _ s' => s' = s)
    (ensures_read s fun _ _ _ => rfl) ?_ fun _ _ _ => trivial
  rintro cur s₀ rfl
  refine (ensures_validate d subj s₀ i).andThen ?_ fun _ _ _ => trivial
  rintro r s₀ ⟨rfl, hr⟩
  have hbuild := hr r rfl
  refine EnsuresWhen.lift fun c _ => ensures_query _ trivial fun c' _ => ?_
  refine Ends.intro (fun stored hstored => ?_) fun _ _ => trivial
  obtain ⟨hsame, hT, hget, hversion⟩ := updateRule_stored hbuild hs (mapError_eq_ok hstored)
  exact ⟨r, hten, hbuild, hsame, hT, rfl, hget, hversion⟩

end Saving

/-- The sample with the fields of a message. -/
def sampleOf (msg : Message) (recipient : GoString) : Sample where
  subject := msg.subject
  body := msg.text
  fromAddress := msg.fromEmail
  fromName := msg.fromName
  recipient := recipient
  hasAttachments := !msg.attachments.isEmpty || !msg.skipped.isEmpty
  spamScore := msg.spamScore

section Prediction

variable [GoLibrary] [RuleLibrary] [Evaluator]

def decisionOf (stored : Rule) : Except Unit Bool → Decision
  | .ok true => merge {} stored
  | .ok false => {}
  | .error _ => { errors := 1 }

omit [RuleLibrary] [Evaluator] in
theorem mem_matchedIDs_decisionOf (stored : Rule) (v : Except Unit Bool) :
    stored.id ∈ (decisionOf stored v).matchedIDs ↔ v = .ok true := by
  rcases v with e | b
  · simp [decisionOf]
  · cases b
    · simp [decisionOf]
    · simp [decisionOf, merge, (unmatched_actions stored.actions _).1]

theorem run_decide_single (d : Deps) {T : GoString} (email : Email) {s : World × Cache}
    {cs : ℕ → Choice} {stored : Rule}
    (hlist : (step (cs 0) (.store (.listEnabledRules T)) s.1).1 = .ok [stored])
    (hstate : (step (cs 0) (.store (.listEnabledRules T)) s.1).2 = s.1) :
    (run engineStep (Rules.decide d T email).run s cs).value = .ok
    (decisionOf stored (verdict s.2 stored email)) := by
  have htaken : (if d.maxRules > 0 then [stored].take d.maxRules.toNat else [stored]) = [stored] := by
    split_ifs with hpos
    · apply List.take_of_length_le
      rw [List.length_singleton]
      omega
    · rfl
  have hanswer : run engineStep (Rules.decide d T email).run s cs =
      run engineStep ((decideAll email [stored] {}).bind fun a => .ret (.ok a)) s fun n => cs (n + 1) := by
    show run engineStep (Prog.bind
      (.ret (Except.mapError Err.rulesList (step (cs 0) (.store (.listEnabledRules T)) s.1).1)) _)
      ((step (cs 0) (.store (.listEnabledRules T)) s.1).2, s.2) _ = _
    rw [hlist, hstate]
    show run engineStep (Prog.bind
      (decideAll email (if d.maxRules > 0 then [stored].take d.maxRules.toNat else [stored])
        {}) _) _ _ = _
    rw [htaken]
    rfl
  rw [hanswer, run_seq]
  show Except.ok (run engineStep (decideAll email [stored] {}) _ _).value = _
  congr 1
  unfold decideAll
  simp only [Bind.bind, request, Prog.perform, Prog.bind, run, engineStep]
  rcases verdict s.2 stored email with e | b
  · rfl
  · cases b <;> rfl

omit [RuleLibrary] [Evaluator] in
theorem listEnabledRules_single {w : World} {T : GoString} {stored : Rule}
    (hget : w.mem.rules.get? stored.id = some stored) (hT : stored.tenantID = T)
    (henabled : stored.enabled = true) (honly : ∀ r ∈ w.mem.rules.rows, r.tenantID = T →
      r.id = stored.id) {c : Choice} (hc : FaultFree c) :
    step c (.store (.listEnabledRules T)) w = (.ok [stored], w) := by
  rw [step_store (hc.not_failed _)]
  have hfilter : w.mem.rules.rows.filter
      (fun r => r.tenantID = T ∧ (true = false ∨ r.enabled = true)) = [stored] := by
    have hown := Table.filter_of_key (t := w.mem.rules) (k := stored.id)
      (p := fun r => r.tenantID = T ∧ (true = false ∨ r.enabled = true))
      fun r hr hp => honly r hr (of_decide_eq_true hp).1
    rcases hown with hnone | ⟨r, hr, -, hrows⟩
    · have hmem : stored ∈ w.mem.rules.rows.filter fun r => r.tenantID = T ∧
          (true = false ∨ r.enabled = true) :=
        List.mem_filter.mpr ⟨(Table.get?_eq_some.mp hget).1, decide_eq_true ⟨hT, .inr henabled⟩⟩
      rw [hnone] at hmem
      cases hmem
    · rwa [Option.some.inj (hr.symm.trans hget)] at hrows
  have hsorted : Mem.sortRules [stored] = [stored] := List.perm_singleton.mp (perm_sortSlice _ _)
  show ((Except.ok (Mem.sortRules _), _) : Except RepoErr (List Rule) × World) = _
  rw [hfilter, hsorted]
  rfl

omit [Evaluator] in
theorem program_stored {r stored : Rule} (h : Stored r stored) {cache : Cache} {p : Program}
    (hp : compile r = .ok p)
    (hversion : ∀ q, cache.lookup stored.id = some q → q.version ≠ stored.version) :
    (program cache stored).1 = .ok ⟨p.expr, stored.version⟩ := by
  rw [program_eq_compile fun q hq heq => absurd heq (hversion q hq),
    compile_of_same h.expression h.matchMode h.conditions, hp]
  rfl

def reported (actions : List Action) : Except GoString Bool → Except Failure TestResult
  | .error e => .error (.invalid (invalid "expression" (goString "evaluation failed: " ++ e)))
  | .ok true => .ok ⟨true, actions⟩
  | .ok false => .ok ⟨false, []⟩

end Prediction

@[reducible] def literals : Evaluator := ⟨fun expr _ => .ok (some (expr = goString "true"))⟩

def savedDropping : Outcome (Except Failure Rule) (World × Cache) Choice :=
  letI := asciiLibrary
  letI := anyExpression
  letI := literals
  run engineStep (Save.create.program {} caller dropping).run ({}, []) stepID

def droppingRule : Rule :=
  { id := uniformID 0x31, tenantID := caller.tenantID, name := "Drop all", enabled := true,
    matchMode := .all
    expression := "true", actions := [{ type := .drop }], version := 1, createdAt := 1, updatedAt := 1 }

theorem eq_ok_of_toOption {ε α : Type} {x : Except ε α} {a : α} (h : x.toOption = some a) : x = .ok a := by
  cases x with
  | ok b => exact congrArg Except.ok (Option.some.inj h)
  | error e => cases h

def restorer : Subjects := { caller with roles := [rolePlatformAdmin] }

def keeping : Input := { dropping with name := "Keep all", expression := "false" }

def exported : Backup.Document := { tenantID := caller.tenantID, rules := [droppingRule] }

def restoring [GoLibrary] [RuleLibrary] : Act Unit := do
  finish (Rules.create {} restorer dropping)
  finish (Rules.update {} restorer droppingRule.id keeping)
  finish (Rules.decide {} caller.tenantID (emailOf {} []))
  finish (Backup.importDocument {} restorer exported { full := true })

def restored : World × Cache :=
  letI := asciiLibrary
  letI := anyExpression
  letI := literals
  (run engineStep restoring ({}, []) stepID).state

def updatedAgain : Outcome (Except Failure Rule) (World × Cache) Choice :=
  letI := asciiLibrary
  letI := anyExpression
  letI := literals
  run engineStep (Save.program {} restorer dropping (.update droppingRule.id)).run restored stepID

end TangraTicket.Services.Rules
