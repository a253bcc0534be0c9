import TangraTicket.Properties.RuleDecision
import TangraTicket.Store.RuleList

/-!
The rule list against the order of evaluation. Both sort by the sort order; where two rules tie
there, the list goes on by id and the evaluation by name.
-/

namespace TangraTicket.Store

open GoText KeyedTable

namespace Collation

variable (c : Collation)

theorem lessEvaluated_eq : c.lessEvaluated = byKey (·.sortOrder) (fun a b : ℤ => decide (a < b))
    (byKey (·.name) c.text fun a b => c.id a.id b.id) := rfl

theorem lessListed_default (page size : ℕ) : c.lessListed (ruleList.request page size) =
    byKey (·.sortOrder) (fun a b : ℤ => decide (a < b)) fun a b => c.id a.id b.id := by
  funext a b
  show (if decide (a.sortOrder < b.sortOrder) = true then true
    else if decide (b.sortOrder < a.sortOrder) = true then false else c.id a.id b.id) = _
  by_cases hab : a.sortOrder = b.sortOrder
  · rw [byKey_of_eq hab, hab]
    simp
  · rw [byKey_of_ne hab]
    simp only [decide_eq_true_eq]
    split_ifs with hlt hgt
    · simp [hlt]
    · simp [hlt]
    · omega

theorem strictWeak_lessEvaluated : StrictWeak c.lessEvaluated := by
  rw [lessEvaluated_eq]
  exact .byKey strictTotal_int (.byKey c.text_total (c.id_total.comap _))

theorem strictWeak_lessListed (page size : ℕ) : StrictWeak (c.lessListed (ruleList.request page size)) := by
  rw [lessListed_default]
  exact .byKey strictTotal_int (c.id_total.comap _)

section Separates

variable {rs : List Rule} (hids : (rs.map (·.id)).Nodup)

include hids

theorem separates_id : Separates (fun a b : Rule => c.id a.id b.id) rs :=
  fun _ ha _ hb hab => c.id_total.total fun hid => hab (List.inj_on_of_nodup_map hids ha hb hid)

theorem separates_lessEvaluated : Separates c.lessEvaluated rs := by
  rw [lessEvaluated_eq]
  exact .byKey strictTotal_int (.byKey c.text_total (c.separates_id hids))

theorem separates_lessListed (page size : ℕ) :
    Separates (c.lessListed (ruleList.request page size)) rs := by
  rw [lessListed_default]
  exact .byKey strictTotal_int (c.separates_id hids)

end Separates

theorem agree_iff (page size : ℕ) {rs : List Rule} :
    (∀ a ∈ rs, ∀ b ∈ rs, c.lessEvaluated a b = true →
      c.lessListed (ruleList.request page size) a b = true) ↔
      ∀ a ∈ rs, ∀ b ∈ rs, a.sortOrder = b.sortOrder → c.text a.name b.name = true →
      c.id a.id b.id = true := by
  rw [lessListed_default, lessEvaluated_eq]
  constructor
  · intro h a ha b hb hsort hname
    have hne : a.name ≠ b.name := fun heq => by simp [heq, c.text_total.irrefl] at hname
    have := h a ha b hb
    rw [byKey_of_eq hsort, byKey_of_eq hsort, byKey_of_ne hne] at this
    exact this hname
  · intro h a ha b hb hlt
    by_cases hsort : a.sortOrder = b.sortOrder
    · rw [byKey_of_eq hsort] at hlt ⊢
      by_cases hname : a.name = b.name
      · rwa [byKey_of_eq hname] at hlt
      · rw [byKey_of_ne hname] at hlt
        exact h a ha b hb hsort hlt
    · rw [byKey_of_ne hsort] at hlt ⊢
      exact hlt

end Collation

theorem window_eq_pageOf {α : Type} (items : List α) (size n : ℕ)
    (hn : n < (items.length + size - 1) / size) :
    window items (ruleList.request (n + 1) size) = pageOf items size n := by
  have hpage : max 1 (min (n + 1) ((items.length + size - 1) / size)) - 1 = n := by omega
  show pageOf items size (max 1 (min (n + 1) ((items.length + size - 1) / size)) - 1) = _
  rw [hpage]

namespace RuleStore

variable (s : RuleStore) (tenantID : GoString)

theorem nodup_ids : ((s.ofTenant tenantID).map (·.id)).Nodup := by
  have hrows : (s.rows.map (·.id)).Nodup := by
    cases s with
    | memstore m => exact m.rules.nodup
    | database c t => exact t.nodup
  exact hrows.sublist (List.Sublist.map _ List.filter_sublist)

/-- The tenant's enabled rules of which the one with the earlier name has the earlier id wherever
the sort orders tie. -/
def TiesAgree : Prop :=
  ∀ a ∈ (s.ofTenant tenantID).filter (·.enabled), ∀ b ∈ (s.ofTenant tenantID).filter (·.enabled),
    a.sortOrder = b.sortOrder → s.collation.text a.name b.name = true → s.collation.id a.id b.id = true

theorem listEnabledRules_eq : s.listEnabledRules tenantID =
    .ok (sortSlice s.collation.lessEvaluated ((s.ofTenant tenantID).filter (·.enabled))) := by
  cases s with
  | memstore m =>
    have hrows : (m.rules.rows.filter fun r => r.tenantID = tenantID ∧ (true = false ∨ r.enabled)) =
        (m.rules.rows.filter fun r => r.tenantID = tenantID).filter (·.enabled) := by
      rw [List.filter_filter]
      exact List.filter_congr fun r _ => by simp [Bool.and_comm]
    exact congrArg (fun rs => Except.ok (Mem.sortRules rs)) hrows
  | database c t => rfl

theorem pageRules_eq (req : ListRequest) (hweak : StrictWeak (s.collation.lessListed req))
    (hsep : Separates (s.collation.lessListed req) (s.ofTenant tenantID)) : s.pageRules tenantID req =
      .ok (window (sortSlice (s.collation.lessListed req) (s.ofTenant tenantID)) req) := by
  cases s with
  | memstore m =>
    have hrows : (m.rules.rows.filter fun r => r.tenantID = tenantID ∧ (false = false ∨ r.enabled)) =
        m.rules.rows.filter fun r => r.tenantID = tenantID :=
      List.filter_congr fun r _ => by simp
    have hnd := ((memstore m).nodup_ids tenantID).of_map
    have hagain := hweak.sortSlice_perm (perm_sortSlice bytewise.lessEvaluated _).symm hsep hnd
    show Except.ok (window (sortSlice (bytewise.lessListed req) (Mem.sortRules (m.rules.rows.filter fun r =>
      r.tenantID = tenantID ∧ (false = false ∨ r.enabled)))) req) = _
    rw [hrows]
    exact congrArg (fun rs => Except.ok (window rs req)) hagain.symm
  | database c t => rfl

theorem shown_eq {size : ℕ} (hsize : 0 < size) : s.shown tenantID size =
    sortSlice (s.collation.lessListed (ruleList.request 1 size)) (s.ofTenant tenantID) := by
  have hless : ∀ n, s.collation.lessListed (ruleList.request (n + 1) size) =
      s.collation.lessListed (ruleList.request 1 size) := fun n => rfl
  have hlength :=
    (perm_sortSlice (s.collation.lessListed (ruleList.request 1 size))
      (s.ofTenant tenantID)).length_eq
  refine Eq.trans ?_ (flatMap_pages _ hsize)
  rw [hlength]
  refine List.flatMap_congr fun n hn => ?_
  have hlast : n < ((sortSlice (s.collation.lessListed (ruleList.request 1 size))
      (s.ofTenant tenantID)).length + size - 1) / size := by rwa [hlength, ← List.mem_range]
  rw [s.pageRules_eq tenantID _ (s.collation.strictWeak_lessListed _ _)
    (s.collation.separates_lessListed (s.nodup_ids tenantID) _ _), hless]
  exact window_eq_pageOf _ size n hlast

theorem shown_enabled_iff {size : ℕ} (hsize : 0 < size) : s.listEnabledRules tenantID =
    .ok ((s.shown tenantID size).filter (·.enabled)) ↔ s.TiesAgree tenantID := by
  have hids := s.nodup_ids tenantID
  have hnd := hids.of_map
  have hen : (((s.ofTenant tenantID).filter (·.enabled)).map (·.id)).Nodup :=
    hids.sublist (List.Sublist.map _ List.filter_sublist)
  rw [s.shown_eq tenantID hsize, (s.collation.strictWeak_lessListed 1 size).filter_sortSlice
    (s.collation.separates_lessListed hids 1 size) hnd, listEnabledRules_eq, Except.ok.injEq, eq_comm,
    (s.collation.strictWeak_lessEvaluated).sortSlice_eq_iff (s.collation.strictWeak_lessListed 1 size)
      (s.collation.separates_lessEvaluated hen) (s.collation.separates_lessListed hen 1 size) hen.of_map]
  exact s.collation.agree_iff 1 size

end RuleStore

end TangraTicket.Store

namespace TangraTicket.Services.Rules

open GoText KeyedTable Store CallProgram

/-- Calls are answered as told, and the rules handed to the engine are noted. -/
def noting (answer : (e : Call) → Answer e) (e : Call) (seen : List Rule) : Answer e × List Rule :=
  (answer e, match e with
    | .evaluate r _ => seen ++ [r]
    | _ => seen)

/-- What is left of a list of rules under a maximum. -/
def taken (maxRules : ℤ) (rules : List Rule) : List Rule :=
  if maxRules > 0 then rules.take maxRules.toNat else rules

section Evaluated

variable [GoLibrary]

theorem evaluated_decideAll (email : Email) (rules : List Rule) (d : Decision) (seen : List Rule)
    (answers : ℕ → (e : Call) → Answer e) :
    (run noting (decideAll email rules d) seen answers).state = seen ++ rules := by
  induction rules generalizing d seen answers with
  | nil => exact (List.append_nil seen).symm
  | cons r rs ih =>
    have hrest := fun d' => ih d' (seen ++ [r]) fun n => answers (n + 1)
    rw [List.append_assoc, List.singleton_append] at hrest
    unfold decideAll
    simp only [Bind.bind, request, Prog.perform, Prog.bind, run, noting]
    cases hv : answers 0 (.evaluate r email) with
    | error u => exact hrest _
    | ok b =>
      cases b with
      | false => exact hrest _
      | true => exact hrest _

theorem evaluated_decide (deps : Deps) (tenantID : GoString) (email : Email) {rules : List Rule}
    {answers : ℕ → (e : Call) → Answer e}
    (hlist : answers 0 (.store (.listEnabledRules tenantID)) = .ok rules) :
    (run noting (Rules.decide deps tenantID email).run [] answers).state = taken deps.maxRules rules := by
  show (run noting (Prog.bind (.ret (Except.mapError Err.rulesList
    (answers 0 (.store (.listEnabledRules tenantID))))) _) _ _).state = _
  rw [hlist]
  show (run noting ((decideAll email (taken deps.maxRules rules) {}).bind _) [] _).state = _
  rw [run_seq]
  exact evaluated_decideAll email _ {} [] _

/-- Whatever the maximum and the answers of the engine, the enabled rules of the list are evaluated
from the top, exactly when no two of them with one sort order have their names and their ids in
opposite orders. -/
theorem rules_evaluated_as_shown (s : RuleStore) (tenantID : GoString) {size : ℕ} (hsize : 0 < size) :
    (∀ (deps : Deps) (email : Email) (answers : ℕ → (e : Call) → Answer e),
      answers 0 (.store (.listEnabledRules tenantID)) = s.listEnabledRules tenantID →
      (run noting (Rules.decide deps tenantID email).run [] answers).state =
        taken deps.maxRules ((s.shown tenantID size).filter (·.enabled))) ↔ s.TiesAgree tenantID := by
  rw [← s.shown_enabled_iff tenantID hsize]
  constructor
  · intro h
    classical
    let answers : (e : Call) → Answer e := Function.update (fun e => (step {} e {}).1)
      (.store (.listEnabledRules tenantID)) (s.listEnabledRules tenantID)
    have hlist : answers (.store (.listEnabledRules tenantID)) = s.listEnabledRules tenantID :=
      Function.update_self ..
    rw [s.listEnabledRules_eq tenantID]
    have hall := h {} (emailOf {} []) (fun _ => answers) hlist
    rw [evaluated_decide {} tenantID _ (hlist.trans (s.listEnabledRules_eq tenantID))] at hall
    exact congrArg Except.ok hall
  · intro hshown deps email answers hlist
    exact evaluated_decide deps tenantID email (hlist.trans hshown)

end Evaluated

def tiedRules : Mem :=
  { rules := (Table.empty.put { id := "1", tenantID := "t", name := "b", enabled := true }).put
      { id := "2", tenantID := "t", name := "a", enabled := true } }

theorem tied_rules_evaluated_backwards :
    letI := asciiLibrary
    ((RuleStore.memstore tiedRules).shown "t" 20).map (·.name) = [goString "b", "a"] ∧
      (run noting (Rules.decide {} "t" (emailOf {} [])).run [] fun _ e =>
        (step {} e { mem := tiedRules }).1).state.map
        (·.name) = [goString "a", "b"] := by
  decide +kernel

-- the two rules that tie have their names and their ids in one order; the last rule is not enabled
def agreeingRules : Mem :=
  { rules := (((Table.empty.put
      { id := "3", tenantID := "t", name := "c", enabled := true, sortOrder := 7 }).put
      { id := "2", tenantID := "t", name := "b", enabled := true, sortOrder := 7 }).put
      { id := "1", tenantID := "t", name := "z", enabled := true, sortOrder := 1 }).put
      { id := "4", tenantID := "t", name := "a", sortOrder := 7 } }

theorem agreeing_rules_evaluated_as_shown :
    letI := asciiLibrary
    ((RuleStore.memstore agreeingRules).shown "t" 20).map (·.name) = [goString "z", "b", "c", "a"] ∧
      ∀ (email : Email) (answers : ℕ → (e : Call) → Answer e),
        answers 0 (.store (.listEnabledRules "t")) =
        (RuleStore.memstore agreeingRules).listEnabledRules "t" →
        (run noting (Rules.decide { maxRules := 2 } "t" email).run [] answers).state.map (·.name) =
        [goString "z", "b"] := by
  let := asciiLibrary
  have hties : (RuleStore.memstore agreeingRules).TiesAgree "t" := by
    unfold RuleStore.TiesAgree
    decide +kernel
  refine ⟨by decide +kernel, fun email answers hlist => ?_⟩
  rw [(rules_evaluated_as_shown (RuleStore.memstore agreeingRules) "t" (show 0 < 20 by decide)).mpr
    hties { maxRules := 2 }
    email answers hlist]
  decide +kernel

end TangraTicket.Services.Rules
