import TangraTicket.Services.Integrity
import TangraTicket.Services.Resolution
import TangraTicket.Services.Slices

/-!
Non-interference of ingestion: what a tenant's mail does depends on the rows of that tenant alone,
and touches no other.
-/

namespace TangraTicket.Services

open GoText Store KeyedTable CallProgram

variable {T : GoString} {F : GoString → Prop}

section Calls

variable [GoLibrary] {p : GoString → Bool} {q : StoreCall} (hq : Scoped T F (.store q)) (now : Time)
  (id : GoString) (m : Mem)

include hq

theorem performStore_commutes (hp : p T = true)
    (hF : ∀ i, F i → Mem.Unused T (m.slice fun x => !p x) i) (hid : F id) :
    performStore now id (m.slice p) q =
    ((performStore now id m q).1, (performStore now id m q).2.slice p) := by
  cases q with
  | createTicket t => exact Mem.createTicket_commutes hp m now hq.tenant (hF _ hq.supply)
  | getTicket ten i =>
    cases hq
    exact congrArg (Prod.mk · (m.slice p)) (Mem.slice_ticket hp m i)
  | findTicketByExternalID ten x =>
    cases hq
    exact Mem.findTicket_commutes hp m x
  | updateTicket ten i pt at_ =>
    cases hq
    exact Mem.modifyTicket_commutes hp m i (f := fun t => t.withPatch (orNow at_ now) pt)
      fun _ => ⟨rfl, rfl⟩
  | setAssignee ten i a n at_ =>
    cases hq
    exact Mem.modifyTicket_commutes hp m i (f := fun t => t.withAssignee (orNow at_ now) a n)
      fun _ => ⟨rfl, rfl⟩
  | setStatus ten i s at_ =>
    cases hq
    exact Mem.modifyTicket_commutes hp m i (f := fun t => t.withStatus (orNow at_ now) s)
      fun _ => ⟨rfl, rfl⟩
  | createComment c => exact Mem.createComment_commutes hp m now hq.1 (hF _ hq.2)
  | getComment ten i =>
    cases hq
    exact congrArg (Prod.mk · (m.slice p)) (Mem.slice_comment hp m i)
  | setCommentDelivery ten i dl =>
    cases hq
    exact Mem.setCommentDelivery_commutes hp m i dl
  | findCommentByMessageID ten x =>
    cases hq
    exact Mem.findComment_commutes hp m x
  | createAttachment a =>
    obtain ⟨hten, hsupply, tid, hkey⟩ := hq
    exact Mem.createAttachment_commutes hp m now hten (hF _ hsupply) hkey
  | listAttachments ten tid =>
    cases hq
    exact Mem.listAttachments_commutes hp m tid
  | ensureTagByName ten k n =>
    cases hq
    exact Mem.ensureTagByName_commutes hp m now k n (hF _ hid)
  | addTicketTags ten tid ids =>
    cases hq
    exact Mem.addTicketTags_commutes hp m tid ids
  | tagsForTickets ten ids =>
    cases hq
    exact Mem.tagsForTickets_commutes hp m ids
  | listEnabledRules ten =>
    cases hq
    exact Mem.listRules_commutes hp m true
  | getMailbox | listMailboxes => rfl
  | routeMailbox a =>
    simp only [performStore, Mem.routeMailbox, Mem.slice]
    split <;> rfl
  | appendHistory h => exact Mem.appendHistory_commutes hp m now hq
  | _ => exact hq.elim

theorem performStore_outside (hp : p T = false) (hF : ∀ i, F i → Mem.Unused T (m.slice p) i) :
    (performStore now id m q).2.slice p = m.slice p := by
  cases q with
  | createTicket t => exact Mem.createTicket_outside hp m now hq.tenant (hF _ hq.supply).link
  | updateTicket ten i pt at_ =>
    cases hq
    exact Mem.modifyTicket_outside hp m i (f := fun t => t.withPatch (orNow at_ now) pt) fun _ => ⟨rfl, rfl⟩
  | setAssignee ten i a n at_ =>
    cases hq
    exact Mem.modifyTicket_outside hp m i (f := fun t => t.withAssignee (orNow at_ now) a n)
      fun _ => ⟨rfl, rfl⟩
  | setStatus ten i s at_ =>
    cases hq
    exact Mem.modifyTicket_outside hp m i (f := fun t => t.withStatus (orNow at_ now) s) fun _ => ⟨rfl, rfl⟩
  | createComment c => exact Mem.createComment_outside hp m now hq.1
  | setCommentDelivery ten i dl =>
    cases hq
    exact Mem.setCommentDelivery_outside hp m i dl
  | createAttachment a => exact Mem.createAttachment_outside hp m now hq.1
  | ensureTagByName ten k n =>
    cases hq
    exact Mem.ensureTagByName_outside hp m now id k n
  | addTicketTags ten tid ids =>
    cases hq
    exact Mem.addTicketTags_outside hp m tid ids
  | appendHistory h => exact Mem.appendHistory_outside hp m now hq
  | findTicketByExternalID | findCommentByMessageID | routeMailbox =>
    simp only [performStore, Mem.findTicketByExternalID, Mem.findCommentByMessageID, Mem.routeMailbox]
    repeat' split
    all_goals rfl
  | getTicket | getComment | listAttachments | tagsForTickets | listEnabledRules | getMailbox
  | listMailboxes => rfl
  | _ => exact hq.elim

end Calls

/-- Two runs that started in `w₁` and `w₂` and have come to `v₁` and `v₂`. -/
structure Twinned (T : GoString) (w₁ w₂ v₁ v₂ : World) : Prop where
  own : v₂.mem.own T = v₁.mem.own T
  others₁ : v₁.mem.others T = w₁.mem.others T
  others₂ : v₂.mem.others T = w₂.mem.others T
  mail : ∃ mails, v₁.sent = w₁.sent ++ mails ∧ v₂.sent = w₂.sent ++ mails

variable {w₁ w₂ v₁ v₂ : World}

theorem Twinned.of_same_mem {u₁ u₂ : World} (h : Twinned T w₁ w₂ v₁ v₂) (h₁ : u₁.mem = v₁.mem)
    (h₂ : u₂.mem = v₂.mem) (hmail : ∃ mails, u₁.sent = w₁.sent ++ mails ∧ u₂.sent = w₂.sent ++
      mails) : Twinned T w₁ w₂ u₁ u₂ :=
  ⟨h₂ ▸ h₁ ▸ h.own, h₁ ▸ h.others₁, h₂ ▸ h.others₂, hmail⟩

theorem twinned_store [GoLibrary] {c : Choice} {q : StoreCall} (h : Twinned T w₁ w₂ v₁ v₂)
    (hq : Scoped T F (.store q)) (hF : ∀ i, F i → Mem.Unused T (w₁.mem.others T) i ∧
      Mem.Unused T (w₂.mem.others T) i) (hid : F c.newID) :
    (step c (.store q) v₂).1 = (step c (.store q) v₁).1 ∧
      Twinned T w₁ w₂ (step c (.store q) v₁).2 (step c (.store q) v₂).2 := by
  cases hf : c.fail q.method with
  | true =>
    rw [step_store_failed hf, step_store_failed hf]
    exact ⟨rfl, h⟩
  | false =>
    have hown : decide (T = T) = true := decide_eq_true rfl
    have hother : (!decide (T = T)) = false := by simp
    have hF₁ : ∀ i, F i → Mem.Unused T (v₁.mem.others T) i := fun i hi => h.others₁ ▸ (hF i hi).1
    have hF₂ : ∀ i, F i → Mem.Unused T (v₂.mem.others T) i := fun i hi => h.others₂ ▸ (hF i hi).2
    have hrun₁ := performStore_commutes (p := fun x => x = T) hq c.now c.newID v₁.mem hown hF₁ hid
    have hrun₂ := performStore_commutes (p := fun x => x = T) hq c.now c.newID v₂.mem hown hF₂ hid
    have hout₁ := performStore_outside (p := fun x => !decide (x = T)) hq c.now c.newID v₁.mem hother hF₁
    have hout₂ := performStore_outside (p := fun x => !decide (x = T)) hq c.now c.newID v₂.mem hother hF₂
    have hsame : v₂.mem.slice (fun x => x = T) = v₁.mem.slice fun x => x = T := h.own
    rw [hsame, hrun₁] at hrun₂
    obtain ⟨hans, hmem⟩ := Prod.mk.inj hrun₂
    rw [step_store hf, step_store hf]
    exact ⟨hans.symm, hmem.symm, hout₁.trans h.others₁, hout₂.trans h.others₂, h.mail⟩

theorem twinned_step [GoLibrary] {c : Choice} {e : Call} (h : Twinned T w₁ w₂ v₁ v₂) (he : Scoped T F e)
    (hF : ∀ i, F i → Mem.Unused T (w₁.mem.others T) i ∧ Mem.Unused T (w₂.mem.others T) i)
    (hid : F c.newID) :
    (step c e v₂).1 = (step c e v₁).1 ∧ Twinned T w₁ w₂ (step c e v₁).2 (step c e v₂).2 := by
  cases e with
  | store q => exact twinned_store h he hF hid
  | putObject key data contentType =>
    simp only [step]
    split
    · exact ⟨rfl, h⟩
    · exact ⟨rfl, h.of_same_mem rfl rfl h.mail⟩
  | deleteObject key =>
    simp only [step]
    split
    · exact ⟨rfl, h⟩
    · exact ⟨rfl, h.of_same_mem rfl rfl h.mail⟩
  | send mail =>
    obtain ⟨mails, hm₁, hm₂⟩ := h.mail
    refine ⟨rfl, h.of_same_mem rfl rfl ⟨mails ++ [(mail, !c.sendFails)], ?_, ?_⟩⟩
    · rw [← List.append_assoc, ← hm₁]
      rfl
    · rw [← List.append_assoc, ← hm₂]
      rfl
  | publish event => exact ⟨rfl, h.of_same_mem rfl rfl h.mail⟩
  | newID | now | lookup | evaluate => exact ⟨rfl, h⟩

theorem resolved_own {m : Mem} (hm : Owned m) {ids : List GoString} {text subject : GoString}
    {found : Threading.Match} (h : Threading.resolved m T ids text subject = some found) :
    ∃ t ∈ m.tickets.rows, t.id = found.ticketID ∧ t.tenantID = T := by
  unfold Threading.resolved at h
  split at h
  · rename_i c hfind
    obtain rfl := Option.some.inj h
    obtain ⟨id, -, hid⟩ := List.exists_of_findSome?_eq_some hfind
    obtain ⟨hc, hten, -⟩ := Threading.commentOf_some hid
    obtain ⟨t, ht, htid, htten⟩ := hm c hc
    exact ⟨t, ht, htid, htten.trans hten⟩
  · split at h
    · rename_i t hfind
      obtain rfl := Option.some.inj h
      obtain ⟨id, -, hid⟩ := List.exists_of_findSome?_eq_some hfind
      obtain ⟨ht, hten, -⟩ := Threading.rootOf_some hid
      exact ⟨t, ht, rfl, hten⟩
    · obtain ⟨c, -, hc⟩ := List.exists_of_findSome?_eq_some h
      obtain ⟨t, ht, hten, hid⟩ := Threading.tokened_some hc
      exact ⟨t, ht, hid, hten⟩

theorem resolve_own [GoLibrary] {w : World} (hm : Owned w.mem) (ids : List GoString)
    (text subject : GoString) (cs : ℕ → Choice) {found : Threading.Match}
    (h : (run step (Threading.resolve T ids text subject).run w cs).value = .ok (some found)) :
    ∀ t ∈ w.mem.tickets.rows, t.id = found.ticketID → t.tenantID = T := by
  intro t ht hid
  by_cases hT : T = []
  · unfold Threading.resolve at h
    rw [if_pos hT] at h
    cases h
  · have hspec := (ensures_resolve (fun _ => True) w hT ids text subject).run cs fun _ => trivial
    rw [h] at hspec
    obtain ⟨⟨-, e, he⟩ | he, -⟩ := hspec
    · cases he
    · obtain ⟨t', ht', hid', hten'⟩ := resolved_own hm (Except.ok.inj he).symm
      rwa [w.mem.tickets.eq_of_key ht ht' (hid.trans hid'.symm)]

/-- Ingestion for a tenant sees and touches the rows of that tenant only: in two stores that agree
on them, it answers the same, sends the same mail and leaves them the same; and no resolution ends
at another tenant's ticket. -/
theorem ingest_isolated [GoLibrary] (d : Deps) (route : MailboxRoute) (recipient : GoString) (msg : Message)
    (hagree : w₂.mem.own route.tenantID = w₁.mem.own route.tenantID) (cs : ℕ → Choice)
    (hids : ∀ n, Mem.Unused route.tenantID (w₁.mem.others route.tenantID) (cs n).newID ∧
      Mem.Unused route.tenantID (w₂.mem.others route.tenantID) (cs n).newID) :
    let r₁ := run step (Inbound.ingest d (systemFor route.tenantID) route recipient msg).run w₁ cs
    let r₂ := run step (Inbound.ingest d (systemFor route.tenantID) route recipient msg).run w₂ cs
    r₂.value = r₁.value ∧ Twinned route.tenantID w₁ w₂ r₁.state r₂.state ∧
      ∀ w : World, Owned w.mem → ∀ ids text subject cs found,
        (run step (Threading.resolve route.tenantID ids text subject).run w cs).value = .ok (some found) →
          ∀ t ∈ w.mem.tickets.rows, t.id = found.ticketID → t.tenantID = route.tenantID := by
  have hsubj : (systemFor route.tenantID).tenantID = route.tenantID := rfl
  have hissues : Issues (Honest fun i => Mem.Unused route.tenantID (w₁.mem.others route.tenantID) i ∧
      Mem.Unused route.tenantID (w₂.mem.others route.tenantID) i) (Scoped route.tenantID _)
      (Inbound.ingest d (systemFor route.tenantID) route recipient msg).run (fun _ => True) :=
    scopedLogic.ingest d hsubj route rfl recipient msg
  have hstart : Twinned route.tenantID w₁ w₂ w₁ w₂ := ⟨hagree, rfl, rfl, [], by simp, by simp⟩
  intro r₁ r₂
  have hruns : r₂.value = r₁.value ∧ Twinned route.tenantID w₁ w₂ r₁.state r₂.state := Issues.lockstep
    (fun c e v₁ v₂ hc he h => ⟨honest_step hc e v₁, twinned_step h he (fun _ hi => hi) hc⟩) hissues
    hstart cs hids
  exact ⟨hruns.1, hruns.2, fun w hw ids text subject cs found h => resolve_own hw ids text subject cs h⟩

-- the second store holds a ticket of another tenant, with the id the message carries as a token
def lone : World := { mem := { tickets := Table.empty.put { id := "0000000a", tenantID := "t" } } }

def shared : World :=
  { mem :=
      { tickets := (Table.empty.put { id := "0000000b", tenantID := "u" }).put
          { id := "0000000a", tenantID := "t" } } }

def tokenMail : Message := { messageID := "m", text := "see [#0000000b]", fromEmail := "r@x" }

def tenantRoute : MailboxRoute := ⟨"t", [], [], true, false, []⟩

theorem ingest_isolated_token :
    letI := asciiLibrary
    let cs : ℕ → Choice := fun _ => { newID := "n" }
    let r₁ :=
      run step (Inbound.ingest {} (systemFor tenantRoute.tenantID) tenantRoute "s@x" tokenMail).run
      lone cs
    let r₂ :=
      run step (Inbound.ingest {} (systemFor tenantRoute.tenantID) tenantRoute "s@x" tokenMail).run
      shared cs
    r₂.value = r₁.value ∧ Twinned tenantRoute.tenantID lone shared r₁.state r₂.state := by
  let := asciiLibrary
  have hagree : shared.mem.own tenantRoute.tenantID = lone.mem.own tenantRoute.tenantID := by
    apply Mem.ext_rows <;> decide +kernel
  have hunused : ∀ m : Mem, m.tickets.rows.all (fun t => t.id ≠ goString "n") → m.comments.rows = [] →
      m.attachments.rows = [] → m.tags.rows = [] → m.links = [] →
      Mem.Unused tenantRoute.tenantID m "n" := by
    intro m ht hc ha hg hl
    refine ⟨fun t hm => ?_, ?_, ?_, ?_, ?_, ?_⟩
    · simpa using List.all_eq_true.mp ht t hm
    all_goals simp [hc, ha, hg, hl]
  obtain ⟨hvalue, htwins, -⟩ := ingest_isolated {} tenantRoute "s@x" tokenMail hagree
    (fun _ => { newID := "n" })
    fun _ => ⟨hunused _ (by decide +kernel) (by decide +kernel) (by decide +kernel) (by decide +kernel)
      (by decide +kernel), hunused _ (by decide +kernel) (by decide +kernel) (by decide +kernel)
      (by decide +kernel)
      (by decide +kernel)⟩
  exact ⟨hvalue, htwins⟩

end TangraTicket.Services
