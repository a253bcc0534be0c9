import TangraTicket.Services.Flows
import TangraTicket.Services.Frames

/-!
Everything a service does for a tenant stays within that tenant: the calls are quiet, create a new
ticket, write a field or append history.
-/

namespace TangraTicket.Services

open GoText Store KeyedTable CallProgram

def Scoped (T : GoString) (F : GoString → Prop) : Call → Prop
  | .store (.createTicket t) => Newborn T F t
  | .store (.updateTicket ten ..) | .store (.setAssignee ten ..) | .store (.setStatus ten ..) => ten = T
  | .store (.appendHistory h) => h.tenantID = T
  | e => Quiet T F e

variable {T : GoString} {F : GoString → Prop}

theorem Quiet.scoped {e : Call} (h : Quiet T F e) : Scoped T F e := by
  unfold Scoped
  split
  · exact h.elim
  · exact h.elim
  · exact h.elim
  · exact h.elim
  · exact h.elim
  · exact h

theorem scoped_perform (id : GoString) (at_ : Time) (w : FieldWrite) :
    Issues (Honest F) (Scoped T F) (w.perform T id at_).run
      (fun r => ∀ t, r = .ok t → t.tenantID = T ∧ t.id = id) := by
  cases w <;>
  · refine ⟨rfl, ?_⟩
    rintro (e | t) ht
    · rintro _ ⟨⟩
    · rintro _ ⟨⟩
      exact ht

theorem scoped_appendHistory (id : GoString) (f : Field) (old new : GoString) (k : ActorKind)
    (actor : GoString) :
    Issues (Honest F) (Scoped T F) (appendHistory T id f old new k actor).run (fun _ => True) := by
  unfold appendHistory
  split
  · trivial
  · exact Issues.lift ⟨trivial, fun _ _ => Issues.lift ⟨trivial, fun _ _ => ⟨rfl, fun _ _ => trivial⟩⟩⟩

theorem scoped_changeField (d : Deps) (subj : Subjects) (id : GoString) (k : ActorKind)
    {plan : Ticket → Attempt (Option FieldWrite)}
    (hplan : ∀ t, t.tenantID = T → Quietly T F (plan t).run (fun _ => True)) :
    Issues (Honest F) (Scoped T F) (Tickets.changeField d subj T id k plan).run (fun _ => True) := by
  have hview : ∀ t : Ticket, t.tenantID = T →
      Issues (Honest F) (Scoped T F) (Tickets.view t true).run (fun _ => True) :=
    fun t ht => (quiet_view ht true).weaken fun _ => Quiet.scoped
  refine Issues.andThen (S := fun r => ∀ t, r = .ok t → t.tenantID = T) ⟨rfl, ?_⟩ (fun before hb => ?_)
    fun _ => trivial
  · rintro (e | t) ht
    · rintro _ ⟨⟩
    · rintro _ ⟨⟩
      exact ht.1
  · refine Issues.andThen ((hplan before (hb before rfl)).weaken fun _ => Quiet.scoped) ?_ fun _ => trivial
    rintro (_ | w) -
    · exact hview before (hb before rfl)
    · refine Issues.lift ⟨trivial, fun at_ _ => ?_⟩
      refine Issues.andThen (scoped_perform id at_ w) (fun after ha => ?_) fun _ => trivial
      refine Issues.andThen (scoped_appendHistory _ _ _ _ _ _) (fun _ _ => ?_) fun _ => trivial
      refine Issues.lift (((quiet_announce d w after k).weaken fun _ => Quiet.scoped).mono fun _ _ => ?_)
      exact hview after (ha after rfl).1

theorem scopedLogic : TicketLogic T F (fun p Q => Issues (Honest F) (Scoped T F) p Q) where
  quiet h := h.weaken fun _ => Quiet.scoped
  bind h := Issues.bind h
  mono h hQ := h.mono hQ
  create _ ht := ⟨ht, fun _ _ => trivial⟩
  change d subj id k _ _ hplan := scoped_changeField d subj id k hplan

theorem Quiet.neutral {q : StoreCall} (h : Quiet T F (.store q)) : q.neutral := by
  cases q <;> first | rfl | exact h.elim

theorem Scoped.quiet {q : StoreCall} (h : Scoped T F (.store q)) (hq : q.neutral) :
    Quiet T F (.store q) := by
  cases q <;> first | exact h | cases hq

theorem sameCores_step [GoLibrary] {e : Call} (he : Quiet T F e) (c : Choice) (w : World) :
    SameCores w.mem (step c e w).2.mem := by
  refine mem_step (J := SameCores w.mem) (.refl _) ?_
  rintro q rfl -
  exact neutral_sameCores _ _ _ he.neutral

theorem honest_modifyTicket {m : Mem} {ten id : GoString} {f : Ticket → Ticket}
    (hf : ∀ t, (f t).tenantID = t.tenantID ∧ (f t).id = t.id) {t : Ticket}
    (h : (m.modifyTicket ten id f).1 = .ok t) : t.tenantID = ten ∧ t.id = id := by
  obtain ⟨e, he⟩ | ⟨t₀, -, hten, hid, heq⟩ := modifyTicket_cases m ten id f
  · rw [he] at h
    cases h
  · rw [heq] at h
    obtain rfl := Except.ok.inj h
    exact ⟨(hf t₀).1.trans hten, (hf t₀).2.trans hid⟩

theorem honest_performStore [GoLibrary] (now : Time) (id : GoString) (m : Mem) (q : StoreCall) :
    Honest F (.store q) (performStore now id m q).1 := by
  cases q with
  | getTicket ten i =>
    cases h : (performStore now id m (.getTicket ten i)).1 with
    | error e => trivial
    | ok t => exact (ticket_ok h).2
  | updateTicket ten i p at_ =>
    cases h : (performStore now id m (.updateTicket ten i p at_)).1 with
    | error e => trivial
    | ok t =>
      exact honest_modifyTicket (f := fun t => t.withPatch (orNow at_ now) p)
        (fun _ => ⟨rfl, rfl⟩) h
  | setAssignee ten i a n at_ =>
    cases h : (performStore now id m (.setAssignee ten i a n at_)).1 with
    | error e => trivial
    | ok t =>
      exact honest_modifyTicket (f := fun t => t.withAssignee (orNow at_ now) a n)
        (fun _ => ⟨rfl, rfl⟩) h
  | setStatus ten i s at_ =>
    cases h : (performStore now id m (.setStatus ten i s at_)).1 with
    | error e => trivial
    | ok t =>
      exact honest_modifyTicket (f := fun t => t.withStatus (orNow at_ now) s)
        (fun _ => ⟨rfl, rfl⟩) h
  | _ => trivial

theorem honest_failure (q : StoreCall) (e : RepoErr) : Honest F (.store q) (.error e) := by
  cases q <;> trivial

theorem honest_step [GoLibrary] {c : Choice} (hc : F c.newID) (e : Call) (w : World) :
    Honest F e (step c e w).1 := by
  cases e with
  | store q =>
    cases hf : c.fail q.method with
    | true =>
      rw [step_store_failed hf]
      exact honest_failure q _
    | false =>
      rw [step_store hf]
      exact honest_performStore _ _ _ q
  | newID => exact hc
  | _ => trivial

end TangraTicket.Services
