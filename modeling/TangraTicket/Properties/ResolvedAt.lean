import TangraTicket.Services.Imports
import TangraTicket.Services.Operations
import TangraTicket.Services.Scope

/-!
When a ticket carries a resolution time: exactly while it is resolved, as long as no imported
document breaks that first.
-/

namespace TangraTicket.Services

open GoText Store KeyedTable CallProgram

def Dated (t : Ticket) : Prop := t.resolvedAt.isSome ↔ t.status = .resolved

instance : DecidablePred Dated :=
  fun t => inferInstanceAs (Decidable (t.resolvedAt.isSome ↔ t.status = .resolved))

def AllDated (w : World) : Prop := ∀ t ∈ w.mem.tickets.rows, Dated t

instance (w : World) : Decidable (AllDated w) :=
  inferInstanceAs (Decidable (∀ t ∈ w.mem.tickets.rows, Dated t))

theorem dated_core {t : Ticket} : Dated t.core ↔ Dated t := Iff.rfl

theorem dated_withStatus (at_ : Time) (t : Ticket) (s : Status) (ht : Dated t) :
    Dated (t.withStatus at_ s) := by
  unfold Ticket.withStatus Dated
  by_cases hs : s = .resolved
  · by_cases hold : t.status ≠ .resolved ∨ t.resolvedAt = none
    · simp [hs, hold]
    · simp only [hs, hold, if_true, if_false, iff_true]
      exact ht.mpr (by tauto)
  · simp [hs]

theorem dated_withDefaults (now : Time) {t : Ticket} (ht : Dated t) : Dated (Mem.withDefaults now t) := by
  unfold Mem.withDefaults Dated
  by_cases hs : t.status = .unset
  · have hnone : ¬ t.resolvedAt.isSome := fun h => by simpa [hs] using ht.mp h
    simp [hs, hnone]
  · simp only [hs, if_false]
    exact ht

theorem dated_sameCores {m m' : Mem} (h : SameCores m m') (hm : ∀ t ∈ m.tickets.rows, Dated t) :
    ∀ t ∈ m'.tickets.rows, Dated t := by
  intro t ht
  have hcore : t.core ∈ m.tickets.rows.map Ticket.core := h.1 ▸ List.mem_map_of_mem ht
  obtain ⟨t₀, ht₀, heq⟩ := List.mem_map.mp hcore
  exact dated_core.mp (heq ▸ dated_core.mpr (hm t₀ ht₀))

theorem dated_put {m : Mem} {t : Ticket} (ht : Dated t) (hm : ∀ x ∈ m.tickets.rows, Dated x) :
    ∀ x ∈ (m.tickets.put t).rows, Dated x := by
  intro x hx
  rcases Table.mem_put.mp hx with rfl | ⟨hx, -⟩
  · exact ht
  · exact hm x hx

theorem dated_modifyTicket {m : Mem} {ten id : GoString} {f : Ticket → Ticket}
    (hf : ∀ t, Dated t → Dated (f t)) (hm : ∀ t ∈ m.tickets.rows, Dated t) :
    ∀ t ∈ (m.modifyTicket ten id f).2.tickets.rows, Dated t := by
  obtain ⟨e, he⟩ | ⟨t₀, ht₀, -, -, heq⟩ := modifyTicket_cases m ten id f
  · rwa [he]
  · rw [heq]
    exact dated_put (hf t₀ (hm t₀ ht₀)) hm

theorem dated_performStore [GoLibrary] (now : Time) (id : GoString) {m : Mem} {q : StoreCall}
    (hq : Creates Dated (.store q)) (hm : ∀ t ∈ m.tickets.rows, Dated t) :
    ∀ t ∈ (performStore now id m q).2.tickets.rows, Dated t := by
  by_cases hn : q.neutral
  · exact dated_sameCores (neutral_sameCores now id m hn) hm
  · cases q with
    | createTicket t =>
      obtain ⟨e, he⟩ | ⟨-, -, heq⟩ := createTicket_cases now m t
      · rwa [performStore, he]
      · rw [performStore, heq]
        exact dated_put (dated_withDefaults now hq) hm
    | updateTicket ten i p at_ => exact dated_modifyTicket (fun t ht => ht) hm
    | setAssignee ten i a n at_ => exact dated_modifyTicket (fun t ht => ht) hm
    | setStatus ten i s at_ => exact dated_modifyTicket (fun t ht => dated_withStatus _ t s ht) hm
    | deleteTicket ten i =>
      simp only [performStore, Mem.deleteTicket]
      split
      · exact hm
      · exact fun t ht => hm t (Table.mem_keep.mp ht).1
    | appendHistory h =>
      obtain ⟨e, he⟩ | ⟨t₀, -, -, -, heq⟩ := appendHistory_cases now m h
      · rwa [performStore, he]
      · rwa [performStore, heq]
    | _ => exact absurd rfl hn

theorem allDated_step [GoLibrary] (c : Choice) {e : Call} (he : Creates Dated e) {w : World}
    (hw : AllDated w) :
    AllDated (step c e w).2 := by
  refine mem_step (J := fun m => ∀ t ∈ m.tickets.rows, Dated t) hw ?_
  rintro q rfl -
  exact dated_performStore _ _ he hw

theorem portable_dated : Backup.Portable Dated where
  renamed _ _ _ h := h
  imported _ _ _ h := h

theorem Scoped.createsDated {T : GoString} {F : GoString → Prop} {e : Call} (h : Scoped T F e) :
    Creates Dated e := by
  unfold Creates
  split
  · exact iff_of_false (by simp [h.unresolved]) (by simp [h.opened])
  · trivial

section Deletes

variable {A : (e : Call) → Answer e → Prop} {P : Ticket → Prop} (d : Deps) (subj : Subjects) (id : GoString)

theorem creates_delete : Issues A (Creates P) (Tickets.delete d subj id).run (fun _ => True) := by
  refine Issues.andThen (S := fun _ => True) trivial (fun ten _ => ?_) fun _ => trivial
  refine Issues.ask trivial (fun keys _ => ?_) fun _ => trivial
  split
  · exact Issues.bind ((creates_deleteObjects keys).mono fun _ _ => trivial)
  · trivial

theorem creates_deleteComment : Issues A (Creates P) (Comments.delete d subj id).run (fun _ => True) := by
  refine Issues.andThen (S := fun _ => True) trivial (fun ten _ => ?_) fun _ => trivial
  refine Issues.ask trivial (fun _ _ => Issues.ask trivial (fun keys _ => ?_) fun _ => trivial)
    fun _ => trivial
  split
  · exact Issues.bind ((creates_deleteObjects keys).mono fun _ _ => trivial)
  · trivial

end Deletes

/-- An import that is accepted carries only tickets whose resolution time agrees with their status. -/
def Operation.ImportsDated : Operation → Prop
  | .importBackup _ b _ => Backup.validate b = .ok () → ∀ row ∈ b.tickets, Dated row.ticket
  | _ => True

section Sessions

variable [GoLibrary] (d : Deps)

theorem createsDated_act (op : Operation) (hop : op.ImportsDated) :
    Issues (Honest fun _ => True) (Creates Dated) (op.act d) (fun _ => True) := by
  have hfinish : ∀ {ε α : Type} {x : Fallible Call Answer ε α},
      Issues (Honest fun _ => True) (Creates Dated) x.run (fun _ => True) →
        Issues (Honest fun _ => True) (Creates Dated) (finish x) (fun _ => True) :=
    fun hx => Issues.bind (hx.mono fun _ _ => trivial)
  have hscoped : ∀ {T : GoString} {α : Type} {x : Attempt α},
      Issues (Honest fun _ => True) (Scoped T fun _ => True) x.run (fun _ => True) →
        Issues (Honest fun _ => True) (Creates Dated) (finish x) (fun _ => True) :=
    fun hx => hfinish (hx.weaken fun _ => Scoped.createsDated)
  cases op with
  | create subj input => exact hscoped (scopedLogic.createManual d rfl input)
  | update subj id input => exact hscoped (scopedLogic.update d rfl id input)
  | assignAs subj id assigneeID k => exact hscoped (scopedLogic.assignAs d rfl id assigneeID k)
  | setStatusAs subj id status k => exact hscoped (scopedLogic.setStatusAs d rfl id status k)
  | setPriorityAs subj id priority k => exact hscoped (scopedLogic.setPriorityAs d rfl id priority k)
  | addNote subj ticketID body => exact hscoped (scopedLogic.quiet (quiet_addNote d subj rfl ticketID body))
  | reply subj ticketID body => exact hscoped (scopedLogic.reply d rfl ticketID body)
  | ingest route recipient msg => exact hscoped (scopedLogic.ingest d rfl route rfl recipient msg)
  | applyRules subj ticketID dec => exact hscoped (scopedLogic.applyDecision d rfl ticketID dec)
  | importBackup subj b opts =>
    exact hfinish (Backup.creates_importDocument portable_dated d subj b opts hop)
  | delete subj id => exact hfinish (creates_delete d subj id)
  | deleteComment subj id => exact hfinish (creates_deleteComment d subj id)

theorem createsDated_session (ops : List Operation) (hops : ∀ op ∈ ops, op.ImportsDated) :
    Issues (Honest fun _ => True) (Creates Dated) (session d ops) (fun _ => True) := by
  induction ops with
  | nil => trivial
  | cons op ops ih =>
    refine Issues.bind ((createsDated_act d op (hops op List.mem_cons_self)).mono fun _ _ => ?_)
    exact ih fun op hop => hops op (List.mem_cons_of_mem _ hop)

/-- From a store without tickets, through any operations and failures, every ticket has a resolution
time exactly while it is resolved, provided the accepted imports carry only such tickets. -/
theorem resolvedAt_tracks_status (ops : List Operation) (hops : ∀ op ∈ ops, op.ImportsDated)
    (cs : ℕ → Choice) (w : World) (htickets : w.mem.tickets.rows = []) :
    AllDated (run step (session d ops) w cs).state := by
  have hstep : ∀ (c : Choice) (e : Call) (w : World), True → Creates Dated e → AllDated w →
      AllDated (step c e w).2 ∧ Honest (fun _ => True) e (step c e w).1 :=
    fun c e w _ he hw => ⟨allDated_step c he hw, honest_step trivial e w⟩
  have hempty : AllDated w := by simp [AllDated, htickets]
  exact (((createsDated_session d ops hops).ensures hstep hempty).run cs fun _ => trivial).2

end Sessions

def resolutionDocument (status : Status) : Backup.Document :=
  { tickets := [{ ticket :=
      { id := "6ba7b810-9dad-11d1-80b4-00c04fd430c8", subject := "s", status := status,
        resolvedAt := some 5 } }] }

def importResolution (status : Status) : Operation :=
  .importBackup ⟨"t", "u", [], .agent⟩ (resolutionDocument status) {}

theorem resolvedAt_tracks_status_resolved :
    letI := asciiLibrary
    (∀ op ∈ [importResolution .resolved], op.ImportsDated) ∧
      AllDated (run step (session {} [importResolution .resolved]) {}
        (fun _ => { newID := "n" })).state := by
  have hops : ∀ op ∈ [importResolution .resolved], op.ImportsDated := by
    intro op hop
    obtain rfl := List.mem_singleton.mp hop
    intro _ row hrow
    obtain rfl := List.mem_singleton.mp hrow
    decide
  exact ⟨hops, @resolvedAt_tracks_status asciiLibrary {} _ hops _ {} rfl⟩

/-- `Validate` accepts an open ticket with a resolution time, and the import stores it as it is. -/
theorem import_breaks_resolvedAt :
    letI := asciiLibrary
    (Backup.validate (resolutionDocument .open)).isOk ∧
      ¬ AllDated (run step (session {} [importResolution .open]) {} (fun _ => { newID := "n" })).state := by
  decide +kernel

end TangraTicket.Services
