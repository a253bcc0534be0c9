import TangraTicket.Services.Frames

/-!
The four field changes of the ticket service under failing store calls. A change makes up to five
store calls without a transaction around them, so a failure after the write answers an error for a
change that was made.
-/

namespace TangraTicket.Services

open GoText Store KeyedTable CallProgram

/-- The requests that change a field of a ticket. -/
inductive FieldChange
  | update (input : UpdateInput)
  | assignAs (assigneeID : GoString) (k : ActorKind)
  | setStatusAs (status : Status) (k : ActorKind)
  | setPriorityAs (priority : Priority) (k : ActorKind)

def FieldWrite.method : FieldWrite → Method
  | .status _ => .setStatus
  | .assignee .. => .setAssignee
  | .patch _ => .updateTicket

def FieldWrite.value (w : FieldWrite) (before : Ticket) : GoString := w.field.valueOf (w.apply 0 before)

theorem valueOf_apply_self (w : FieldWrite) (at_ : Time) (t : Ticket) :
    w.field.valueOf (w.apply at_ t) = w.value t := by
  cases w <;> rfl

namespace FieldChange

variable (d : Deps)

def attempt (subj : Subjects) (id : GoString) : FieldChange → Attempt View
  | .update input => Tickets.update d subj id input
  | .assignAs assigneeID k => Tickets.assignAs d subj id assigneeID k
  | .setStatusAs status k => Tickets.setStatusAs d subj id status k
  | .setPriorityAs priority k => Tickets.setPriorityAs d subj id priority k

def namedUser (dir : GoString → GoString → Except DirectoryErr User) (tenantID userID : GoString) :
    Option User :=
  if userID = [] then some ⟨[], [], []⟩ else if d.agents then (dir tenantID userID).toOption else none

def asked (dir : GoString → GoString → Except DirectoryErr User) (tenantID : GoString) (before : Ticket) :
    FieldChange → Option FieldWrite
  | .update input => (Tickets.cleanPatch input).toOption.map .patch
  | .assignAs assigneeID _ =>
    (namedUser d dir tenantID assigneeID).bind fun u =>
      if before.assigneeID = assigneeID ∧ (assigneeID = [] ∨ before.assigneeName = u.displayName) then none
      else some (.assignee assigneeID u.displayName)
  | .setStatusAs status _ =>
    if validStatus status ∧ before.status ≠ status then some (.status status) else none
  | .setPriorityAs priority _ =>
    if validPriority priority ∧ before.priority ≠ priority then
      some (.patch { priority := some priority }) else none

end FieldChange

/-- What surrounds a request: which store methods fail, and the answers of the directory. -/
structure Conditions where
  fails : Method → Bool
  directory : GoString → GoString → Except DirectoryErr User

/-- The choices made under such conditions; the clock and the ids are free. -/
def Conditions.Under (cond : Conditions) (c : Choice) : Prop :=
  c.fail = cond.fails ∧ c.directory = cond.directory

structure Writing (cond : Conditions) (asks : Ticket → Option FieldWrite)
    (tenantID id : GoString) (w : World) (before : Ticket) (fw : FieldWrite) : Prop where
  stored : before ∈ w.mem.tickets.rows
  tenant : before.tenantID = tenantID
  named : before.id = id
  asked : asks before = some fw
  read : cond.fails .getTicket = false
  written : cond.fails fw.method = false

def Conditions.Viewed (cond : Conditions) : Prop :=
  cond.fails .tagsForTickets = false ∧ cond.fails .listAttachments = false

inductive Ending (cond : Conditions) (asks : Ticket → Option FieldWrite) (tenantID id : GoString)
    (Stamp : Time → Prop) (w : World) : Except Err View → World → Prop
  | untouched {r : Except Err View}
      {w' : World} : (∀ before fw, ¬ Writing cond asks tenantID id w before fw) →
      w'.mem = w.mem → Ending cond asks tenantID id Stamp w r w'
  | unrecorded {before : Ticket} {fw : FieldWrite} {τ : Time} {e : Err} {w' : World} :
      Writing cond asks tenantID id w before fw → Stamp τ → fw.value before ≠ fw.field.valueOf before →
      cond.fails .appendHistory = true →
      w'.mem = { w.mem with tickets := w.mem.tickets.put (fw.apply τ before) } →
      Ending cond asks tenantID id Stamp w (.error e) w'
  | recorded {before : Ticket} {fw : FieldWrite} {τ : Time} {h : History} {r : Except Err View}
      {w' : World} :
      Writing cond asks tenantID id w before fw → Stamp τ → fw.value before ≠ fw.field.valueOf before →
      cond.fails .appendHistory = false → (r.isOk ↔ cond.Viewed) →
      h.ticketID = id → h.field = fw.field → h.oldValue = fw.field.valueOf before →
      h.newValue = fw.value before →
      w'.mem =
      { w.mem with
        tickets := w.mem.tickets.put (fw.apply τ before),
        history := w.mem.history ++ [h] } →
      Ending cond asks tenantID id Stamp w r w'
  | unchanged {before : Ticket} {fw : FieldWrite} {τ : Time} {r : Except Err View} {w' : World} :
      Writing cond asks tenantID id w before fw → Stamp τ → fw.value before = fw.field.valueOf before →
      (r.isOk ↔ cond.Viewed) →
      w'.mem = { w.mem with tickets := w.mem.tickets.put (fw.apply τ before) } →
      Ending cond asks tenantID id Stamp w r w'

theorem ending_refused {cond : Conditions} {Stamp : Time → Prop} {w : World} {T id : GoString}
    {asks : Ticket → Option FieldWrite} (hnone : ∀ t, asks t = none) (r : Except Err View) :
    Ending cond asks T id Stamp w r w :=
  .untouched (fun t _ h => nomatch (hnone t).symm.trans h.asked) rfl

section Endings

variable [GoLibrary] {cond : Conditions} {Ok : Choice → Prop} (hOk : ∀ c, Ok c → cond.Under c) {w : World}

include hOk

theorem chosen_store (q : StoreCall) {K : Answer (.store q) → World → Prop}
    (hfail : cond.fails q.method = true → K (.error .failure) w)
    (hrun : cond.fails q.method = false → ∀ c, Ok c → K (performStore c.now c.newID w.mem q).1
      { w with mem := (performStore c.now c.newID w.mem q).2 }) :
      answering step (fun c _ _ => Ok c) (.store q) K w := by
  intro c hc
  have hcf : c.fail q.method = cond.fails q.method := congrFun (hOk c hc).1 _
  cases hq : cond.fails q.method with
  | true =>
    rw [step_store_failed (hcf.trans hq)]
    exact hfail hq
  | false =>
    rw [step_store (hcf.trans hq)]
    exact hrun hq c hc

theorem ensures_ask {β : Type} {q : StoreCall} {g : RepoErr → Err} {f : q.Value → Attempt β}
    {Q : Except Err β → World → Prop} (hfail : cond.fails q.method = true → Q (.error (g .failure)) w)
    (herr : cond.fails q.method = false → ∀ c e, Ok c → (performStore c.now c.newID w.mem q).1 = .error e →
      Q (.error (g e)) { w with mem := (performStore c.now c.newID w.mem q).2 })
    (hok : cond.fails q.method = false → ∀ c v, Ok c → (performStore c.now c.newID w.mem q).1 = .ok v →
      Ensures step Ok (f v).run Q { w with mem := (performStore c.now c.newID w.mem q).2 }) :
    Ensures step Ok (ask q g >>= f).run Q w := by
  refine (congrFun ((wp_tryBind _ _ f Q).trans (wp_ask _ q g _)) w).mpr
    (chosen_store hOk q hfail fun hq c hc => ?_)
  cases hr : (performStore c.now c.newID w.mem q).1 with
  | error e => exact herr hq c e hc hr
  | ok v => exact hok hq c v hc hr

omit hOk in
theorem ensures_clock {β : Type} {f : Time → Attempt β} {Q : Except Err β → World → Prop}
    (h : ∀ c, Ok c → Ensures step Ok (f c.now).run Q w) : Ensures step Ok (liftM clock >>= f).run Q w :=
  EnsuresWhen.lift h

omit hOk in
theorem ensures_newID {β : Type} {f : GoString → Attempt β} {Q : Except Err β → World → Prop}
    (h : ∀ c, Ok c → Ensures step Ok (f c.newID).run Q w) : Ensures step Ok (liftM newID >>= f).run Q w :=
  EnsuresWhen.lift h

theorem ensures_view (t : Ticket) :
    Ensures step Ok (Tickets.view t true).run (fun r w' => w'.mem = w.mem ∧ (r.isOk ↔ cond.Viewed)) w := by
  have hfailed : ∀ {μ : Method} {e : Err}, cond.fails μ = true →
      (μ = .tagsForTickets ∨ μ = .listAttachments) →
      ((Except.error e : Except Err View).isOk ↔ cond.Viewed) := by
    rintro μ e hf (rfl | rfl)
    · exact iff_of_false (by simp [Except.isOk, Except.toBool]) fun h => by simp [h.1] at hf
    · exact iff_of_false (by simp [Except.isOk, Except.toBool]) fun h => by simp [h.2] at hf
  refine ensures_ask hOk (fun hf => ⟨rfl, hfailed hf (.inl rfl)⟩) (fun _ _ _ _ h => nomatch h) ?_
  intro htags c tags _ _
  refine ensures_ask hOk (fun hf => ⟨rfl, hfailed hf (.inr rfl)⟩) (fun _ _ _ _ h => nomatch h) ?_
  intro hatts c' atts _ _
  exact ⟨rfl, iff_of_true rfl ⟨htags, hatts⟩⟩

theorem ensures_perform {T id : GoString} {at_ : Time} {fw : FieldWrite}
    {Q : Except Err Ticket → World → Prop} (hfail : cond.fails fw.method = true → ∀ e, Q (.error e) w)
    (hwrite : cond.fails fw.method = false → ∀ c, Ok c →
      ∀ o, o = w.mem.modifyTicket T id (fw.apply (orNow at_ c.now)) →
      Q (o.1.mapError mapErr) { w with mem := o.2 }) :
    Ensures step Ok (fw.perform T id at_).run Q w := by
  cases fw with
  | status s =>
    exact chosen_store hOk (.setStatus T id s at_) (fun hm => hfail hm _) fun hm c hc =>
      hwrite hm c hc _ rfl
  | assignee userID name =>
    exact chosen_store hOk (.setAssignee T id userID name at_) (fun hm => hfail hm _)
      fun hm c hc => hwrite hm c hc _ rfl
  | patch p =>
    exact chosen_store hOk (.updateTicket T id p at_) (fun hm => hfail hm _) fun hm c hc =>
      hwrite hm c hc _ rfl

def Stamped (Ok : Choice → Prop) (τ : Time) : Prop := ∃ c c', Ok c ∧ Ok c' ∧ τ = orNow c.now c'.now

omit hOk in
theorem ensures_announce (d : Deps) (T : GoString) (fw : FieldWrite) (t : Ticket) (k : ActorKind) :
    Ensures step Ok (Tickets.announce d T fw t k) (fun _ w' => w'.mem = w.mem) w := by
  unfold Tickets.announce
  split
  · unfold emit
    split
    · exact fun _ _ => rfl
    · rfl
  · rfl

theorem ending_written (d : Deps) {T id : GoString} (k : ActorKind) (actor : GoString)
    {asks : Ticket → Option FieldWrite} {before : Ticket} {fw : FieldWrite} {τ : Time} {w' : World}
    (h : Writing cond asks T id w before fw) (hτ : Stamped Ok τ)
    (hw' : w'.mem = { w.mem with tickets := w.mem.tickets.put (fw.apply τ before) }) :
    Ensures step Ok (do
      appendHistory T id fw.field (fw.field.valueOf before) (fw.field.valueOf (fw.apply τ before)) k actor
      Tickets.announce d T fw (fw.apply τ before) k
      Tickets.view (fw.apply τ before) true :
      Attempt View).run (Ending cond asks T id (Stamped Ok) w) w' := by
  have htail : ∀ {w₁ : World} {Q : Except Err View → World → Prop},
      (∀ r w₂, w₂.mem = w₁.mem → (r.isOk ↔ cond.Viewed) → Q r w₂) →
        Ensures step Ok (do
          Tickets.announce d T fw (fw.apply τ before) k
          Tickets.view (fw.apply τ before) true : Attempt View).run Q w₁ := by
    intro w₁ Q hQ
    refine EnsuresWhen.lift ((ensures_announce d T fw _ k).mono fun _ w₂ hw₂ => ?_)
    exact (ensures_view hOk _).mono fun r w₃ h₃ => hQ r w₃ (h₃.1.trans hw₂) h₃.2
  rw [valueOf_apply_self]
  by_cases hsame : fw.field.valueOf before = fw.value before
  · rw [appendHistory, if_pos hsame]
    exact htail fun r w₂ hw₂ hr => .unchanged h hτ hsame.symm hr (hw₂.trans hw')
  · have hstored : fw.apply τ before ∈ w'.mem.tickets.rows := by
      rw [hw']
      exact Table.mem_put.mpr (.inl rfl)
    rw [appendHistory, if_neg hsame]
    refine EnsuresWhen.andThen
      (S := fun r w₁ => (∃ e, r = .error e ∧ cond.fails .appendHistory = true ∧ w₁ = w') ∨
      ∃ x : History, r = .ok () ∧ cond.fails .appendHistory = false ∧ x.ticketID = id ∧ x.field = fw.field ∧
        x.oldValue = fw.field.valueOf before ∧ x.newValue = fw.value before ∧
        w₁.mem = { w'.mem with history := w'.mem.history ++ [x] }) ?_ ?_ ?_
    · refine ensures_newID fun c _ => ensures_clock fun c' _ => chosen_store hOk (.appendHistory _) ?_ ?_
      · exact fun hf => .inl ⟨_, rfl, hf, rfl⟩
      · intro hf c'' _
        have heq := appendHistory_eq c''.now hstored
          (h := ⟨c.newID, T, id, fw.field, fw.field.valueOf before, fw.value before, k, actor, c'.now⟩)
          ((apply_tenantID τ before fw).trans h.tenant) ((apply_id τ before fw).trans h.named)
        exact .inr ⟨⟨c.newID, T, id, fw.field, _, _, k, actor, _⟩,
          congrArg (fun o => Except.mapError mapErr o.1) heq, hf, rfl, rfl, rfl, rfl, congrArg Prod.snd heq⟩
    · rintro _ w₁ (⟨_, ⟨⟩, -⟩ | ⟨x, -, hf, hid, hfld, hold, hnew, hw₁⟩)
      refine htail fun r w₂ hw₂ hr => .recorded h hτ (Ne.symm hsame) hf hr hid hfld hold hnew ?_
      rw [hw₂, hw₁, hw']
    · rintro e w₁ (⟨_, -, hf, rfl⟩ | ⟨x, ⟨⟩, -⟩)
      exact .unrecorded h hτ (Ne.symm hsame) hf hw'

theorem ending_changeField (d : Deps) (subj : Subjects) (T id : GoString) (k : ActorKind)
    {plan : Ticket → Attempt (Option FieldWrite)} {asks : Ticket → Option FieldWrite}
    (hplan : ∀ t w, Ensures step Ok (plan t).run
      (fun r w' => w = w' ∧ asks t = r.toOption.join) w) :
    Ensures step Ok (Tickets.changeField d subj T id k plan).run
      (Ending cond asks T id (Stamped Ok) w) w := by
  refine ensures_ask hOk ?_ ?_ ?_
  · refine fun hf => .untouched (fun before fw h => ?_) rfl
    exact Bool.noConfusion (hf.symm.trans h.read)
  · refine fun _ c e _ he => .untouched (fun before fw h => ?_) rfl
    exact nomatch (ticket_eq_ok h.stored h.tenant h.named).symm.trans he
  intro hread c before _ hget
  obtain ⟨hmem, hten, hid⟩ := ticket_ok hget
  have honly : ∀ t fw, Writing cond asks T id w t fw → t = before := fun t fw h =>
    w.mem.tickets.eq_of_key h.stored hmem (h.named.trans hid.symm)
  refine EnsuresWhen.andThen (hplan before w) ?_ ?_
  rotate_left
  · rintro e _ ⟨rfl, hasked⟩
    refine .untouched (fun t fw h => ?_) rfl
    obtain rfl := honly t fw h
    exact nomatch hasked.symm.trans h.asked
  rintro o _ ⟨rfl, hasked⟩
  cases o with
  | none =>
    refine (ensures_view hOk before).mono fun r w' h => .untouched (fun t fw h' => ?_) h.1
    obtain rfl := honly t fw h'
    exact nomatch hasked.symm.trans h'.asked
  | some fw =>
    refine ensures_clock fun c₁ hc₁ => ?_
    refine EnsuresWhen.andThen
      (S := fun r w' => (∃ e, r = .error e ∧ cond.fails fw.method = true ∧ w' = w) ∨
      ∃ τ, r = .ok (fw.apply τ before) ∧ Stamped Ok τ ∧ cond.fails fw.method = false ∧
        w'.mem = { w.mem with tickets := w.mem.tickets.put (fw.apply τ before) })
        (ensures_perform hOk ?_ ?_) ?_ ?_
    · exact fun hm e => .inl ⟨e, rfl, hm, rfl⟩
    · rintro hm c hc _ rfl
      rw [Mem.modifyTicket, ticket_eq_ok hmem hten hid]
      exact .inr ⟨_, rfl, ⟨c₁, c, hc₁, hc, rfl⟩, hm, rfl⟩
    · rintro after w' (⟨_, ⟨⟩, -⟩ | ⟨τ, ⟨⟩, hτ, hm, hw'⟩)
      exact ending_written hOk d k subj.actorID ⟨hmem, hten, hid, hasked, hread, hm⟩ hτ hw'
    · rintro e w' (⟨_, -, hm, rfl⟩ | ⟨τ, ⟨⟩, -⟩)
      refine .untouched (fun t fw' h => ?_) rfl
      obtain rfl := honly t fw' h
      obtain rfl := Option.some.inj (h.asked.symm.trans hasked)
      exact Bool.noConfusion (hm.symm.trans h.written)

theorem ensures_chosenAssignee (d : Deps) (T userID : GoString) :
    Ensures step Ok (Tickets.chosenAssignee d T userID).run
      (fun r w' => w = w' ∧ r.toOption = FieldChange.namedUser d cond.directory T userID) w := by
  unfold Tickets.chosenAssignee FieldChange.namedUser
  split
  · exact ⟨rfl, rfl⟩
  · unfold Tickets.resolveAssignee
    split
    · refine EnsuresWhen.lift fun c hc => ?_
      rw [show step c (.lookup T userID) w = (c.directory T userID, w) from rfl, (hOk c hc).2]
      rcases cond.directory T userID with e | u
      · cases e <;> exact ⟨rfl, rfl⟩
      · exact ⟨rfl, rfl⟩
    · exact ⟨rfl, rfl⟩

theorem ending_attempt (d : Deps) {subj : Subjects} (hten : subj.tenantID ≠ []) (id : GoString)
    (op : FieldChange) :
    Ensures step Ok (op.attempt d subj id).run
      (Ending cond (fun t => op.asked d cond.directory subj.tenantID t) subj.tenantID id
        (Stamped Ok) w) w := by
  have htenant : ∀ {f : GoString → Attempt View} {Q : Except Err View → World → Prop},
      Ensures step Ok (f subj.tenantID).run Q w →
      Ensures step Ok (ofExcept (tenantOf subj) >>= f).run Q w := by
    intro f Q hf
    rw [tenantOf, if_neg hten]
    exact hf
  cases op with
  | update input =>
    refine htenant ?_
    cases hp : Tickets.cleanPatch input with
    | error e => exact ending_refused (fun t => by simp [FieldChange.asked, hp, Except.toOption]) _
    | ok p =>
      refine ending_changeField hOk d subj _ id _ fun t w => ⟨rfl, ?_⟩
      simp [FieldChange.asked, hp, Except.toOption]
  | assignAs assigneeID k =>
    refine htenant (ending_changeField hOk d subj _ id _ fun t w => ?_)
    refine EnsuresWhen.andThen (ensures_chosenAssignee hOk d _ assigneeID) ?_ ?_
    · rintro u _ ⟨rfl, hu⟩
      refine ⟨rfl, ?_⟩
      simp only [FieldChange.asked, ← hu, Except.toOption, Option.bind_some, Option.join_some]
    · rintro e _ ⟨rfl, hu⟩
      exact ⟨rfl, by simp only [FieldChange.asked, ← hu, Except.toOption, Option.bind_none,
        Option.join_none]⟩
  | setStatusAs status k =>
    refine htenant ?_
    by_cases hv : validStatus status
    · rw [if_pos hv]
      refine ending_changeField hOk d subj _ id _ fun t w => ⟨rfl, ?_⟩
      by_cases hs : t.status = status <;> simp [FieldChange.asked, hv, hs, Except.toOption]
    · rw [if_neg hv]
      exact ending_refused (fun t => by simp [FieldChange.asked, hv]) _
  | setPriorityAs priority k =>
    refine htenant ?_
    by_cases hv : validPriority priority
    · rw [cleanPriority, if_pos hv]
      refine ending_changeField hOk d subj _ id _ fun t w => ⟨rfl, ?_⟩
      by_cases hs : t.priority = priority <;> simp [FieldChange.asked, hv, hs, Except.toOption]
    · rw [cleanPriority, if_neg hv]
      exact ending_refused (fun t => by simp [FieldChange.asked, hv]) _

end Endings

def historyOf (w : World) (id : GoString) : List History := w.mem.history.filter (fun h => h.ticketID = id)

/-- An error leaves the ticket and its history alone; without one every field changed has exactly
one more history row, for that change. -/
structure AllOrNothing (id : GoString) (w : World) (r : Except Err View) (w' : World) : Prop where
  nothing : r.isOk = false →
    w'.mem.tickets.get? id = w.mem.tickets.get? id ∧ historyOf w' id = historyOf w id
  all : r.isOk = true → ∀ t t', w.mem.tickets.get? id = some t → w'.mem.tickets.get? id = some t' →
    ∀ f ∈ recordedFields, f.valueOf t' ≠ f.valueOf t →
      changes w'.mem id f = changes w.mem id f ++ [(f.valueOf t, f.valueOf t')]

/-- The request makes its write, and then its history row or a read of the changed ticket fails. -/
def CutShort (d : Deps) (subj : Subjects) (id : GoString) (op : FieldChange) (cond : Conditions)
    (w : World) : Prop :=
  subj.tenantID ≠ [] ∧ ∃ before fw,
    Writing cond (fun t => op.asked d cond.directory subj.tenantID t) subj.tenantID id w before fw ∧
      (fw.value before ≠ fw.field.valueOf before ∧ cond.fails .appendHistory = true ∨ ¬ cond.Viewed)

section AllOrNothing

variable {cond : Conditions} {asks : Ticket → Option FieldWrite} {T id : GoString} {Stamp : Time → Prop}
  {w w' : World} {r : Except Err View}

theorem allOrNothing_same (h : w'.mem = w.mem) : AllOrNothing id w r w' where
  nothing _ := by simp [h, historyOf]
  all _ t t' ht ht' f _ hne := by
    rw [h] at ht'
    exact absurd (congrArg f.valueOf (Option.some.inj (ht'.symm.trans ht))) hne

theorem Writing.rows {before : Ticket} {fw : FieldWrite} {τ : Time} (h : Writing cond asks T id w before fw)
    (hw' : w'.mem.tickets = w.mem.tickets.put (fw.apply τ before)) :
    w.mem.tickets.get? id = some before ∧ w'.mem.tickets.get? id = some (fw.apply τ before) := by
  refine ⟨Table.get?_eq_some.mpr ⟨h.stored, h.named⟩, ?_⟩
  rw [hw', Table.get?_put, if_pos (by rw [apply_id, h.named])]

theorem Ending.allOrNothing (hend : Ending cond asks T id Stamp w r w')
    (hcut : ∀ before fw, Writing cond asks T id w before fw →
      ¬ (fw.value before ≠ fw.field.valueOf before ∧ cond.fails .appendHistory = true ∨ ¬ cond.Viewed)) :
    AllOrNothing id w r w' := by
  cases hend with
  | untouched hno hmem => exact allOrNothing_same hmem
  | unrecorded h hτ hne hf hmem => exact absurd (.inl ⟨hne, hf⟩) (hcut _ _ h)
  | @recorded before fw τ x r w' h hτ hne hf hr hid hfld hold hnew hmem =>
    have hok : r.isOk = true := hr.mpr (by_contra fun hv => hcut _ _ h (.inr hv))
    refine ⟨fun herr => absurd (hok.symm.trans herr) Bool.noConfusion,
      fun _ t t' ht ht' f hf' hchange => ?_⟩
    obtain ⟨hrow, hrow'⟩ := h.rows (congrArg Mem.tickets hmem)
    obtain rfl := Option.some.inj (hrow.symm.trans ht)
    obtain rfl := Option.some.inj (hrow'.symm.trans ht')
    have hfw : f = fw.field := by_contra fun hc => hchange (valueOf_apply hc τ before)
    subst hfw
    rw [valueOf_apply_self, changes, hmem]
    simp [changes, hid, hfld, hold, hnew]
  | @unchanged before fw τ r w' h hτ hsame hr hmem =>
    have hok : r.isOk = true := hr.mpr (by_contra fun hv => hcut _ _ h (.inr hv))
    refine ⟨fun herr => absurd (hok.symm.trans herr) Bool.noConfusion,
      fun _ t t' ht ht' f hf' hchange => ?_⟩
    obtain ⟨hrow, hrow'⟩ := h.rows (congrArg Mem.tickets hmem)
    obtain rfl := Option.some.inj (hrow.symm.trans ht)
    obtain rfl := Option.some.inj (hrow'.symm.trans ht')
    refine absurd ?_ hchange
    by_cases hfw : f = fw.field
    · rw [hfw, valueOf_apply_self, hsame]
    · exact valueOf_apply hfw τ before

theorem Ending.not_allOrNothing (hend : Ending cond asks T id Stamp w r w') {before : Ticket}
    {fw : FieldWrite} (h : Writing cond asks T id w before fw)
    (hcut : fw.value before ≠ fw.field.valueOf before ∧ cond.fails .appendHistory = true ∨ ¬ cond.Viewed)
    (hstamp : ∀ τ, Stamp τ → τ ≠ before.updatedAt) : ¬ AllOrNothing id w r w' := by
  have hunique : ∀ {t : Ticket} {fw' : FieldWrite}, Writing cond asks T id w t fw' → t = before ∧
      fw' = fw := by
    intro t fw' h'
    obtain rfl := w.mem.tickets.eq_of_key h'.stored h.stored (h'.named.trans h.named.symm)
    exact ⟨rfl, Option.some.inj (h'.asked.symm.trans h.asked)⟩
  have hmoved : ∀ {τ : Time}, Stamp τ → w'.mem.tickets = w.mem.tickets.put (fw.apply τ before) →
      r.isOk = false →
      ¬ AllOrNothing id w r w' := by
    intro τ hτ htickets herr hall
    obtain ⟨hrow, hrow'⟩ := h.rows htickets
    have heq := Option.some.inj (hrow'.symm.trans ((hall.nothing herr).1.trans hrow))
    have hupd : (fw.apply τ before).updatedAt = τ := by cases fw <;> rfl
    exact hstamp τ hτ (hupd.symm.trans (congrArg Ticket.updatedAt heq))
  have hviewed : (r.isOk ↔ cond.Viewed) → ¬ cond.Viewed → r.isOk = false :=
    fun hr hv => by simpa using fun hok => hv (hr.mp hok)
  cases hend with
  | untouched hno hmem => exact absurd h (hno before fw)
  | unrecorded h' hτ hne hf hmem =>
    obtain ⟨rfl, rfl⟩ := hunique h'
    exact hmoved hτ (congrArg Mem.tickets hmem) rfl
  | recorded h' hτ hne hf hr hid hfld hold hnew hmem =>
    obtain ⟨rfl, rfl⟩ := hunique h'
    refine hmoved hτ (congrArg Mem.tickets hmem) (hviewed hr ?_)
    exact hcut.resolve_left fun hc => Bool.noConfusion (hc.2.symm.trans hf)
  | unchanged h' hτ hsame hr hmem =>
    obtain ⟨rfl, rfl⟩ := hunique h'
    exact hmoved hτ (congrArg Mem.tickets hmem) (hviewed hr (hcut.resolve_left fun hc => hc.1 hsame))

end AllOrNothing

section Main

variable [GoLibrary] (d : Deps) (subj : Subjects) (id : GoString) (op : FieldChange)
  (cond : Conditions) (w : World)

theorem ensures_attempt_refused {Ok : Choice → Prop} (hten : subj.tenantID = []) :
    Ensures step Ok (op.attempt d subj id).run (fun _ w' => w'.mem = w.mem) w := by
  cases op <;>
  · unfold FieldChange.attempt
    simp only [Tickets.update, Tickets.assignAs, Tickets.setStatusAs, Tickets.setPriorityAs,
      tenantOf, if_pos hten]
    rfl

/-- Under given failures and directory answers, whatever the clock and the ids: a field change is
all or nothing if and only if it is not cut short after its write. -/
theorem change_allOrNothing_iff :
    (∀ cs : ℕ → Choice, (∀ n, cond.Under (cs n)) → AllOrNothing id w
      (run step (op.attempt d subj id).run w cs).value (run step (op.attempt d subj id).run w cs).state) ↔
      ¬ CutShort d subj id op cond w := by
  constructor
  · rintro hall ⟨hten, before, fw, hwriting, hcut⟩
    let c : Choice := { fail := cond.fails, directory := cond.directory, now := before.updatedAt + 1 }
    have hOk : ∀ c', c' = c → cond.Under c' := by
      rintro _ rfl
      exact ⟨rfl, rfl⟩
    have hend := (ending_attempt hOk d hten id op (w := w)).run (fun _ => c) fun _ => rfl
    refine hend.not_allOrNothing hwriting hcut ?_ (hall _ fun _ => hOk c rfl)
    rintro _ ⟨_, _, rfl, rfl, rfl⟩
    simp [orNow, c]
  · intro hnot cs hcs
    by_cases hten : subj.tenantID = []
    · exact allOrNothing_same ((ensures_attempt_refused d subj id op w hten).run cs hcs)
    · refine ((ending_attempt (fun _ h => h) d hten id op).run cs hcs).allOrNothing
        fun before fw hwriting hcut => ?_
      exact hnot ⟨hten, before, fw, hwriting, hcut⟩

end Main

def oneTicket : World :=
  { mem := { tickets := Table.empty.put { id := "n", tenantID := "t", status := .open } } }

/-- With the history table failing, resolving the ticket answers an error and resolves it. -/
theorem failed_change_resolves :
    letI := asciiLibrary
    ∃ cs : ℕ → Choice, ¬ AllOrNothing "n" oneTicket
      (run step (Tickets.setStatusAs {} ⟨"t", "u", [], .agent⟩ "n" .resolved .agent).run oneTicket cs).value
      (run step (Tickets.setStatusAs {} ⟨"t", "u", [], .agent⟩ "n" .resolved .agent).run oneTicket
        cs).state := by
  refine ⟨fun _ => { fail := fun μ => μ = .appendHistory }, fun h => absurd (h.nothing ?_).1 ?_⟩ <;>
    decide +kernel

end TangraTicket.Services
