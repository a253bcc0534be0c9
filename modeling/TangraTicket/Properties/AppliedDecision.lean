import TangraTicket.Library.Settling
import TangraTicket.Services.Footprint
import TangraTicket.Properties.FailedChanges

/-!
Applying a decision to a ticket: a second application changes nothing, and the first one changes
only the ticket with its links and history, and adds tags to the vocabulary.
-/

namespace TangraTicket.Services.Rules

open GoText KeyedTable Store CallProgram

section Tags

variable [GoLibrary] (T : GoString)

def TagRef.storeKind (ref : TagRef) : Kind := if ref.kind = .unset then .tag else ref.kind

/-- The tag the store has under the kind and name of `ref`. -/
def named (tags : Table GoString Tag Tag.id) (ref : TagRef) : Option Tag :=
  tags.rows.find? fun t => t.tenantID = T ∧ t.kind = ref.storeKind ∧ equalFold t.name ref.name

def addedTag (now : Time) (id : GoString) (ref : TagRef) : Tag :=
  { id := id, tenantID := T, kind := ref.storeKind, name := ref.name, createdAt := now }

def Grown (tags tags' : Table GoString Tag Tag.id) : Prop :=
  ∃ new, tags'.rows = tags.rows ++ new ∧ ∀ t ∈ new, t.tenantID = T

variable {T} {tags tags' : Table GoString Tag Tag.id} {ref : TagRef} {t : Tag}

omit [GoLibrary] in
theorem Grown.refl : Grown T tags tags := ⟨[], (List.append_nil _).symm, fun _ h => by cases h⟩

omit [GoLibrary] in
theorem Grown.trans {tags'' : Table GoString Tag Tag.id} (h : Grown T tags tags')
    (h' : Grown T tags' tags'') :
    Grown T tags tags'' := by
  obtain ⟨new, hrows, hnew⟩ := h
  obtain ⟨new', hrows', hnew'⟩ := h'
  refine ⟨new ++ new', by rw [hrows', hrows, List.append_assoc], ?_⟩
  exact List.forall_mem_append.mpr ⟨hnew, hnew'⟩

theorem Grown.named (h : Grown T tags tags') (ht : named T tags ref = some t) :
    named T tags' ref = some t := by
  obtain ⟨new, hrows, -⟩ := h
  rw [Rules.named, hrows, List.find?_append]
  rw [Rules.named] at ht
  rw [ht]
  rfl

theorem named_tenant (h : named T tags ref = some t) : t ∈ tags.rows ∧ t.tenantID = T := by
  unfold named at h
  have hp := List.find?_some h
  exact ⟨List.mem_of_find?_eq_some h, (of_decide_eq_true hp).1⟩

theorem ensureTagByName_eq (now : Time) (id : GoString) (m : Mem) (ref : TagRef) :
    m.ensureTagByName now id T ref.kind ref.name = match named T m.tags ref with
      | some t => (.ok t, m)
      | none => ((m.createTag now (addedTag T now id ref)).1.map fun _ => addedTag T now id ref,
          (m.createTag now (addedTag T now id ref)).2) := rfl

theorem ensureTagByName_named (now : Time) {id : GoString} (m : Mem) (hid : m.tags.get? id = none)
    (ref : TagRef) :
    ∃ t found tags', m.ensureTagByName now id T ref.kind ref.name = (.ok t, { m with tags := tags' }) ∧
      Grown T m.tags tags' ∧ named T tags' ref = some found ∧ found.id = t.id ∧
      ∀ old, named T m.tags ref = some old → tags' = m.tags := by
  cases hfound : named T m.tags ref with
  | some t =>
    refine ⟨t, t, m.tags, ?_, .refl, hfound, rfl, fun _ _ => rfl⟩
    rw [ensureTagByName_eq, hfound]
  | none =>
    -- no tag has that name, so the new one meets no conflict
    have hkind : (if ref.storeKind = .unset then Kind.tag else ref.storeKind) = ref.storeKind := by
      unfold TagRef.storeKind
      by_cases hk : ref.kind = .unset <;> simp [hk]
    have hcreate : m.createTag now (addedTag T now id ref) =
        (.ok (), { m with tags := m.tags.put (addedTag T (orNow now now) id ref) }) := by
      unfold Mem.createTag addedTag
      dsimp only
      rw [hkind, if_neg]
      rintro (hsome | hconflict)
      · rw [hid] at hsome
        cases hsome
      · obtain ⟨x, hx, hxc⟩ := List.any_eq_true.mp hconflict
        obtain ⟨-, hten, hkx, hfold⟩ := of_decide_eq_true hxc
        unfold named at hfound
        exact List.find?_eq_none.mp hfound x hx (decide_eq_true ⟨hten, hkx, hfold⟩)
    have hrows : (m.tags.put (addedTag T (orNow now now) id ref)).rows = m.tags.rows ++
        [addedTag T (orNow now now) id ref] :=
      Table.put_rows_new hid
    refine ⟨addedTag T now id ref, addedTag T (orNow now now) id ref, _, ?_, ⟨_, hrows, ?_⟩, ?_, rfl,
      fun old hold => by cases hold⟩
    · rw [ensureTagByName_eq, hfound, hcreate]
      rfl
    · intro t ht
      rw [List.mem_singleton.mp ht]
      rfl
    · unfold named at hfound ⊢
      rw [hrows, List.find?_append, hfound]
      simp [addedTag, equalFold]

end Tags

section Linking

variable [GoLibrary] (T tid : GoString) (refs : List TagRef)

def namedIDs (tags : Table GoString Tag Tag.id) : List GoString :=
  refs.filterMap fun ref => (named T tags ref).map (·.id)

def AllNamed (tags : Table GoString Tag Tag.id) : Prop := ∀ ref ∈ refs, ∃ t, named T tags ref = some t

def TagsSettled (m : Mem) : Prop :=
  AllNamed T refs m.tags ∧ ∀ t, m.ticket T tid = .ok t → ∀ id ∈ namedIDs T refs m.tags, (tid, id) ∈ m.links

def Tagged (m m' : Mem) : Prop :=
  m' = { m with tags := m'.tags, links := m'.links } ∧ Grown T m.tags m'.tags ∧ AllNamed T refs m'.tags ∧
    (AllNamed T refs m.tags → m'.tags = m.tags) ∧
    ((∃ t, m.ticket T tid = .ok t) → m'.links = Mem.addLinks tid (namedIDs T refs m'.tags) m.links) ∧
    ((∀ t, m.ticket T tid ≠ .ok t) → m'.links = m.links)

variable {T tid refs}

omit [GoLibrary] in
theorem mem_addLinks (ids : List GoString) (links : List (GoString × GoString)) (x : GoString × GoString) :
    x ∈ Mem.addLinks tid ids links ↔ x ∈ links ∨ x.1 = tid ∧ x.2 ∈ ids := by
  induction ids generalizing links with
  | nil => simp [Mem.addLinks]
  | cons id ids ih =>
    have hstep : Mem.addLinks tid (id :: ids) links =
        Mem.addLinks tid ids (if (tid, id) ∈ links then links else links ++ [(tid, id)]) := rfl
    rw [hstep, ih, List.mem_cons]
    obtain ⟨a, b⟩ := x
    split_ifs with hin
    · constructor
      · rintro (h | ⟨h, h'⟩)
        exacts [.inl h, .inr ⟨h, .inr h'⟩]
      · rintro (h | ⟨rfl, rfl | h⟩)
        exacts [.inl h, .inl hin, .inr ⟨rfl, h⟩]
    · rw [List.mem_append, List.mem_singleton, Prod.mk.injEq]
      tauto

omit [GoLibrary] in
theorem addLinks_of_mem {ids : List GoString} {links : List (GoString × GoString)}
    (h : ∀ id ∈ ids, (tid, id) ∈ links) :
    Mem.addLinks tid ids links = links := by
  induction ids with
  | nil => rfl
  | cons id ids ih =>
    obtain ⟨hid, hids⟩ := List.forall_mem_cons.mp h
    have hstep : Mem.addLinks tid (id :: ids) links =
        Mem.addLinks tid ids (if (tid, id) ∈ links then links else links ++ [(tid, id)]) := rfl
    rw [hstep, if_pos hid, ih hids]

theorem Tagged.settled {m m' : Mem} (h : Tagged T tid refs m m') : TagsSettled T tid refs m' := by
  obtain ⟨heq, -, hnamed, -, hlinked, -⟩ := h
  refine ⟨hnamed, fun t ht id hid => ?_⟩
  have hticket : m.ticket T tid = .ok t := by
    rw [heq] at ht
    exact ht
  rw [hlinked ⟨t, hticket⟩]
  exact (mem_addLinks _ _ _).mpr (.inr ⟨rfl, hid⟩)

theorem Tagged.same {m m' : Mem} (h : Tagged T tid refs m m') (hm : TagsSettled T tid refs m) : m' = m := by
  obtain ⟨heq, -, -, hkept, hlinked, hunlinked⟩ := h
  have htags := hkept hm.1
  have hlinks : m'.links = m.links := by
    by_cases hex : ∃ t, m.ticket T tid = .ok t
    · rw [hlinked hex, htags]
      exact addLinks_of_mem fun id hid => hm.2 _ hex.choose_spec id hid
    · exact hunlinked fun t ht => hex ⟨t, ht⟩
  rw [heq, htags, hlinks]

end Linking

def Call.mintsTag : Call → Bool
  | .store (.ensureTagByName ..) => true
  | _ => false

def NewTag (c : Choice) (e : Call) (w : World) : Prop :=
  Call.mintsTag e = true → w.mem.tags.get? c.newID = none

instance (c : Choice) (e : Call) (w : World) : Decidable (NewTag c e w) :=
  inferInstanceAs (Decidable (_ → _))

/-- No store call fails, the directory answers as `dir`, and a tag is created under a new id. -/
def Steady (dir : GoString → GoString → Except DirectoryErr User) (c : Choice) (e : Call)
    (w : World) : Prop :=
  (FaultFree c ∧ c.directory = dir) ∧ NewTag c e w

section Runs

variable [GoLibrary] {dir : GoString → GoString → Except DirectoryErr User} {T : GoString} {w : World}

theorem ensures_ensureTags (refs : List TagRef) :
    EnsuresWhen step (Steady dir) (ensureTags T refs)
      (fun r w' => r.2 = [] ∧ r.1 = namedIDs T refs w'.mem.tags ∧
      w'.mem = { w.mem with tags := w'.mem.tags } ∧ Grown T w.mem.tags w'.mem.tags ∧
      AllNamed T refs w'.mem.tags ∧
      (AllNamed T refs w.mem.tags → w'.mem.tags = w.mem.tags)) w := by
  induction refs generalizing w with
  | nil => exact ⟨rfl, rfl, rfl, .refl, fun _ h => absurd h List.not_mem_nil, fun _ => rfl⟩
  | cons ref refs ih =>
    unfold ensureTags
    refine EnsuresWhen.bind fun c hc => ?_
    obtain ⟨⟨hfree, -⟩, hid⟩ := hc
    obtain ⟨t, found, tags₁, hensure, hgrown, hfound, hfid, hold⟩ :=
      ensureTagByName_named (T := T) c.now w.mem (hid rfl) ref
    have hstep := step_store_eq (hfree.not_failed _) (q := .ensureTagByName T ref.kind ref.name) hensure
    show EnsuresWhen step (Steady dir) _ _ (step c (.store (.ensureTagByName T ref.kind ref.name)) w).2
    rw [hstep]
    refine EnsuresWhen.bind (ih.mono ?_)
    rintro ⟨ids, errs⟩ w' ⟨rfl, rfl, hmem, hgrown', hnamed, hsame⟩
    have hfirst : named T w'.mem.tags ref = some found := hgrown'.named hfound
    refine ⟨rfl, ?_, by rw [hmem], hgrown.trans hgrown', ?_, fun hall => ?_⟩
    · have hids : namedIDs T (ref :: refs) w'.mem.tags = found.id :: namedIDs T refs w'.mem.tags := by
        rw [namedIDs, List.filterMap_cons, hfirst]
        rfl
      rw [hids, hfid]
    · exact List.forall_mem_cons.mpr ⟨⟨found, hfirst⟩, hnamed⟩
    · obtain ⟨hhead, htail⟩ := List.forall_mem_cons.mp hall
      have htags := hold _ hhead.choose_spec
      have htags' : w'.mem.tags = tags₁ := hsame (by rw [htags]; exact htail)
      rw [htags', htags]

theorem mem_namedIDs {refs : List TagRef} {tags : Table GoString Tag Tag.id} {id : GoString} :
    id ∈ namedIDs T refs tags ↔ ∃ ref ∈ refs, ∃ t, named T tags ref = some t ∧ t.id = id := by
  simp only [namedIDs, List.mem_filterMap, Option.map_eq_some_iff]

theorem addTicketTags_named {refs : List TagRef} {m : Mem} (tid : GoString) :
    m.addTicketTags T tid (namedIDs T refs m.tags) = match m.ticket T tid with
      | .error e => (.error e, m)
      | .ok _ => (.ok (), { m with links := Mem.addLinks tid (namedIDs T refs m.tags) m.links }) := by
  have hall : (namedIDs T refs m.tags).all
      (fun id => (m.tags.get? id).any (fun t => t.tenantID = T)) = true := by
    rw [List.all_eq_true]
    intro id hid
    obtain ⟨ref, -, t, ht, rfl⟩ := mem_namedIDs.mp hid
    obtain ⟨hmem, hten⟩ := named_tenant ht
    rw [Table.any_get?]
    exact ⟨t, hmem, rfl, decide_eq_true hten⟩
  unfold Mem.addTicketTags Mem.checkTags
  cases m.ticket T tid with
  | error e => rfl
  | ok t => simp only [hall, if_true]

theorem ensures_applyTags (subj : Subjects) (tid : GoString) (refs : List TagRef) :
    EnsuresWhen step (Steady dir) (applyTags subj tid refs) (fun errs w' =>
      Tagged subj.tenantID tid refs w.mem w'.mem ∧
      (errs = [] → refs = [] ∨ ∃ t, w.mem.ticket subj.tenantID tid = .ok t)) w := by
  unfold applyTags
  split_ifs with hrefs
  · refine ⟨⟨rfl, .refl, ?_, fun _ => rfl, fun _ => ?_, fun _ => rfl⟩, fun _ => .inl hrefs⟩
    · rw [hrefs]
      exact fun _ h => absurd h List.not_mem_nil
    · rw [hrefs]
      rfl
  · refine EnsuresWhen.bind ((ensures_ensureTags refs).mono ?_)
    rintro ⟨ids, errs⟩ w₁ ⟨rfl, rfl, hmem, hgrown, hnamed, hsame⟩
    have hids : namedIDs subj.tenantID refs w₁.mem.tags ≠ [] := by
      obtain ⟨ref, rest, rfl⟩ := List.exists_cons_of_ne_nil hrefs
      obtain ⟨t, ht⟩ := hnamed ref List.mem_cons_self
      exact List.ne_nil_of_mem (mem_namedIDs.mpr ⟨ref, List.mem_cons_self, t, ht, rfl⟩)
    show EnsuresWhen step (Steady dir) (if _ then _ else _) _ w₁
    rw [if_neg hids]
    refine EnsuresWhen.bind fun c hc => ?_
    have hticket : w₁.mem.ticket subj.tenantID tid = w.mem.ticket subj.tenantID tid := by
      rw [hmem]
      rfl
    have hlinks : w₁.mem.links = w.mem.links := by rw [hmem]
    have hrest : ∀ links, { w₁.mem with links := links } =
        { w.mem with tags := w₁.mem.tags, links := links } := by
      intro links
      rw [hmem]
    have hadd := @addTicketTags_named _ subj.tenantID refs w₁.mem tid
    cases ht : w.mem.ticket subj.tenantID tid with
    | error e =>
      rw [hticket, ht] at hadd
      have hstep := step_store_eq (hc.1.1.not_failed _)
        (q := .addTicketTags subj.tenantID tid (namedIDs subj.tenantID refs w₁.mem.tags)) hadd
      rw [hstep]
      refine ⟨⟨hrest _, hgrown, hnamed, hsame, ?_, fun _ => hlinks⟩, fun h => by cases h⟩
      rintro ⟨t, hok⟩
      rw [ht] at hok
      cases hok
    | ok t =>
      rw [hticket, ht] at hadd
      have hstep := step_store_eq (hc.1.1.not_failed _)
        (q := .addTicketTags subj.tenantID tid (namedIDs subj.tenantID refs w₁.mem.tags)) hadd
      rw [hstep]
      refine ⟨⟨hrest _, hgrown, hnamed, hsame, fun _ => ?_, fun h => absurd ht (h t)⟩, fun _ =>
        .inr ⟨t, rfl⟩⟩
      exact congrArg (Mem.addLinks tid _) hlinks

end Runs

section Field

variable {T tid : GoString} {plan plan' : Ticket → Option FieldWrite} {m m' : Mem}

def Rewritten (T tid : GoString) (plan : Ticket → Option FieldWrite) (m m' : Mem) : Prop :=
  (m' = m ∧ ∀ t, m.ticket T tid = .ok t → plan t = none) ∨
    ∃ t fw at_ hs, m.ticket T tid = .ok t ∧ plan t = some fw ∧
      m' = { m with tickets := m.tickets.put (FieldWrite.apply at_ t fw), history := m.history ++ hs } ∧
      ∀ h ∈ hs, h.ticketID = tid

def Met (T tid : GoString) (plan : Ticket → Option FieldWrite) (m : Mem) : Prop :=
  ∀ t, m.ticket T tid = .ok t → plan t = none

theorem ticket_apply {t : Ticket} {fw : FieldWrite} {at_ : Time} {hs : List History}
    (ht : m.ticket T tid = .ok t)
    (hm' : m' = { m with tickets := m.tickets.put (fw.apply at_ t), history := m.history ++ hs }) :
    m'.ticket T tid = .ok (fw.apply at_ t) := by
  obtain ⟨-, hten, hid⟩ := ticket_ok ht
  refine ticket_eq_ok ?_ (by rw [apply_tenantID, hten]) (by rw [apply_id, hid])
  rw [hm']
  exact Table.mem_put.mpr (.inl rfl)

theorem Rewritten.met (h : Rewritten T tid plan m m') (hm : Met T tid plan' m)
    (hkeep : ∀ t fw at_, plan t = some fw → plan' t = none → plan' (FieldWrite.apply at_ t fw) = none) :
    Met T tid plan' m' := by
  rcases h with ⟨rfl, -⟩ | ⟨t, fw, at_, hs, ht, hfw, hm', -⟩
  · exact hm
  · intro t' ht'
    rw [ticket_apply ht hm'] at ht'
    rw [← Except.ok.inj ht']
    exact hkeep t fw at_ hfw (hm t ht)

theorem settles_rewritten (hdone : ∀ t fw at_, plan t = some fw → plan (FieldWrite.apply at_ t fw) = none) :
    Settles (Met T tid plan) (Rewritten T tid plan) where
  settled := by
    rintro m m' (⟨rfl, hnone⟩ | ⟨t, fw, at_, hs, ht, hfw, hm', -⟩)
    · exact hnone
    · intro t' ht'
      rw [ticket_apply ht hm'] at ht'
      rw [← Except.ok.inj ht']
      exact hdone t fw at_ hfw
  same := by
    rintro m m' (⟨rfl, -⟩ | ⟨t, fw, at_, hs, ht, hfw, -⟩) hmet
    · rfl
    · rw [hmet t ht] at hfw
      cases hfw

theorem Rewritten.tagsSettled [GoLibrary] {refs : List TagRef} (h : Rewritten T tid plan m m')
    (hm : TagsSettled T tid refs m) : TagsSettled T tid refs m' := by
  rcases h with ⟨rfl, -⟩ | ⟨t, fw, at_, hs, ht, -, rfl, -⟩
  · exact hm
  · exact ⟨hm.1, fun _ _ => hm.2 t ht⟩

end Field

section Changes

variable (d : Deps) (dir : GoString → GoString → Except DirectoryErr User) (T : GoString)

def called (on : Bool) (op : FieldChange) (t : Ticket) : Option FieldWrite :=
  if on = true ∧ T ≠ [] then op.asked d dir T t else none

def assigning (dec : Decision) : Ticket → Option FieldWrite :=
  called d dir T (Decidable.decide (dec.assigneeID ≠ [])) (.assignAs dec.assigneeID .rule)

def settingStatus (dec : Decision) : Ticket → Option FieldWrite :=
  called d dir T (Decidable.decide (dec.status ≠ .unset)) (.setStatusAs dec.status .rule)

def settingPriority (dec : Decision) : Ticket → Option FieldWrite :=
  called d dir T (Decidable.decide (dec.priority ≠ .unset)) (.setPriorityAs dec.priority .rule)

variable {d dir T}

theorem called_eq_some {on : Bool} {op : FieldChange} {t : Ticket} {fw : FieldWrite}
    (h : called d dir T on op t = some fw) :
    op.asked d dir T t = some fw := by
  unfold called at h
  split_ifs at h
  exact h

theorem called_eq_none {on : Bool} {op : FieldChange} {t : Ticket} (h : op.asked d dir T t = none) :
    called d dir T on op t = none := by
  unfold called
  split_ifs
  · exact h
  · rfl

theorem assigning_apply {dec : Decision} {t : Ticket} {fw : FieldWrite}
    (h : assigning d dir T dec t = some fw) (at_ : Time) :
    assigning d dir T dec (fw.apply at_ t) = none := by
  have hasked := called_eq_some h
  simp only [FieldChange.asked, Option.bind_eq_some_iff] at hasked
  obtain ⟨u, hu, hfw⟩ := hasked
  split_ifs at hfw
  obtain rfl := Option.some.inj hfw
  apply called_eq_none
  simp only [FieldChange.asked, hu, Option.bind_some, FieldWrite.apply, Ticket.withAssignee]
  by_cases hid : dec.assigneeID = [] <;> simp [hid]

theorem settingStatus_apply {dec : Decision} {t : Ticket} {fw : FieldWrite}
    (h : settingStatus d dir T dec t = some fw) (at_ : Time) :
    settingStatus d dir T dec (fw.apply at_ t) = none ∧ (fw.apply at_ t).assigneeID = t.assigneeID ∧
      (fw.apply at_ t).assigneeName = t.assigneeName := by
  have hasked := called_eq_some h
  simp only [FieldChange.asked] at hasked
  split_ifs at hasked
  obtain rfl := Option.some.inj hasked
  refine ⟨called_eq_none ?_, rfl, rfl⟩
  simp [FieldChange.asked, FieldWrite.apply, Ticket.withStatus]

theorem settingPriority_apply {dec : Decision} {t : Ticket} {fw : FieldWrite}
    (h : settingPriority d dir T dec t = some fw) (at_ : Time) : settingPriority d dir T dec
    (fw.apply at_ t) = none ∧ (fw.apply at_ t).assigneeID = t.assigneeID ∧
      (fw.apply at_ t).assigneeName = t.assigneeName ∧ (fw.apply at_ t).status = t.status := by
  have hasked := called_eq_some h
  simp only [FieldChange.asked] at hasked
  split_ifs at hasked
  obtain rfl := Option.some.inj hasked
  refine ⟨called_eq_none ?_, rfl, rfl, rfl⟩
  simp [FieldChange.asked, FieldWrite.apply, Ticket.withPatch]

theorem assigning_congr {dec : Decision} {t t' : Ticket} (hid : t'.assigneeID = t.assigneeID)
    (hname : t'.assigneeName = t.assigneeName) : assigning d dir T dec t' = assigning d dir T dec t := by
  simp only [assigning, called, FieldChange.asked, hid, hname]

theorem settingStatus_congr {dec : Decision} {t t' : Ticket} (hs : t'.status = t.status) :
    settingStatus d dir T dec t' = settingStatus d dir T dec t := by
  simp only [settingStatus, called, FieldChange.asked, hs]

variable (d dir T)

def FieldsChanged (tid : GoString) (dec : Decision) : Mem → Mem → Prop :=
  Relation.Comp (Relation.Comp (Rewritten T tid (assigning d dir T dec))
    (Rewritten T tid (settingStatus d dir T dec)))
    (Rewritten T tid (settingPriority d dir T dec))

def Applied [GoLibrary] (tid : GoString) (dec : Decision) : Mem → Mem → Prop :=
  Relation.Comp (Tagged T tid dec.tags) (FieldsChanged d dir T tid dec)

variable {d dir T}

theorem settles_fieldsChanged (tid : GoString) (dec : Decision) :
    Settles (fun m => (Met T tid (assigning d dir T dec) m ∧ Met T tid (settingStatus d dir T dec) m) ∧
      Met T tid (settingPriority d dir T dec) m) (FieldsChanged d dir T tid dec) := by
  refine Settles.comp (Settles.comp ?_ ?_ ?_) ?_ ?_
  · exact settles_rewritten fun t fw at_ h => assigning_apply h at_
  · exact settles_rewritten fun t fw at_ h => (settingStatus_apply h at_).1
  · intro m m' h hassign
    refine h.met hassign fun t fw at_ hfw hold => ?_
    obtain ⟨-, hid, hname⟩ := settingStatus_apply hfw at_
    rw [assigning_congr hid hname, hold]
  · exact settles_rewritten fun t fw at_ h => (settingPriority_apply h at_).1
  · rintro m m' h ⟨hassign, hstatus⟩
    refine ⟨h.met hassign fun t fw at_ hfw hold => ?_, h.met hstatus fun t fw at_ hfw hold => ?_⟩
    · obtain ⟨-, hid, hname, -⟩ := settingPriority_apply hfw at_
      rw [assigning_congr hid hname, hold]
    · obtain ⟨-, -, -, hs⟩ := settingPriority_apply hfw at_
      rw [settingStatus_congr hs, hold]

theorem settles_tagged [GoLibrary] (tid : GoString) (refs : List TagRef) :
    Settles (TagsSettled T tid refs) (Tagged T tid refs) where
  settled h := h.settled
  same h := h.same

theorem Applied.again [GoLibrary] {tid : GoString} {dec : Decision} {m m' m'' : Mem}
    (h : Applied d dir T tid dec m m') (h' : Applied d dir T tid dec m' m'') : m'' = m' := by
  refine Settles.again (Settles.comp (settles_tagged tid dec.tags) (settles_fieldsChanged tid dec) ?_) h h'
  rintro m m' ⟨m₂, ⟨m₁, hassigned, hstatus⟩, hpriority⟩ hm
  exact hpriority.tagsSettled (hstatus.tagsSettled (hassigned.tagsSettled hm))

end Changes

section Frame

variable {T tid : GoString} {m m' : Mem}

/-- Only the named ticket of the tenant has another row, more links or more history; the vocabulary
may have more tags of the tenant. -/
structure Reworked (T tid : GoString) (m m' : Mem) : Prop where
  rest : m' = { m with tickets := m'.tickets, history := m'.history, tags := m'.tags, links := m'.links }
  tickets : ∀ t, t.id ≠ tid ∨ t.tenantID ≠ T → (t ∈ m'.tickets.rows ↔ t ∈ m.tickets.rows)
  ids : ∀ id, (m'.tickets.get? id).isSome = (m.tickets.get? id).isSome
  links : ∃ new, m'.links = m.links ++ new ∧ ∀ x ∈ new, x.1 = tid
  history : ∃ new, m'.history = m.history ++ new ∧ ∀ h ∈ new, h.ticketID = tid
  tags : Grown T m.tags m'.tags

theorem Reworked.refl (m : Mem) : Reworked T tid m m where
  rest := rfl
  tickets _ _ := Iff.rfl
  ids _ := rfl
  links := ⟨[], (List.append_nil _).symm, fun _ h => absurd h List.not_mem_nil⟩
  history := ⟨[], (List.append_nil _).symm, fun _ h => absurd h List.not_mem_nil⟩
  tags := .refl

theorem Reworked.trans {m'' : Mem} (h : Reworked T tid m m') (h' : Reworked T tid m' m'') :
    Reworked T tid m m'' where
  rest := by
    rw [h'.rest, h.rest]
  tickets t ht := (h'.tickets t ht).trans (h.tickets t ht)
  ids id := (h'.ids id).trans (h.ids id)
  links := by
    obtain ⟨new, heq, hnew⟩ := h.links
    obtain ⟨new', heq', hnew'⟩ := h'.links
    exact ⟨new ++ new', by rw [heq', heq, List.append_assoc], List.forall_mem_append.mpr ⟨hnew, hnew'⟩⟩
  history := by
    obtain ⟨new, heq, hnew⟩ := h.history
    obtain ⟨new', heq', hnew'⟩ := h'.history
    exact ⟨new ++ new', by rw [heq', heq, List.append_assoc], List.forall_mem_append.mpr ⟨hnew, hnew'⟩⟩
  tags := h.tags.trans h'.tags

theorem addLinks_eq_append (ids : List GoString) (links : List (GoString × GoString)) :
    ∃ new, Mem.addLinks tid ids links = links ++ new ∧ ∀ x ∈ new, x.1 = tid := by
  induction ids generalizing links with
  | nil => exact ⟨[], (List.append_nil _).symm, fun _ h => absurd h List.not_mem_nil⟩
  | cons id ids ih =>
    have hstep : Mem.addLinks tid (id :: ids) links =
        Mem.addLinks tid ids (if (tid, id) ∈ links then links else links ++ [(tid, id)]) := rfl
    rw [hstep]
    split_ifs
    · exact ih links
    · obtain ⟨new, heq, hnew⟩ := ih (links ++ [(tid, id)])
      refine ⟨(tid, id) :: new, by rw [heq, List.append_assoc]; rfl, ?_⟩
      exact List.forall_mem_cons.mpr ⟨rfl, hnew⟩

theorem Tagged.reworked [GoLibrary] {refs : List TagRef} (h : Tagged T tid refs m m') :
    Reworked T tid m m' := by
  obtain ⟨heq, hgrown, -, -, hlinked, hunlinked⟩ := h
  have htickets : m'.tickets = m.tickets := by rw [heq]
  have hhistory : m'.history = m.history := by rw [heq]
  have hsame := @Reworked.refl T tid m
  refine ⟨by rw [heq], fun _ _ => by rw [htickets], fun _ => by rw [htickets], ?_, ?_, hgrown⟩
  · by_cases hex : ∃ t, m.ticket T tid = .ok t
    · rw [hlinked hex]
      exact addLinks_eq_append _ _
    · rw [hunlinked fun t ht => hex ⟨t, ht⟩]
      exact hsame.links
  · rw [hhistory]
    exact hsame.history

theorem Rewritten.reworked {plan : Ticket → Option FieldWrite} (h : Rewritten T tid plan m m') :
    Reworked T tid m m' := by
  rcases h with ⟨rfl, -⟩ | ⟨t, fw, at_, hs, ht, -, rfl, hhs⟩
  · exact .refl _
  · obtain ⟨hmem, hten, hid⟩ := ticket_ok ht
    have hsame := @Reworked.refl T tid m
    refine ⟨rfl, fun x hx => ?_, fun id => ?_, hsame.links, ⟨hs, rfl, hhs⟩, .refl⟩
    · have hne : x ≠ fw.apply at_ t := by
        rintro rfl
        rw [apply_id, apply_tenantID] at hx
        exact hx.elim (absurd hid) (absurd hten)
      have hne' : x ≠ t := by
        rintro rfl
        exact hx.elim (absurd hid) (absurd hten)
      rw [Table.mem_put, or_iff_right hne, and_iff_left_iff_imp]
      intro hx' hkey
      rw [apply_id] at hkey
      exact hne' (m.tickets.eq_of_key hx' hmem hkey)
    · rw [Table.get?_put]
      split_ifs with hkey
      · rw [hkey, apply_id, Table.get?_eq_some.mpr ⟨hmem, rfl⟩]
        rfl
      · rfl

theorem Applied.reworked [GoLibrary] {d : Deps}
    {dir : GoString → GoString → Except DirectoryErr User} {dec : Decision}
    (h : Applied d dir T tid dec m m') : Reworked T tid m m' := by
  obtain ⟨m₁, htagged, m₃, ⟨m₂, hassigned, hstatus⟩, hpriority⟩ := h
  exact ((htagged.reworked.trans hassigned.reworked).trans hstatus.reworked).trans hpriority.reworked

theorem Rewritten.vocabulary {plan : Ticket → Option FieldWrite} (h : Rewritten T tid plan m m') :
    m'.tags = m.tags ∧ m'.links = m.links := by
  rcases h with ⟨rfl, -⟩ | ⟨t, fw, at_, hs, -, -, rfl, -⟩
  · exact ⟨rfl, rfl⟩
  · exact ⟨rfl, rfl⟩

theorem Applied.links [GoLibrary] {d : Deps} {dir : GoString → GoString → Except DirectoryErr User}
    {dec : Decision} (h : Applied d dir T tid dec m m')
    (hthere : dec.tags = [] ∨ ∃ t, m.ticket T tid = .ok t) (x : GoString × GoString) :
    x ∈ m'.links ↔ x ∈ m.links ∨ x.1 = tid ∧ ∃ ref ∈ dec.tags, ∃ t, named T m'.tags ref = some t ∧
    t.id = x.2 := by
  obtain ⟨m₁, htagged, m₃, ⟨m₂, hassigned, hstatus⟩, hpriority⟩ := h
  have htags : m'.tags = m₁.tags :=
    hpriority.vocabulary.1.trans (hstatus.vocabulary.1.trans hassigned.vocabulary.1)
  have hlinks : m'.links = m₁.links :=
    hpriority.vocabulary.2.trans (hstatus.vocabulary.2.trans hassigned.vocabulary.2)
  obtain ⟨-, -, -, -, hlinked, hunlinked⟩ := htagged
  have hadded : m₁.links = Mem.addLinks tid (namedIDs T dec.tags m₁.tags) m.links := by
    by_cases hex : ∃ t, m.ticket T tid = .ok t
    · exact hlinked hex
    · have hnone : dec.tags = [] := hthere.resolve_right hex
      rw [hunlinked fun t ht => hex ⟨t, ht⟩, hnone]
      rfl
  rw [hlinks, hadded, mem_addLinks, htags, mem_namedIDs]

end Frame

section Run

variable [GoLibrary] {d : Deps} {dir : GoString → GoString → Except DirectoryErr User}
  {subj : Subjects} {tid : GoString}
  {w : World}

omit [GoLibrary] in
theorem rewritten_of_ending {asks : Ticket → Option FieldWrite} {T : GoString} {Stamp : Time → Prop}
    {r : Except Err View} {w' : World} (h : Ending ⟨fun _ => false, dir⟩ asks T tid Stamp w r w') :
    Rewritten T tid asks w.mem w'.mem := by
  cases h with
  | untouched hno hmem =>
    refine .inl ⟨hmem, fun t ht => ?_⟩
    obtain ⟨hrow, hten, hid⟩ := ticket_ok ht
    cases hasks : asks t with
    | none => rfl
    | some fw => exact absurd ⟨hrow, hten, hid, hasks, rfl, rfl⟩ (hno t fw)
  | unrecorded _ _ _ hf => cases hf
  | @recorded before fw τ x _ _ hwrite _ _ _ _ hid _ _ _ hmem =>
    refine .inr ⟨before, fw, τ, [x], ticket_eq_ok hwrite.stored hwrite.tenant hwrite.named,
      hwrite.asked, hmem, ?_⟩
    intro h hh
    rw [List.mem_singleton.mp hh, hid]
  | @unchanged before fw τ _ _ hwrite _ _ _ hmem =>
    refine .inr ⟨before, fw, τ, [], ticket_eq_ok hwrite.stored hwrite.tenant hwrite.named,
      hwrite.asked, ?_, ?_⟩
    · rw [hmem, List.append_nil]
    · exact fun _ h => absurd h List.not_mem_nil

theorem ensures_attempt (op : FieldChange) :
    EnsuresWhen step (Steady dir) (op.attempt d subj tid).run
      (fun _ w' => Rewritten subj.tenantID tid (called d dir subj.tenantID true op) w.mem w'.mem) w := by
  by_cases hten : subj.tenantID = []
  · -- without a tenant every request is refused before its first call
    have hrefused : ∀ {f : GoString → Attempt View}, EnsuresWhen step (Steady dir)
        (ofExcept (tenantOf subj) >>= f).run
        (fun _ w' => Rewritten subj.tenantID tid (called d dir subj.tenantID true op) w.mem w'.mem) w := by
      intro f
      rw [tenantOf, if_pos hten]
      refine .inl ⟨rfl, fun t _ => ?_⟩
      rw [called, if_neg fun h => h.2 hten]
    cases op <;> exact hrefused
  · have hcalled : called d dir subj.tenantID true op = fun t => op.asked d dir subj.tenantID t := by
      funext t
      rw [called, if_pos ⟨rfl, hten⟩]
    have hend := @ending_attempt _ ⟨fun _ => false, dir⟩ _ (fun c hc => hc) w d subj hten tid op
    rw [hcalled]
    refine (hend.mono fun r w' h => rewritten_of_ending h).restrict fun c e s hc => ?_
    exact hc.1

theorem ensures_change {unset : Prop} [Decidable unset] (name : GoString) (op : FieldChange) :
    EnsuresWhen step (Steady dir) (if unset then pure [] else attempted name (op.attempt d subj tid))
      (fun _ w' => Rewritten subj.tenantID tid
        (called d dir subj.tenantID (Decidable.decide (¬ unset)) op) w.mem w'.mem) w := by
  split_ifs with hunset
  · refine .inl ⟨rfl, fun t _ => ?_⟩
    rw [called, if_neg fun h => absurd hunset (of_decide_eq_true h.1)]
  · rw [decide_eq_true hunset]
    refine EnsuresWhen.bind ((ensures_attempt op).mono ?_)
    rintro (e | v) w' h
    exacts [h, h]

theorem ensures_apply (dec : Decision) :
    EnsuresWhen step (Steady dir) (apply d subj tid dec).run (fun r w' =>
      Applied d dir subj.tenantID tid dec w.mem w'.mem ∧
      (r = .ok () → dec.tags = [] ∨ ∃ t, w.mem.ticket subj.tenantID tid = .ok t)) w := by
  refine EnsuresWhen.lift ((ensures_applyTags subj tid dec.tags).mono ?_)
  rintro tagErrs w₁ ⟨htagged, hthere⟩
  refine EnsuresWhen.lift ((ensures_change "assign" (.assignAs dec.assigneeID .rule)).mono
    fun assignErrs w₂ h₂ => ?_)
  refine EnsuresWhen.lift ((ensures_change "status" (.setStatusAs dec.status .rule)).mono
    fun statusErrs w₃ h₃ => ?_)
  refine EnsuresWhen.lift ((ensures_change "priority" (.setPriorityAs dec.priority .rule)).mono
    fun priorityErrs w₄ h₄ => ?_)
  have happlied : Applied d dir subj.tenantID tid dec w.mem w₄.mem :=
    ⟨w₁.mem, htagged, w₃.mem, ⟨w₂.mem, h₂, h₃⟩, h₄⟩
  dsimp only
  split_ifs with herrs
  · refine ⟨happlied, fun _ => hthere ?_⟩
    simp only [List.append_eq_nil_iff] at herrs
    exact herrs.1.1.1
  · refine ⟨happlied, fun h => ?_⟩
    cases h

/-- A decision applied a second time leaves the rows as they are. The first time it changes only the
ticket with its links and history and adds tags of the tenant; if it succeeds, the links are the old
ones and those to the tags it names. -/
theorem applied_decision_settles (d : Deps) (dir : GoString → GoString → Except DirectoryErr User)
    (subj : Subjects) (tid : GoString) (dec : Decision) (w : World) (cs cs' : ℕ → Choice)
    (hcs : Meets step (Steady dir) (apply d subj tid dec).run w cs)
    (hcs' : Meets step (Steady dir) (apply d subj tid dec).run
      (run step (apply d subj tid dec).run w cs).state cs') :
    (run step (apply d subj tid dec).run (run step (apply d subj tid dec).run w cs).state cs').state.mem =
        (run step (apply d subj tid dec).run w cs).state.mem ∧
      Reworked subj.tenantID tid w.mem (run step (apply d subj tid dec).run w cs).state.mem ∧
      ((run step (apply d subj tid dec).run w cs).value = .ok () →
        ∀ x, x ∈ (run step (apply d subj tid dec).run w cs).state.mem.links ↔ x ∈ w.mem.links ∨ x.1 = tid ∧
          ∃ ref ∈ dec.tags, ∃ t, named subj.tenantID
            (run step (apply d subj tid dec).run w cs).state.mem.tags ref = some t ∧
            t.id = x.2) := by
  obtain ⟨hfirst, hthere⟩ := (ensures_apply dec).run cs hcs
  obtain ⟨hsecond, -⟩ := (ensures_apply dec).run cs' hcs'
  exact ⟨hfirst.again hsecond, hfirst.reworked, fun hok => hfirst.links (hthere hok)⟩

end Run

def triaging : Subjects := ⟨[0x74], [0x75], [], .agent⟩

def untagged : World :=
  { mem := { tickets := Table.empty.put { id := [1], tenantID := [0x74], status := .open } } }

def resolving : Decision := { tags := [⟨.tag, [0x61]⟩], status := .resolved }

def fixedID (id : GoString) : ℕ → Choice := fun _ => { newID := id }

def emptyDirectory : GoString → GoString → Except DirectoryErr User := fun _ _ => .error .unknownUser

def resolvedOnce : World :=
  letI := asciiLibrary
  (run step (apply {} triaging [1] resolving).run untagged (fixedID [2])).state

theorem steady_fixedID [GoLibrary] {α : Type} (p : Act α) (w : World) (id : GoString)
    (h : Meets step NewTag p w (fixedID id)) :
    Meets step (Steady emptyDirectory) p w (fixedID id) :=
  (meets_of_forall p w fun _ _ _ => ⟨rfl, rfl⟩).and h

theorem resolving_settles :
    letI := asciiLibrary
    resolvedOnce.mem.links = [([1], [2])] ∧
    (run step (apply {} triaging [1] resolving).run resolvedOnce (fixedID [3])).state.mem =
    resolvedOnce.mem := by
  have hfirst : letI := asciiLibrary
      Meets step NewTag (apply {} triaging [1] resolving).run untagged (fixedID [2]) := by decide +kernel
  have hsecond : letI := asciiLibrary
      Meets step NewTag (apply {} triaging [1] resolving).run resolvedOnce (fixedID [3]) := by
        decide +kernel
  have hlinks : resolvedOnce.mem.links = [([1], [2])] := by decide +kernel
  unfold resolvedOnce at hsecond hlinks ⊢
  have hsettled := @applied_decision_settles asciiLibrary {} emptyDirectory triaging
    [1] resolving untagged (fixedID [2])
    (fixedID [3]) (@steady_fixedID asciiLibrary _ _ _ _ hfirst)
    (@steady_fixedID asciiLibrary _ _ _ _ hsecond)
  exact ⟨hlinks, hsettled.1⟩

end TangraTicket.Services.Rules
