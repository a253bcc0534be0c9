import TangraTicket.Library.SliceSort
import TangraTicket.Services.Imports
import TangraTicket.Services.References
import TangraTicket.Services.Slices

/-!
An import stays inside its target: the rows and the objects of every other tenant are as they were.
-/

namespace TangraTicket.Store.Mem

open GoText KeyedTable Services

def rowsOf (T : GoString) (m : Mem) : Mem :=
  { m.own T with mailboxes := m.mailboxes.keep fun mb => mb.tenantID = T }

section Outside

variable {p : GoString → Bool} {T : GoString} {m : Mem}

theorem deleteTicket_outside (hm : Referential m) (hp : p T = false) (id : GoString) :
    (m.deleteTicket T id).2.slice p = m.slice p := by
  unfold deleteTicket
  cases ht : m.ticket T id with
  | error e => rfl
  | ok t =>
    obtain ⟨hmem, hten, rfl⟩ := ticket_ok ht
    -- what hangs on the ticket is of its tenant
    have hin : ∀ {T' : GoString}, HasTicket T' m t.id → p T' = false := by
      rintro T' ⟨x, hx, hid, rfl⟩
      rw [m.tickets.eq_of_key hx hmem hid, hten]
      exact hp
    have hrow : ∀ {T' i : GoString}, HasTicket T' m i → p T' = true → decide (i ≠ t.id) = true := by
      intro T' i hticket hT'
      refine decide_eq_true fun hi => ?_
      rw [hin (hi ▸ hticket)] at hT'
      cases hT'
    have howner : ∀ i, i ≠ t.id →
        ownerOf { m with tickets := m.tickets.keep fun x => x.id ≠ t.id } i = m.ownerOf i := by
      intro i hi
      rw [ownerOf, Table.get?_keep_of (fun x _ hx => decide_eq_true (hx ▸ hi))]
      rfl
    refine ext_rows ?_ ?_ ?_ rfl ?_ rfl rfl ?_
    · exact congrArg Table.rows (Table.keep_keep_of fun x hx hpx => hrow ⟨x, hx, rfl, rfl⟩ hpx)
    · exact congrArg Table.rows (Table.keep_keep_of fun c hc hpc => hrow (hm.comments c hc) hpc)
    · exact congrArg Table.rows (Table.keep_keep_of fun a ha hpa => hrow (hm.attachments a ha) hpa)
    · change (m.links.filter fun l => l.1 ≠ t.id).filter (fun l => p (ownerOf
        { m with tickets := m.tickets.keep fun x => x.id ≠ t.id } l.1)) = m.links.filter fun l =>
          p (m.ownerOf l.1)
      rw [List.filter_congr (q := fun l => p (m.ownerOf l.1))
        (fun l hl => by rw [howner l.1 (of_decide_eq_true (List.mem_filter.mp hl).2)])]
      refine Table.filter_filter_of fun l _ hpl => decide_eq_true fun hid => ?_
      rw [hid, ownerOf_eq hmem rfl, hten, hp] at hpl
      cases hpl
    · exact Table.filter_filter_of fun x hx hpx => hrow (hm.history x hx) hpx

theorem updateTag_outside [GoLibrary] (hp : p T = false) {t : Tag} (ht : t.tenantID = T) :
    (m.updateTag t).2.slice p = m.slice p := by
  unfold updateTag
  cases hcur : m.tag t.tenantID t.id with
  | error e => rfl
  | ok cur =>
    obtain ⟨hmem, hten, hid⟩ := tag_ok hcur
    dsimp only
    split_ifs
    · rfl
    · simp only [slice, Table.keep_put_other (p := fun t : Tag => p t.tenantID)
        (r := { t with kind := cur.kind, createdAt := cur.createdAt }) (misses_of_tenant hp ht)
        fun x hx hxid => by
          rw [m.tags.eq_of_key hx hmem (hxid.trans hid.symm), hten, ht, hp]]
      rfl

theorem deleteTag_outside (hm : Referential m) (hp : p T = false) (id : GoString) :
    (m.deleteTag T id).2.slice p = m.slice p := by
  unfold deleteTag
  cases ht : m.tag T id with
  | error e => rfl
  | ok t =>
    obtain ⟨hmem, hten, rfl⟩ := tag_ok ht
    refine ext_rows rfl rfl rfl ?_ ?_ rfl rfl rfl
    · refine congrArg Table.rows (Table.keep_keep_of fun x hx hpx => decide_eq_true fun hid => ?_)
      rw [m.tags.eq_of_key hx hmem hid, hten, hp] at hpx
      cases hpx
    · refine Table.filter_filter_of fun l hl hpl => decide_eq_true fun hid => ?_
      obtain ⟨T', ⟨x, hx, hxid, rfl⟩, g, hg, hgid, hgten⟩ := hm.links l hl
      have hgt := m.tags.eq_of_key hg hmem (hgid.trans hid)
      change p (m.ownerOf l.1) = true at hpl
      rw [ownerOf_eq hx hxid, ← hgten, hgt, hten, hp] at hpl
      cases hpl

theorem outside_putRule {r : Rule} (hpr : p r.tenantID = false)
    (hkey : ∀ x ∈ m.rules.rows, x.id = r.id → p x.tenantID = false) :
    slice p { m with rules := m.rules.put r } = m.slice p := by
  simp only [slice, Table.keep_put_other (p := fun r : Rule => p r.tenantID) hpr hkey]
  rfl

theorem createRule_outside (now : Time) (hp : p T = false) {r : Rule} (hr : r.tenantID = T) :
    (m.createRule now r).2.slice p = m.slice p := by
  unfold createRule
  split
  · rfl
  · rename_i hold
    have hnone : m.rules.get? r.id = none := by simpa using hold
    exact outside_putRule (misses_of_tenant hp hr) fun x hx hid =>
      absurd hid (Table.get?_eq_none.mp hnone x hx)

theorem updateRule_outside (now : Time) (hp : p T = false) {r : Rule} (hr : r.tenantID = T) :
    (m.updateRule now r).2.slice p = m.slice p := by
  unfold updateRule
  cases hcur : m.rule r.tenantID r.id with
  | error e => rfl
  | ok cur =>
    obtain ⟨hmem, hten, hid⟩ := rule_ok hcur
    refine outside_putRule (misses_of_tenant hp hr) fun x hx hxid => ?_
    rw [m.rules.eq_of_key hx hmem (hxid.trans hid.symm), hten, hr, hp]

theorem deleteRule_outside (hp : p T = false) (id : GoString) :
    (m.deleteRule T id).2.slice p = m.slice p := by
  unfold deleteRule
  cases hr : m.rule T id with
  | error e => rfl
  | ok r =>
    obtain ⟨hmem, hten, rfl⟩ := rule_ok hr
    refine ext_rows rfl rfl rfl rfl rfl ?_ rfl rfl
    refine congrArg Table.rows (Table.keep_keep_of fun x hx hpx => decide_eq_true fun hid => ?_)
    rw [m.rules.eq_of_key hx hmem hid, hten, hp] at hpx
    cases hpx

end Outside

section RowsOf

variable {T T' : GoString} (hT : T' ≠ T) {m m' : Mem}

theorem rowsOf_of_slice (h : m'.own T = m.own T) : m'.rowsOf T = m.rowsOf T := by
  have hmb : (m'.own T).mailboxes = (m.own T).mailboxes := congrArg Mem.mailboxes h
  change m'.mailboxes = m.mailboxes at hmb
  rw [rowsOf, rowsOf, h, hmb]

theorem rowsOf_of_mailboxes (h : m'.own T = { m.own T with mailboxes := m'.mailboxes })
    (hmb : (m'.mailboxes.keep fun mb => mb.tenantID = T) = m.mailboxes.keep fun mb => mb.tenantID = T) :
    m'.rowsOf T = m.rowsOf T := by
  rw [rowsOf, rowsOf, h, hmb]

include hT

variable [GoLibrary] (now : Time)

omit [GoLibrary] in
theorem rowsOf_putMailbox {mb : Mailbox} (hmb : mb.tenantID = T')
    (hkey : ∀ x ∈ m.mailboxes.rows, x.id = mb.id → x.tenantID = T') :
    rowsOf T { m with mailboxes := m.mailboxes.put mb } = m.rowsOf T := by
  refine rowsOf_of_mailboxes rfl (Table.keep_put_other ?_ fun x hx hid => ?_)
  · exact decide_eq_false fun h => hT (hmb.symm.trans h)
  · exact decide_eq_false fun h => hT ((hkey x hx hid).symm.trans h)

theorem createMailbox_rowsOf {mb : Mailbox} (hmb : mb.tenantID = T') :
    (m.createMailbox now mb).2.rowsOf T = m.rowsOf T := by
  unfold createMailbox
  split_ifs with hold
  · rfl
  · have hnone : m.mailboxes.get? mb.id = none := by simpa using fun hs => hold (.inl hs)
    exact rowsOf_putMailbox hT hmb fun x hx hid => absurd hid (Table.get?_eq_none.mp hnone x hx)

theorem updateMailbox_rowsOf {mb : Mailbox} (hmb : mb.tenantID = T') :
    (m.updateMailbox now mb).2.rowsOf T = m.rowsOf T := by
  unfold updateMailbox
  cases hcur : m.mailbox mb.tenantID mb.id with
  | error e => rfl
  | ok cur =>
    obtain ⟨hmem, hten, hid⟩ := mailbox_ok hcur
    dsimp only
    split_ifs
    · rfl
    · refine rowsOf_putMailbox hT hmb fun x hx hxid => ?_
      rw [m.mailboxes.eq_of_key hx hmem (hxid.trans hid.symm), hten, hmb]

omit [GoLibrary] in
theorem deleteMailbox_rowsOf (hm : Referential m) (id : GoString) (force : Bool) :
    (m.deleteMailbox T' id force).2.rowsOf T = m.rowsOf T := by
  unfold deleteMailbox
  cases hmb : m.mailbox T' id with
  | error e => rfl
  | ok mb =>
    obtain ⟨hmem, hten, rfl⟩ := mailbox_ok hmb
    let detach : Ticket → Ticket :=
      fun t => { t with mailboxID := if t.mailboxID = mb.id then [] else t.mailboxID }
    -- a ticket that came in through the mailbox is of its tenant
    have hstays : ∀ t ∈ m.tickets.rows, decide (t.tenantID = T) = true → detach t = t := by
      intro t ht htT
      have hother : t.mailboxID ≠ mb.id ∨ t.mailboxID = [] := by
        by_contra hno
        obtain ⟨hid, hne⟩ := not_or.mp hno
        obtain ⟨x, hx, hxid, hxten⟩ := hm.mailboxes t ht hne
        have hxmb := m.mailboxes.eq_of_key hx hmem (hxid.trans (not_not.mp hid))
        exact hT (((hxmb ▸ hten).symm.trans hxten).trans (of_decide_eq_true htT))
      have hsame : (if t.mailboxID = mb.id then [] else t.mailboxID) = t.mailboxID := by
        rcases hother with hne | hnone
        · rw [if_neg hne]
        · rw [hnone, ite_self]
      simp only [detach, hsame]
    have htickets : ((m.tickets.amend detach fun _ => rfl).keep fun t => decide (t.tenantID = T)) =
        m.tickets.keep fun t => decide (t.tenantID = T) :=
      Table.keep_amend_of (f := detach) (fun _ => rfl) (fun _ => rfl) hstays
    have howner : ∀ i, ownerOf { m with tickets := m.tickets.amend detach fun _ => rfl } i =
        m.ownerOf i := by
      intro i
      simp only [ownerOf, Table.get?_amend, Option.map_map]
      rfl
    dsimp only
    split_ifs
    · rfl
    · refine rowsOf_of_mailboxes (ext_rows (congrArg Table.rows htickets) rfl rfl rfl ?_ rfl rfl rfl)
        (Table.keep_keep_of fun x hx hxT => ?_)
      · exact List.filter_congr fun l _ => congrArg (fun o => decide (o = T)) (howner l.1)
      · refine decide_eq_true fun hid => hT ?_
        rw [← hten, ← m.mailboxes.eq_of_key hx hmem hid]
        exact of_decide_eq_true hxT

theorem rowsOf_performStore {P : Ticket → Prop} {K : GoString → Prop} (id : GoString)
    (hm : Referential m) {q : StoreCall} (hq : Within T' P K (.store q)) :
    (performStore now id m q).2.rowsOf T = m.rowsOf T := by
  have hp : decide (T' = T) = false := decide_eq_false hT
  cases q with
  | createTicket t =>
    cases hold : m.tickets.get? t.id with
    | some x => simp only [performStore, createTicket, hold, Option.isSome_some, if_true]
    | none =>
      refine rowsOf_of_slice (createTicket_outside hp m now hq.1 fun l hl hid => ?_)
      obtain ⟨_, ⟨x, hx, hxid, -⟩, -⟩ := hm.links l (List.mem_filter.mp hl).1
      exact Table.get?_eq_none.mp hold x hx (hxid.trans hid)
  | createComment c => exact rowsOf_of_slice (createComment_outside hp m now hq)
  | createAttachment a => exact rowsOf_of_slice (createAttachment_outside hp m now hq.1)
  | createTag t => exact rowsOf_of_slice (createTag_outside hp m now hq)
  | updateTag t => exact rowsOf_of_slice (updateTag_outside hp hq)
  | createRule r => exact rowsOf_of_slice (createRule_outside now hp hq)
  | updateRule r => exact rowsOf_of_slice (updateRule_outside now hp hq)
  | createMailbox mb => exact createMailbox_rowsOf hT now hq
  | updateMailbox mb => exact updateMailbox_rowsOf hT now hq
  | appendHistory h => exact rowsOf_of_slice (appendHistory_outside hp m now hq)
  | updateTicket ten i patch at_ =>
    obtain rfl := hq
    exact rowsOf_of_slice (modifyTicket_outside hp m i
      (f := fun t => t.withPatch (orNow at_ now) patch) fun _ => ⟨rfl, rfl⟩)
  | setAssignee ten i a n at_ =>
    obtain rfl := hq
    exact rowsOf_of_slice (modifyTicket_outside hp m i
      (f := fun t => t.withAssignee (orNow at_ now) a n) fun _ => ⟨rfl, rfl⟩)
  | setStatus ten i s at_ =>
    obtain rfl := hq
    exact rowsOf_of_slice (modifyTicket_outside hp m i
      (f := fun t => t.withStatus (orNow at_ now) s) fun _ => ⟨rfl, rfl⟩)
  | deleteTicket ten i =>
    obtain rfl := hq
    exact rowsOf_of_slice (deleteTicket_outside hm hp i)
  | deleteTag ten i =>
    obtain rfl := hq
    exact rowsOf_of_slice (deleteTag_outside hm hp i)
  | deleteRule ten i =>
    obtain rfl := hq
    exact rowsOf_of_slice (deleteRule_outside hp i)
  | deleteMailbox ten i force =>
    obtain rfl := hq
    exact deleteMailbox_rowsOf hT hm i force
  | addTicketTags ten tid ids =>
    obtain rfl := hq
    exact rowsOf_of_slice (addTicketTags_outside hp m tid ids)
  | setCommentDelivery | deleteComment | ensureTagByName => exact hq.elim
  | findTicketByExternalID | findCommentByMessageID | getAttachment | routeMailbox =>
    simp only [performStore, Mem.findTicketByExternalID, Mem.findCommentByMessageID, Mem.getAttachment,
      Mem.routeMailbox]
    repeat' split
    all_goals rfl
  | _ => rfl

end RowsOf

end TangraTicket.Store.Mem

namespace TangraTicket.Services.Backup

open GoText Store KeyedTable CallProgram

/-- Every attachment row names an object of its own tenant. -/
def Keyed (m : Mem) : Prop :=
  ∀ a ∈ m.attachments.rows, hasPrefix a.storageKey (tenantPrefix a.tenantID) = true

/-- The stores that calls of the store lead to. -/
inductive Built [GoLibrary] : Mem → Prop
  | empty : Built {}
  | call (now : Time) (id : GoString) {m : Mem} (q : StoreCall) (h : Built m) : Built
      (performStore now id m q).2

theorem Built.referential [GoLibrary] {m : Mem} (h : Built m) : Referential m := by
  induction h with
  | empty => exact referential_empty
  | call now id q _ ih => exact referential_performStore now id ih q

def NamesOwn : (e : Call) → Answer e → Prop
  | .store (.deleteTicket T _), r => ∀ keys : List GoString, r = .ok keys →
      ∀ k ∈ keys, hasPrefix k (tenantPrefix T) = true
  | _, _ => True

section Calls

variable {T : GoString} {P : Ticket → Prop} {K : GoString → Prop} {m : Mem}

theorem namesOwn_deleteTicket (hm : Referential m) (hkeyed : Keyed m) (id : GoString) :
    NamesOwn (.store (.deleteTicket T id)) (m.deleteTicket T id).1 := by
  intro keys hkeys k hk
  unfold Mem.deleteTicket at hkeys
  cases ht : m.ticket T id with
  | error e =>
    rw [ht] at hkeys
    cases hkeys
  | ok t =>
    obtain ⟨hmem, hten, rfl⟩ := ticket_ok ht
    rw [ht] at hkeys
    obtain rfl := Except.ok.inj hkeys
    obtain ⟨a, ha, rfl⟩ := List.mem_map.mp ((perm_sortSlice _ _).mem_iff.mp hk)
    obtain ⟨ha, hid⟩ := List.mem_filter.mp ha
    obtain ⟨x, hx, hxid, hxten⟩ := hm.attachments a ha
    have hxt := m.tickets.eq_of_key hx hmem (hxid.trans (of_decide_eq_true hid))
    rw [← hten, ← hxt, hxten]
    exact hkeyed a ha

variable [GoLibrary] (now : Time) (id : GoString)

omit [GoLibrary] in
theorem namesOwn_failed (q : StoreCall) : NamesOwn (.store q) (.error .failure) := by
  cases q with
  | deleteTicket ten i =>
    intro keys hkeys
    cases hkeys
  | _ => trivial

theorem namesOwn_performStore (hm : Referential m) (hkeyed : Keyed m) (q : StoreCall) :
    NamesOwn (.store q) (performStore now id m q).1 := by
  cases q with
  | deleteTicket ten i => exact namesOwn_deleteTicket hm hkeyed i
  | _ => trivial

theorem keyed_performStore (hkeyed : Keyed m) {q : StoreCall} (hq : Within T P K (.store q)) :
    Keyed (performStore now id m q).2 := by
  cases q with
  | createAttachment a =>
    simp only [performStore, Mem.createAttachment]
    repeat' split
    all_goals try exact hkeyed
    intro x hx
    rcases Table.mem_put.mp hx with rfl | ⟨hx, -⟩
    · exact hq.1 ▸ hq.2
    · exact hkeyed x hx
  | deleteTicket ten i =>
    simp only [performStore, Mem.deleteTicket]
    split
    · exact hkeyed
    · exact fun x hx => hkeyed x (Table.mem_keep.mp hx).1
  | createComment c =>
    obtain ⟨e, he⟩ | ⟨t, -, -, -, -, -, heq⟩ := createComment_cases now m c
    · simp only [performStore, he]
      exact hkeyed
    · simp only [performStore, heq]
      exact hkeyed
  | setCommentDelivery | deleteComment | ensureTagByName => exact hq.elim
  | createTicket | updateTicket | setAssignee | setStatus | appendHistory | findTicketByExternalID
  | findCommentByMessageID | getAttachment | routeMailbox | createTag | updateTag | deleteTag
  | addTicketTags
  | createRule | updateRule | deleteRule | createMailbox | updateMailbox | deleteMailbox =>
    simp only [performStore, Mem.createTicket, Mem.updateTicket, Mem.setAssignee, Mem.setStatus,
      Mem.modifyTicket, Mem.appendHistory, Mem.findTicketByExternalID, Mem.findCommentByMessageID,
      Mem.getAttachment, Mem.routeMailbox, Mem.createTag, Mem.updateTag, Mem.deleteTag,
      Mem.addTicketTags, Mem.createRule, Mem.updateRule, Mem.deleteRule, Mem.createMailbox,
      Mem.updateMailbox, Mem.deleteMailbox]
    repeat' split
    all_goals exact hkeyed
  | _ => exact hkeyed

end Calls

section Step

variable [GoLibrary] {T : GoString} {P : Ticket → Prop} {w₀ w : World}

structure Inside (T : GoString) (w₀ w : World) : Prop where
  refs : Referential w.mem
  keyed : Keyed w.mem
  rows : ∀ T', T' ≠ T → w.mem.rowsOf T' = w₀.mem.rowsOf T'
  objects : ∀ o, hasPrefix o.key (tenantPrefix T) = false → (o ∈ w.objects.rows ↔ o ∈ w₀.objects.rows)

theorem inside_step (h : Inside T w₀ w) (c : Choice) {e : Call}
    (he : Within T P (fun k => hasPrefix k (tenantPrefix T) = true) e) :
    Inside T w₀ (step c e w).2 ∧ NamesOwn e (step c e w).1 := by
  cases e with
  | store q =>
    cases hf : c.fail q.method with
    | true =>
      rw [step_store_failed hf]
      exact ⟨h, namesOwn_failed q⟩
    | false =>
      rw [step_store hf]
      refine ⟨⟨referential_performStore _ _ h.refs q, keyed_performStore _ _ h.keyed he,
        fun T' hT' => ?_, ?_⟩, ?_⟩
      · exact (Mem.rowsOf_performStore (Ne.symm hT') _ _ h.refs he).trans (h.rows T' hT')
      · exact h.objects
      · exact namesOwn_performStore _ _ h.refs h.keyed q
  | deleteObject key =>
    refine ⟨?_, trivial⟩
    simp only [step]
    split
    · exact h
    · refine ⟨h.refs, h.keyed, h.rows, fun o ho => ?_⟩
      rw [← h.objects o ho, Table.mem_keep]
      refine and_iff_left (decide_eq_true fun hkey => ?_)
      rw [hkey, he] at ho
      cases ho
  | newID => exact ⟨h, trivial⟩
  | now => exact ⟨h, trivial⟩
  | _ => exact he.elim

end Step

theorem slash_append_inj {T T' rest rest' : GoString} (hT : (0x2F : UInt8) ∉ T) (hT' : (0x2F : UInt8) ∉ T')
    (h : T ++ 0x2F :: rest = T' ++ 0x2F :: rest') : T = T' := by
  induction T generalizing T' with
  | nil =>
    cases T' with
    | nil => rfl
    | cons x T' =>
      cases h
      exact absurd List.mem_cons_self hT'
  | cons x T ih =>
    cases T' with
    | nil =>
      cases h
      exact absurd List.mem_cons_self hT
    | cons y T' =>
      obtain ⟨rfl, htail⟩ := List.cons.inj h
      rw [ih (fun hm => hT (List.mem_cons_of_mem x hm)) (fun hm => hT' (List.mem_cons_of_mem x hm)) htail]

theorem tenantPrefix_inj {T T' k : GoString} (hT : (0x2F : UInt8) ∉ T) (hT' : (0x2F : UInt8) ∉ T')
    (h : hasPrefix k (tenantPrefix T) = true) (h' : hasPrefix k (tenantPrefix T') = true) : T = T' := by
  obtain ⟨rest, hrest⟩ := List.isPrefixOf_iff_prefix.mp h
  obtain ⟨rest', hrest'⟩ := List.isPrefixOf_iff_prefix.mp h'
  have heq := hrest.trans hrest'.symm
  simp only [tenantPrefix, List.append_assoc, List.append_cancel_left_eq] at heq
  exact slash_append_inj hT hT' heq

/-- Between `w` and `w'` no row and no object of a tenant other than `T` has changed. -/
structure Confined (T : GoString) (w w' : World) : Prop where
  rows : ∀ T', T' ≠ T → w'.mem.rowsOf T' = w.mem.rowsOf T'
  objects : ∀ T', T' ≠ T → (0x2F : UInt8) ∉ T → (0x2F : UInt8) ∉ T' →
    ∀ o, hasPrefix o.key (tenantPrefix T') = true →
    (o ∈ w'.objects.rows ↔ o ∈ w.objects.rows)

theorem Confined.refl (T : GoString) (w : World) : Confined T w w :=
  ⟨fun _ _ => rfl, fun _ _ _ _ _ _ => Iff.rfl⟩

theorem Inside.confined {T : GoString} {w₀ w : World} (h : Inside T w₀ w) : Confined T w₀ w := by
  refine ⟨h.rows, fun T' hne hT hT' o ho => h.objects o ?_⟩
  by_contra hown
  exact hne (tenantPrefix_inj hT' hT ho (Bool.not_eq_false _ ▸ hown))

/-- The authorisation or the validation turns the import down. -/
def Refused (subj : Subjects) (b : Document) (opts : Options) : Prop :=
  (∃ e, target subj opts.tenantID = .error e) ∨ (opts.full = true ∧ subj.isPlatformAdmin = false) ∨
    ∃ e, validate b = .error e

section Import

variable [GoLibrary] (d : Deps) (subj : Subjects) (b : Document) (opts : Options) (w : World)
  (cs : ℕ → Choice)

theorem refused_unchanged (h : Refused subj b opts) :
    (run step (importDocument d subj b opts).run w cs).state = w := by
  unfold importDocument
  rcases htgt : target subj opts.tenantID with e | tgt
  · rfl
  · dsimp only
    split_ifs with hfull
    · rfl
    · rcases hval : validate b with e | _
      · rfl
      · rcases h with ⟨e, he⟩ | h | ⟨e, he⟩
        · rw [htgt] at he
          cases he
        · exact absurd h hfull
        · rw [hval] at he
          cases he

theorem import_inside {tgt : GoString} (htgt : target subj opts.tenantID = .ok tgt)
    (hrefs : Referential w.mem) (hkeyed : Keyed w.mem) :
    Inside tgt w (run step (importDocument d subj b opts).run w cs).state := by
  have hportable : Portable fun _ => True := ⟨fun _ _ _ _ => trivial, fun _ _ _ _ => trivial⟩
  have hissues := within_importDocument (A := NamesOwn)
    (K := fun k => hasPrefix k (tenantPrefix tgt) = true) hportable
    (fun _ keys hkeys => hkeys keys rfl) d (b := b) htgt fun _ _ _ => trivial
  have hstep : ∀ c e s, True →
      Within tgt (fun _ => True) (fun k => hasPrefix k (tenantPrefix tgt) = true) e →
      Inside tgt w s → Inside tgt w (step c e s).2 ∧ NamesOwn e (step c e s).1 :=
        fun c e s _ he hs => inside_step hs c he
  have hens : EnsuresWhen step (fun _ _ _ => True) _ _ w :=
    hissues.ensuresWhen hstep ⟨hrefs, hkeyed, fun _ _ => rfl, fun _ _ => Iff.rfl⟩
  exact (hens.run cs (meets_of_forall _ _ fun _ _ _ => trivial)).2

/-- Whatever the caller, the document and the options, an import touches no tenant but its target. -/
theorem import_confined (hbuilt : Built w.mem) (hkeyed : Keyed w.mem) :
    Keyed (run step (importDocument d subj b opts).run w cs).state.mem ∧
      (∀ tgt, target subj opts.tenantID = .ok tgt →
        Confined tgt w (run step (importDocument d subj b opts).run w cs).state) ∧
      (subj.isPlatformAdmin = false →
        Confined subj.tenantID w (run step (importDocument d subj b opts).run w cs).state) ∧
      (Refused subj b opts → (run step (importDocument d subj b opts).run w cs).state = w) := by
  have hrefs := hbuilt.referential
  refine ⟨?_, fun tgt htgt => (import_inside d subj b opts w cs htgt hrefs hkeyed).confined,
    fun hplain => ?_, refused_unchanged d subj b opts w cs⟩
  · cases htgt : target subj opts.tenantID with
    | error e =>
      rw [refused_unchanged d subj b opts w cs (.inl ⟨e, htgt⟩)]
      exact hkeyed
    | ok tgt => exact (import_inside d subj b opts w cs htgt hrefs hkeyed).keyed
  · cases htgt : target subj opts.tenantID with
    | error e =>
      rw [refused_unchanged d subj b opts w cs (.inl ⟨e, htgt⟩)]
      exact .refl _ _
    | ok tgt =>
      have hown : tgt = subj.tenantID := by
        unfold target at htgt
        split_ifs at htgt with hnone hsame
        exact (Except.ok.inj htgt).symm
      exact hown ▸ (import_inside d subj b opts w cs htgt hrefs hkeyed).confined

end Import

def module : Subjects := ⟨uniformID 0x31, [0x73], [], .system⟩

def oneTag : Document := { tags := [{ id := uniformID 0x61, name := [0x61], kind := .tag }] }

def importedBy (subj : Subjects) (tenantID : GoString) (w : World) : World :=
  letI := asciiLibrary
  (run step (importDocument {} subj oneTag { tenantID := tenantID }).run w fun _ =>
    { newID := uniformID 0x62 }).state

/-- The system scope counts as platform admin: without the role, it imports into a tenant not its own. -/
theorem system_scope_crosses_tenants :
    module.roles = [] ∧ module.tenantID ≠ uniformID 0x32 ∧
      ((importedBy module (uniformID 0x32) {}).mem.rowsOf (uniformID 0x32)).tags.rows ≠
        (Mem.rowsOf (uniformID 0x32) {}).tags.rows := by
  decide +kernel

def administrator : Subjects := ⟨uniformID 0x31, [0x75], [rolePlatformAdmin], .agent⟩

def oneRow : Mem :=
  letI := asciiLibrary
  (performStore 1 [] {} (.createTag { id := [0x67], tenantID := uniformID 0x31, name := [0x61] })).2

theorem import_confined_administrator :
    letI := asciiLibrary
    Built oneRow ∧ Keyed oneRow ∧
      Confined (uniformID 0x32) { mem := oneRow }
        (importedBy administrator (uniformID 0x32) { mem := oneRow }) ∧
      (importedBy administrator (uniformID 0x32) { mem := oneRow }).mem.tags.rows.length = 2 := by
  let := asciiLibrary
  have hbuilt : @Built asciiLibrary oneRow := .call 1 [] _ .empty
  have hkeyed : Keyed oneRow := by
    have hnone : oneRow.attachments.rows = [] := by decide +kernel
    intro a ha
    rw [hnone] at ha
    cases ha
  have htgt : target administrator (uniformID 0x32) = .ok (uniformID 0x32) := by
    have hchecks : administrator.tenantID ≠ [] ∧ uniformID 0x32 ≠ [] ∧ uniformID 0x32 ≠
        administrator.tenantID ∧
        administrator.isPlatformAdmin = true ∧ isUUID (uniformID 0x32) = true := by decide +kernel
    obtain ⟨h₁, h₂, h₃, h₄, h₅⟩ := hchecks
    unfold target
    rw [if_neg h₁, if_neg (not_or.mpr ⟨h₂, h₃⟩), if_neg (by rw [h₄]; exact Bool.noConfusion), if_pos h₅]
  refine ⟨hbuilt, hkeyed, ?_, by decide +kernel⟩
  unfold importedBy
  exact (@import_confined asciiLibrary {} administrator oneTag { tenantID := uniformID 0x32 }
    { mem := oneRow } _
    hbuilt hkeyed).2.1 _ htgt

end TangraTicket.Services.Backup
