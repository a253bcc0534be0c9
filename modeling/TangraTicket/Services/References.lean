import TangraTicket.Services.Integrity

/-!
The references between the rows of the store. Whatever is called, a row on a ticket is in the tenant
of the ticket, a link joins a ticket and a tag of one tenant, and a ticket came in through a mailbox
of its own tenant.
-/

namespace TangraTicket.Services

open GoText Store KeyedTable CallProgram

def HasTicket (T : GoString) (m : Mem) (id : GoString) : Prop :=
  ∃ t ∈ m.tickets.rows, t.id = id ∧ t.tenantID = T

def HasTag (T : GoString) (m : Mem) (id : GoString) : Prop := ∃ t ∈ m.tags.rows, t.id = id ∧ t.tenantID = T

def HasMailbox (T : GoString) (m : Mem) (id : GoString) : Prop :=
  ∃ mb ∈ m.mailboxes.rows, mb.id = id ∧ mb.tenantID = T

instance (T : GoString) (m : Mem) (id : GoString) : Decidable (HasTicket T m id) :=
  inferInstanceAs (Decidable (∃ t ∈ m.tickets.rows, _))

instance (T : GoString) (m : Mem) (id : GoString) : Decidable (HasTag T m id) :=
  inferInstanceAs (Decidable (∃ t ∈ m.tags.rows, _))

structure Referential (m : Mem) : Prop where
  comments : Owned m
  attachments : ∀ a ∈ m.attachments.rows, HasTicket a.tenantID m a.ticketID
  history : ∀ h ∈ m.history, HasTicket h.tenantID m h.ticketID
  links : ∀ l ∈ m.links, ∃ T, HasTicket T m l.1 ∧ HasTag T m l.2
  mailboxes : ∀ t ∈ m.tickets.rows, t.mailboxID ≠ [] → HasMailbox t.tenantID m t.mailboxID

theorem referential_empty : Referential {} where
  comments := owned_empty
  attachments _ ha := absurd ha List.not_mem_nil
  history _ hh := absurd hh List.not_mem_nil
  links _ hl := absurd hl List.not_mem_nil
  mailboxes _ ht := absurd ht List.not_mem_nil

section Tickets

variable {m m' : Mem}

theorem hasTicket_new {t : Ticket} (hnew : m.tickets.get? t.id = none) (T id : GoString) :
    HasTicket T { m with tickets := m.tickets.put t } id ↔ HasTicket T m id ∨ t.id = id ∧
    t.tenantID = T := by
  simp only [HasTicket, Table.put_rows_new hnew, List.mem_append, List.mem_singleton]
  constructor
  · rintro ⟨x, hx | rfl, hxt⟩
    · exact .inl ⟨x, hx, hxt⟩
    · exact .inr hxt
  · rintro (⟨x, hx, hxt⟩ | h)
    · exact ⟨x, .inl hx, hxt⟩
    · exact ⟨t, .inr rfl, h⟩

theorem hasTicket_of_keys (h : m'.tickets.rows.map (fun t => (t.id, t.tenantID)) =
    m.tickets.rows.map fun t => (t.id, t.tenantID)) (T id : GoString) :
    HasTicket T m' id ↔ HasTicket T m id := by
  have hpair : ∀ m : Mem, HasTicket T m id ↔ (id, T) ∈ m.tickets.rows.map fun t => (t.id, t.tenantID) := by
    intro m
    simp [HasTicket]
  rw [hpair, hpair, h]

theorem Referential.rewrite {t t₀ : Ticket} (h : Referential m) (ht : t₀ ∈ m.tickets.rows)
    (hid : t.id = t₀.id) (hten : t.tenantID = t₀.tenantID) (hmb : t.mailboxID = t₀.mailboxID) :
    Referential { m with tickets := m.tickets.put t } := by
  have hkeys : (m.tickets.put t).rows.map (fun t => (t.id, t.tenantID)) =
      m.tickets.rows.map fun t => (t.id, t.tenantID) := Table.map_put_old ht hid _ (by rw [hid, hten])
  have hsame : ∀ T id, HasTicket T { m with tickets := m.tickets.put t } id ↔ HasTicket T m id :=
    hasTicket_of_keys hkeys
  refine ⟨h.comments.of_same rfl hkeys, ?_, ?_, ?_, ?_⟩
  · exact fun a ha => (hsame _ _).mpr (h.attachments a ha)
  · exact fun x hx => (hsame _ _).mpr (h.history x hx)
  · intro l hl
    obtain ⟨T, hticket, htag⟩ := h.links l hl
    exact ⟨T, (hsame _ _).mpr hticket, htag⟩
  · intro x hx hne
    rcases Table.mem_put.mp hx with rfl | ⟨hx, -⟩
    · rw [hmb, hten]
      exact h.mailboxes t₀ ht (hmb ▸ hne)
    · exact h.mailboxes x hx hne

theorem referential_createTicket (now : Time) (h : Referential m) (t : Ticket) :
    Referential (m.createTicket now t).2 := by
  have howned := owned_createTicket now h.comments t
  unfold Mem.createTicket at howned ⊢
  split_ifs at howned ⊢ with hid hext hmb
  · exact h
  · exact h
  · exact h
  · have hnew : m.tickets.get? (Mem.withDefaults now t).id = none := by
      change m.tickets.get? t.id = none
      simpa using hid
    have hgrown : ∀ T id, HasTicket T m id →
        HasTicket T { m with tickets := m.tickets.put (Mem.withDefaults now t) } id :=
      fun T id hold => (hasTicket_new hnew T id).mpr (.inl hold)
    refine ⟨howned, fun a ha => hgrown _ _ (h.attachments a ha), fun x hx =>
      hgrown _ _ (h.history x hx), ?_, ?_⟩
    · intro l hl
      obtain ⟨T, hticket, htag⟩ := h.links l hl
      exact ⟨T, hgrown _ _ hticket, htag⟩
    · intro x hx hne
      rcases Table.mem_put.mp hx with rfl | ⟨hx, -⟩
      · have hany : (m.mailboxes.get? t.mailboxID).any (fun mb => mb.tenantID = t.tenantID) = true := by
          by_contra hno
          exact hmb ⟨hne, hno⟩
        obtain ⟨mb, hmem, hkey, hten⟩ := Table.any_get?.mp hany
        exact ⟨mb, hmem, hkey, of_decide_eq_true hten⟩
      · exact h.mailboxes x hx hne

theorem referential_modifyTicket (h : Referential m) (ten id : GoString) {f : Ticket → Ticket}
    (hf : ∀ t, (f t).id = t.id ∧ (f t).tenantID = t.tenantID ∧ (f t).mailboxID = t.mailboxID) :
    Referential (m.modifyTicket ten id f).2 := by
  obtain ⟨e, he⟩ | ⟨t, ht, -, -, heq⟩ := modifyTicket_cases m ten id f
  · rw [he]
    exact h
  · rw [heq]
    exact h.rewrite ht (hf t).1 (hf t).2.1 (hf t).2.2

theorem referential_deleteTicket (h : Referential m) (ten id : GoString) :
    Referential (m.deleteTicket ten id).2 := by
  have howned := owned_deleteTicket h.comments ten id
  unfold Mem.deleteTicket at howned ⊢
  revert howned
  cases m.ticket ten id with
  | error e => exact fun _ => h
  | ok t =>
    intro howned
    -- a row that stays refers to a ticket that stays
    have hkept : ∀ T i, i ≠ id → HasTicket T m i →
        HasTicket T { m with tickets := m.tickets.keep fun t => t.id ≠ id } i := by
      rintro T i hi ⟨x, hx, rfl, hten⟩
      exact ⟨x, Table.mem_keep.mpr ⟨hx, by simpa using hi⟩, rfl, hten⟩
    refine ⟨howned, ?_, ?_, ?_, ?_⟩
    · intro a ha
      obtain ⟨ha, hne⟩ := Table.mem_keep.mp ha
      exact hkept _ _ (by simpa using hne) (h.attachments a ha)
    · intro x hx
      obtain ⟨hx, hne⟩ := List.mem_filter.mp hx
      exact hkept _ _ (by simpa using hne) (h.history x hx)
    · intro l hl
      obtain ⟨hl, hne⟩ := List.mem_filter.mp hl
      obtain ⟨T, hticket, htag⟩ := h.links l hl
      exact ⟨T, hkept _ _ (by simpa using hne) hticket, htag⟩
    · intro x hx hne
      exact h.mailboxes x (Table.mem_keep.mp hx).1 hne

theorem Referential.of_subset (h : Referential m) (htickets : m'.tickets = m.tickets)
    (hmailboxes : m'.mailboxes = m.mailboxes) (howned : Owned m')
    (hatt : m'.attachments.rows ⊆ m.attachments.rows) (hhist : m'.history ⊆ m.history)
    (hlinks : m'.links ⊆ m.links) (htags : ∀ T id, HasTag T m id → HasTag T m' id) :
    Referential m' := by
  have hsame : ∀ T id, HasTicket T m' id ↔ HasTicket T m id := by
    intro T id
    rw [HasTicket, HasTicket, htickets]
  refine ⟨howned, fun a ha => (hsame _ _).mpr (h.attachments a (hatt ha)),
    fun x hx => (hsame _ _).mpr (h.history x (hhist hx)), fun l hl => ?_, fun t ht hne => ?_⟩
  · obtain ⟨T, hticket, htag⟩ := h.links l (hlinks hl)
    exact ⟨T, (hsame _ _).mpr hticket, htags _ _ htag⟩
  · rw [htickets] at ht
    obtain ⟨mb, hmb, hkeys⟩ := h.mailboxes t ht hne
    exact ⟨mb, hmailboxes ▸ hmb, hkeys⟩

theorem referential_createComment (now : Time) (h : Referential m) (c : Comment) :
    Referential (m.createComment now c).2 := by
  have howned := owned_createComment now h.comments c
  obtain ⟨e, he⟩ | ⟨t, ht, -, -, -, -, heq⟩ := createComment_cases now m c
  · rw [he]
    exact h
  · rw [heq] at howned ⊢
    exact (h.rewrite (t := t.withComment (Mem.withCommentDefaults now c)) ht rfl rfl rfl).of_subset
      rfl rfl howned
      (List.Subset.refl _) (List.Subset.refl _) (List.Subset.refl _) fun _ _ hx => hx

theorem referential_setCommentDelivery (h : Referential m) (ten id : GoString) (dl : Delivery) :
    Referential (m.setCommentDelivery ten id dl).2 := by
  have howned := owned_setCommentDelivery h.comments ten id dl
  unfold Mem.setCommentDelivery at howned ⊢
  revert howned
  cases m.comment ten id with
  | error e => exact fun _ => h
  | ok c =>
    intro howned
    exact h.of_subset rfl rfl howned (List.Subset.refl _) (List.Subset.refl _) (List.Subset.refl _)
      fun _ _ hx => hx

theorem referential_deleteComment (h : Referential m) (ten id : GoString) :
    Referential (m.deleteComment ten id).2 := by
  have howned := owned_deleteComment h.comments ten id
  have hrest : ∀ {m' : Mem} (_ : Referential { m with tickets := m'.tickets }) (_ : m' = { m with
      attachments := m'.attachments, comments := m'.comments, tickets := m'.tickets })
      (_ : m'.attachments.rows ⊆ m.attachments.rows) (_ : Owned m'), Referential m' := by
    intro m' ht heq hatt ho
    refine ht.of_subset rfl ?_ ho hatt ?_ ?_ ?_
    · rw [heq]
    · rw [heq]
      exact List.Subset.refl _
    · rw [heq]
      exact List.Subset.refl _
    · intro T id hx
      rw [heq]
      exact hx
  unfold Mem.deleteComment at howned ⊢
  revert howned
  cases m.comment ten id with
  | error e => exact fun _ => h
  | ok c =>
    intro howned
    refine hrest ?_ rfl (fun a ha => (Table.mem_keep.mp ha).1) howned
    dsimp only
    cases hg : m.tickets.get? c.ticketID with
    | none => exact h
    | some t =>
      dsimp only
      split
      · exact h.rewrite (Table.get?_eq_some.mp hg).1 rfl rfl rfl
      · exact h

theorem referential_createAttachment (now : Time) (h : Referential m) (a : Attachment) :
    Referential (m.createAttachment now a).2 := by
  unfold Mem.createAttachment
  cases ht : m.ticket a.tenantID a.ticketID with
  | error e => exact h
  | ok t =>
    obtain ⟨hmem, hten, hid⟩ := ticket_ok ht
    dsimp only
    split_ifs
    · exact h
    · exact h
    · exact h
    · refine { h with attachments := fun x hx => ?_ }
      rcases Table.mem_put.mp hx with rfl | ⟨hx, -⟩
      · exact ⟨t, hmem, hid, hten⟩
      · exact h.attachments x hx

theorem referential_appendHistory (now : Time) (h : Referential m) (x : History) :
    Referential (m.appendHistory now x).2 := by
  obtain ⟨e, he⟩ | ⟨t, ht, hten, hid, heq⟩ := appendHistory_cases now m x
  · rw [he]
    exact h
  · rw [heq]
    refine { h with history := fun y hy => ?_ }
    rcases List.mem_append.mp hy with hy | hy
    · exact h.history y hy
    · obtain rfl := List.mem_singleton.mp hy
      exact ⟨t, ht, hid, hten⟩

end Tickets

section Vocabulary

variable {m : Mem}

theorem hasTag_put {t : Tag} (ht : ∀ x ∈ m.tags.rows, x.id = t.id → x.tenantID = t.tenantID)
    {T id : GoString} (h : HasTag T m id) : HasTag T { m with tags := m.tags.put t } id := by
  obtain ⟨x, hx, rfl, rfl⟩ := h
  exact Table.exists_put (f := Tag.tenantID) ht hx

theorem hasMailbox_put {mb : Mailbox}
    (hmb : ∀ x ∈ m.mailboxes.rows, x.id = mb.id → x.tenantID = mb.tenantID) {T id : GoString}
    (h : HasMailbox T m id) : HasMailbox T { m with mailboxes := m.mailboxes.put mb } id := by
  obtain ⟨x, hx, rfl, rfl⟩ := h
  exact Table.exists_put (f := Mailbox.tenantID) hmb hx

theorem Referential.putTag {t : Tag} (h : Referential m)
    (ht : ∀ x ∈ m.tags.rows, x.id = t.id → x.tenantID = t.tenantID) :
    Referential { m with tags := m.tags.put t } :=
  h.of_subset rfl rfl h.comments (List.Subset.refl _) (List.Subset.refl _) (List.Subset.refl _)
  fun _ _ => hasTag_put ht

theorem Referential.putMailbox {mb : Mailbox} (h : Referential m)
    (hmb : ∀ x ∈ m.mailboxes.rows, x.id = mb.id → x.tenantID = mb.tenantID) :
    Referential { m with mailboxes := m.mailboxes.put mb } :=
  { h with mailboxes := fun t ht hne => hasMailbox_put hmb (h.mailboxes t ht hne) }

theorem tag_ok {ten id : GoString} {t : Tag} (h : m.tag ten id = .ok t) :
    t ∈ m.tags.rows ∧ t.tenantID = ten ∧ t.id = id := by
  unfold Mem.tag at h
  split at h
  · rename_i x hx
    obtain rfl := Except.ok.inj h
    obtain ⟨hmem, hid, hten⟩ := Table.filter_get?_eq_some.mp hx
    exact ⟨hmem, of_decide_eq_true hten, hid⟩
  · cases h

theorem mailbox_ok {ten id : GoString} {mb : Mailbox} (h : m.mailbox ten id = .ok mb) :
    mb ∈ m.mailboxes.rows ∧ mb.tenantID = ten ∧ mb.id = id := by
  unfold Mem.mailbox at h
  split at h
  · rename_i x hx
    obtain rfl := Except.ok.inj h
    obtain ⟨hmem, hid, hten⟩ := Table.filter_get?_eq_some.mp hx
    exact ⟨hmem, of_decide_eq_true hten, hid⟩
  · cases h

theorem mem_addLinks (tid : GoString) (ids : List GoString) (links : List (GoString × GoString))
    (x : GoString × GoString) :
    x ∈ Mem.addLinks tid ids links ↔ x ∈ links ∨ x.1 = tid ∧ x.2 ∈ ids := by
  unfold Mem.addLinks
  induction ids generalizing links with
  | nil => simp
  | cons id ids ih =>
    rw [List.foldl_cons, ih]
    obtain ⟨a, c⟩ := x
    split_ifs with hold
    · constructor
      · rintro (h | h)
        · exact .inl h
        · exact .inr ⟨h.1, .tail _ h.2⟩
      · rintro (h | ⟨rfl, h⟩)
        · exact .inl h
        · rcases List.mem_cons.mp h with rfl | h
          · exact .inl hold
          · exact .inr ⟨rfl, h⟩
    · simp only [List.mem_append, Prod.mk.injEq, List.mem_cons]
      tauto

section Check

variable {T : GoString}

theorem hasTicket_iff {id : GoString} : (∃ t, m.ticket T id = .ok t) ↔ HasTicket T m id := by
  constructor
  · rintro ⟨t, ht⟩
    obtain ⟨hmem, hten, hid⟩ := ticket_ok ht
    exact ⟨t, hmem, hid, hten⟩
  · rintro ⟨t, hmem, hid, hten⟩
    exact ⟨t, ticket_eq_ok hmem hten hid⟩

theorem hasTag_iff {id : GoString} :
    (m.tags.get? id).any (fun t => t.tenantID = T) = true ↔ HasTag T m id := by
  rw [Table.any_get?]
  simp only [decide_eq_true_eq, HasTag]

theorem checkTags_ok_iff {tid : GoString} {ids : List GoString} :
    m.checkTags T tid ids = .ok () ↔ HasTicket T m tid ∧ ∀ g ∈ ids, HasTag T m g := by
  unfold Mem.checkTags
  rw [← hasTicket_iff]
  cases m.ticket T tid with
  | error e => simp
  | ok t =>
    have hall : (ids.all fun id => (m.tags.get? id).any fun t => t.tenantID = T) = true ↔ ∀ g ∈ ids,
        HasTag T m g := by
      rw [List.all_eq_true]
      exact forall₂_congr fun g _ => hasTag_iff
    dsimp only
    split_ifs with h
    · simpa using hall.mp h
    · simpa using fun h' => h (hall.mpr h')

end Check

variable [GoLibrary]

theorem referential_createTag (now : Time) (h : Referential m) (t : Tag) :
    Referential (m.createTag now t).2 := by
  unfold Mem.createTag
  generalize (if t.kind = .unset then Kind.tag else t.kind) = kind
  dsimp only
  split_ifs with hold
  · exact h
  · have hnew : m.tags.get? t.id = none := by simpa using fun hs => hold (.inl hs)
    exact h.putTag fun x hx hid => absurd hid (Table.get?_eq_none.mp hnew x hx)

theorem referential_updateTag (h : Referential m) (t : Tag) : Referential (m.updateTag t).2 := by
  unfold Mem.updateTag
  cases ht : m.tag t.tenantID t.id with
  | error e => exact h
  | ok cur =>
    obtain ⟨hmem, hten, hid⟩ := tag_ok ht
    dsimp only
    split_ifs
    · exact h
    · refine h.putTag fun x hx hxid => ?_
      rw [m.tags.eq_of_key hx hmem (hxid.trans hid.symm)]
      exact hten

omit [GoLibrary] in
theorem referential_deleteTag (h : Referential m) (ten id : GoString) :
    Referential (m.deleteTag ten id).2 := by
  unfold Mem.deleteTag
  cases m.tag ten id with
  | error e => exact h
  | ok t =>
    refine { h with links := fun l hl => ?_ }
    obtain ⟨hl, hne⟩ := List.mem_filter.mp hl
    obtain ⟨T, hticket, g, hg, hid, hten⟩ := h.links l hl
    exact ⟨T, hticket, g, Table.mem_keep.mpr ⟨hg, by simpa [hid] using hne⟩, hid, hten⟩

omit [GoLibrary] in
theorem referential_addTicketTags (h : Referential m) (ten tid : GoString) (ids : List GoString) :
    Referential (m.addTicketTags ten tid ids).2 := by
  unfold Mem.addTicketTags
  cases hc : m.checkTags ten tid ids with
  | error e => exact h
  | ok _ =>
    obtain ⟨hticket, htags⟩ := checkTags_ok_iff.mp hc
    refine { h with links := fun l hl => ?_ }
    rcases (mem_addLinks tid ids m.links l).mp hl with hl | ⟨rfl, hg⟩
    · exact h.links l hl
    · exact ⟨ten, hticket, htags _ hg⟩

theorem referential_createMailbox (now : Time) (h : Referential m) (mb : Mailbox) :
    Referential (m.createMailbox now mb).2 := by
  unfold Mem.createMailbox
  split_ifs with hold
  · exact h
  · have hnew : m.mailboxes.get? mb.id = none := by simpa using fun hs => hold (.inl hs)
    exact h.putMailbox fun x hx hid => absurd hid (Table.get?_eq_none.mp hnew x hx)

theorem referential_updateMailbox (now : Time) (h : Referential m) (mb : Mailbox) :
    Referential (m.updateMailbox now mb).2 := by
  unfold Mem.updateMailbox
  cases hmb : m.mailbox mb.tenantID mb.id with
  | error e => exact h
  | ok cur =>
    obtain ⟨hmem, hten, hid⟩ := mailbox_ok hmb
    dsimp only
    split_ifs
    · exact h
    · refine h.putMailbox fun x hx hxid => ?_
      rw [m.mailboxes.eq_of_key hx hmem (hxid.trans hid.symm)]
      exact hten

omit [GoLibrary] in
theorem referential_deleteMailbox (h : Referential m) (ten id : GoString) (force : Bool) :
    Referential (m.deleteMailbox ten id force).2 := by
  have hkeys := (deleteMailbox_sameCores m ten id force).keys
  unfold Mem.deleteMailbox at hkeys ⊢
  revert hkeys
  cases m.mailbox ten id with
  | error e => exact fun _ => h
  | ok mb =>
    dsimp only
    split_ifs
    · exact fun _ => h
    · intro hkeys
      have hsame := hasTicket_of_keys hkeys
      refine ⟨h.comments.of_same rfl hkeys, fun a ha => (hsame _ _).mpr (h.attachments a ha),
        fun x hx => (hsame _ _).mpr (h.history x hx), fun l hl => ?_, fun t ht hne => ?_⟩
      · obtain ⟨T, hticket, htag⟩ := h.links l hl
        exact ⟨T, (hsame _ _).mpr hticket, htag⟩
      · obtain ⟨t₀, ht₀, rfl⟩ := List.mem_map.mp ht
        dsimp only at hne ⊢
        split_ifs at hne ⊢ with hdel
        · exact absurd rfl hne
        · obtain ⟨x, hx, hxid, hten⟩ := h.mailboxes t₀ ht₀ hne
          exact ⟨x, Table.mem_keep.mpr ⟨hx, by simpa [hxid] using hdel⟩, hxid, hten⟩

theorem referential_performStore (now : Time) (id : GoString) (h : Referential m) (q : StoreCall) :
    Referential (performStore now id m q).2 := by
  cases q with
  | createTicket t => exact referential_createTicket now h t
  | updateTicket ten i p at_ =>
    exact referential_modifyTicket h ten i (f := fun t => t.withPatch (orNow at_ now) p) fun _ =>
      ⟨rfl, rfl, rfl⟩
  | setAssignee ten i a n at_ =>
    exact referential_modifyTicket h ten i (f := fun t => t.withAssignee (orNow at_ now) a n)
      fun _ => ⟨rfl, rfl, rfl⟩
  | setStatus ten i s at_ =>
    exact referential_modifyTicket h ten i (f := fun t => t.withStatus (orNow at_ now) s) fun _ =>
      ⟨rfl, rfl, rfl⟩
  | deleteTicket ten i => exact referential_deleteTicket h ten i
  | createComment c => exact referential_createComment now h c
  | setCommentDelivery ten i dl => exact referential_setCommentDelivery h ten i dl
  | deleteComment ten i => exact referential_deleteComment h ten i
  | createAttachment a => exact referential_createAttachment now h a
  | appendHistory row => exact referential_appendHistory now h row
  | createTag t => exact referential_createTag now h t
  | updateTag t => exact referential_updateTag h t
  | deleteTag ten i => exact referential_deleteTag h ten i
  | ensureTagByName ten k n =>
    simp only [performStore, Mem.ensureTagByName]
    split
    · exact h
    · exact referential_createTag now h _
  | addTicketTags ten tid ids => exact referential_addTicketTags h ten tid ids
  | createMailbox mb => exact referential_createMailbox now h mb
  | updateMailbox mb => exact referential_updateMailbox now h mb
  | deleteMailbox ten i force => exact referential_deleteMailbox h ten i force
  | findTicketByExternalID | findCommentByMessageID | getAttachment | routeMailbox | createRule | updateRule
  | deleteRule =>
    simp only [performStore, Mem.findTicketByExternalID, Mem.findCommentByMessageID, Mem.getAttachment,
      Mem.routeMailbox, Mem.createRule, Mem.updateRule, Mem.deleteRule]
    repeat' split
    all_goals first | exact h | exact { h with }
  | _ => exact h

end Vocabulary

end TangraTicket.Services
