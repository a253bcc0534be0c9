import TangraTicket.Services.Scope

/-!
The rows of some tenants as a store of their own. What the services do for a tenant, they do in the
same way on the slice of that tenant alone, and the slice of all other tenants stays as it is.
-/

namespace TangraTicket.Store

open GoText KeyedTable

namespace Mem

theorem ext_rows {m m' : Mem} (htickets : m.tickets.rows = m'.tickets.rows)
    (hcomments : m.comments.rows = m'.comments.rows)
    (hattachments : m.attachments.rows = m'.attachments.rows) (htags : m.tags.rows = m'.tags.rows)
    (hlinks : m.links = m'.links) (hrules : m.rules.rows = m'.rules.rows)
    (hmailboxes : m.mailboxes.rows = m'.mailboxes.rows) (hhistory : m.history = m'.history) :
    m = m' := by
  cases m
  cases m'
  simp only [Mem.mk.injEq]
  exact ⟨Table.ext_rows htickets, Table.ext_rows hcomments, Table.ext_rows hattachments,
    Table.ext_rows htags, hlinks, Table.ext_rows hrules, Table.ext_rows hmailboxes, hhistory⟩

-- a link belongs to the tenant of its ticket
def ownerOf (m : Mem) (ticketID : GoString) : GoString :=
  ((m.tickets.get? ticketID).map Ticket.tenantID).getD []

/-- The rows of the tenants that meet `p`, and every mailbox. -/
def slice (p : GoString → Bool) (m : Mem) : Mem where
  tickets := m.tickets.keep fun t => p t.tenantID
  comments := m.comments.keep fun c => p c.tenantID
  attachments := m.attachments.keep fun a => p a.tenantID
  tags := m.tags.keep fun t => p t.tenantID
  links := m.links.filter fun l => p (m.ownerOf l.1)
  rules := m.rules.keep fun r => p r.tenantID
  mailboxes := m.mailboxes
  history := m.history.filter fun h => p h.tenantID

def own (T : GoString) (m : Mem) : Mem := m.slice fun x => x = T

def others (T : GoString) (m : Mem) : Mem := m.slice fun x => !decide (x = T)

/-- The new id `id` of tenant `T` collides with nothing in `m`. -/
structure Unused (T : GoString) (m : Mem) (id : GoString) : Prop where
  ticket : ∀ t ∈ m.tickets.rows, t.id ≠ id
  comment : ∀ c ∈ m.comments.rows, c.id ≠ id
  attachment : ∀ a ∈ m.attachments.rows, a.id ≠ id
  tag : ∀ t ∈ m.tags.rows, t.id ≠ id
  link : ∀ l ∈ m.links, l.1 ≠ id
  object : ∀ a ∈ m.attachments.rows, ∀ ticketID, a.storageKey ≠ attachmentKey T ticketID id

theorem ownerOf_eq {m : Mem} {id : GoString} {t : Ticket} (ht : t ∈ m.tickets.rows) (hid : t.id = id) :
    m.ownerOf id = t.tenantID := by
  rw [ownerOf, Table.get?_eq_some.mpr ⟨ht, hid⟩]
  rfl

section Slice

variable {p : GoString → Bool} {T : GoString} (hp : p T = true) (m : Mem)

/-- `f` does on the slice what it does on the whole store. -/
def Commutes {α : Type} (p : GoString → Bool) (m : Mem) (f : Mem → Except RepoErr α × Mem) : Prop :=
  f (m.slice p) = ((f m).1, (f m).2.slice p)

include hp

theorem meets_of_tenant {x : GoString} (hx : x = T) : p x = true := hx ▸ hp

theorem slice_ticket (id : GoString) : (m.slice p).ticket T id = m.ticket T id := by
  rw [ticket, slice, Table.get?_keep, option_filter_part, ticket]
  intro t ht
  exact meets_of_tenant hp (by simpa using ht)

theorem slice_comment (id : GoString) : (m.slice p).comment T id = m.comment T id := by
  rw [comment, slice, Table.get?_keep, option_filter_part, comment]
  intro c hc
  exact meets_of_tenant hp (by simpa using hc)

theorem findTicket_commutes (x : GoString) : Commutes p m fun m => m.findTicketByExternalID T x := by
  have hfind : (m.slice p).tickets.rows.find? (fun t => t.tenantID = T ∧ t.externalID = x) =
      m.tickets.rows.find? (fun t => t.tenantID = T ∧ t.externalID = x) := by
    refine find?_part (fun t ht => meets_of_tenant hp ?_) m.tickets.rows
    exact (of_decide_eq_true ht).1
  simp only [Commutes, findTicketByExternalID, hfind]
  split
  · rfl
  · split <;> rfl

theorem findComment_commutes (x : GoString) : Commutes p m fun m => m.findCommentByMessageID T x := by
  have hfind : (m.slice p).comments.rows.find? (fun c => c.tenantID = T ∧ c.messageID = x) =
      m.comments.rows.find? (fun c => c.tenantID = T ∧ c.messageID = x) := by
    refine find?_part (fun c hc => meets_of_tenant hp ?_) m.comments.rows
    exact (of_decide_eq_true hc).1
  simp only [Commutes, findCommentByMessageID, hfind]
  split
  · rfl
  · split <;> rfl

theorem listAttachments_commutes (ticketID : GoString) :
    Commutes p m fun m => m.listAttachments T ticketID := by
  have hrows : (m.slice p).attachments.rows.filter (fun a => a.tenantID = T ∧ a.ticketID = ticketID) =
      m.attachments.rows.filter (fun a => a.tenantID = T ∧ a.ticketID = ticketID) := by
    refine filter_part (fun a ha => meets_of_tenant hp ?_) m.attachments.rows
    exact (of_decide_eq_true ha).1
  simp only [Commutes, listAttachments, hrows]

theorem listRules_commutes (enabledOnly : Bool) : Commutes p m fun m => m.listRules T enabledOnly := by
  have hrows : (m.slice p).rules.rows.filter (fun r => r.tenantID = T ∧ (enabledOnly = false ∨ r.enabled)) =
      m.rules.rows.filter (fun r => r.tenantID = T ∧ (enabledOnly = false ∨ r.enabled)) := by
    refine filter_part (fun r hr => meets_of_tenant hp ?_) m.rules.rows
    exact (of_decide_eq_true hr).1
  simp only [Commutes, listRules, hrows]

theorem slice_tag_any (id : GoString) :
    ((m.slice p).tags.get? id).any (fun t => t.tenantID = T) = (m.tags.get? id).any fun t =>
    t.tenantID = T := by
  rw [slice, Table.get?_keep]
  refine option_any_part (fun t ht => meets_of_tenant hp ?_) _
  exact of_decide_eq_true ht

theorem slice_ticket_any (id : GoString) :
    ((m.slice p).tickets.get? id).any (fun t => t.tenantID = T) =
      (m.tickets.get? id).any fun t => t.tenantID = T := by
  rw [slice, Table.get?_keep]
  refine option_any_part (fun t ht => meets_of_tenant hp ?_) _
  exact of_decide_eq_true ht

section Tags

variable [GoLibrary]

theorem slice_tagsOf {id : GoString} (hown : m.ownerOf id = T) :
    (m.slice p).tagsOf T id = m.tagsOf T id := by
  have hlinks : (m.slice p).links.filter (fun l => l.1 = id) = m.links.filter (fun l => l.1 = id) := by
    refine filter_part (fun l hl => meets_of_tenant hp ?_) m.links
    rw [of_decide_eq_true hl, hown]
  have htag : ∀ tagID, ((m.slice p).tags.get? tagID).filter (fun t => t.tenantID = T) =
      (m.tags.get? tagID).filter (fun t => t.tenantID = T) := by
    intro tagID
    rw [slice, Table.get?_keep]
    refine option_filter_part (fun t ht => meets_of_tenant hp ?_) _
    exact of_decide_eq_true ht
  simp only [tagsOf, hlinks, htag]

theorem tagsForTickets_commutes (ids : List GoString) : Commutes p m fun m => m.tagsForTickets T ids := by
  have hentry : ∀ id,
      (if ((m.slice p).tickets.get? id).any (fun t => t.tenantID = T) ∧ (m.slice p).tagsOf T id ≠ [] then
        some (id, (m.slice p).tagsOf T id) else none) =
      if (m.tickets.get? id).any (fun t => t.tenantID = T) ∧ m.tagsOf T id ≠ [] then
        some (id, m.tagsOf T id)
        else none := by
    intro id
    rw [slice_ticket_any hp]
    by_cases hany : (m.tickets.get? id).any (fun t => t.tenantID = T) = true
    · obtain ⟨t, hget, hten⟩ := (Option.any_eq_true _ _).mp hany
      obtain ⟨hmem, hid⟩ := Table.get?_eq_some.mp hget
      rw [slice_tagsOf hp m ((ownerOf_eq hmem hid).trans (of_decide_eq_true hten))]
    · simp [hany]
  simp only [Commutes, tagsForTickets, hentry]

end Tags

omit hp in
theorem slice_putTicket {t : Ticket} (hpt : p t.tenantID = true)
    (hkey : ∀ x ∈ m.tickets.rows, x.id = t.id → p x.tenantID = true)
    (hlink : ∀ l ∈ m.links, l.1 = t.id → p (m.ownerOf l.1) = true) :
    slice p { m with tickets := m.tickets.put t } =
    { m.slice p with tickets := (m.slice p).tickets.put t } := by
  have hlinks : m.links.filter (fun l => p (ownerOf { m with tickets := m.tickets.put t } l.1)) =
      m.links.filter (fun l => p (m.ownerOf l.1)) := by
    apply List.filter_congr
    intro l hl
    by_cases heq : l.1 = t.id
    · rw [hlink l hl heq, ownerOf, Table.get?_put, if_pos heq]
      exact hpt
    · rw [ownerOf, Table.get?_put, if_neg heq]
      rfl
  simp only [slice, hlinks, Table.keep_put (p := fun t : Ticket => p t.tenantID) hpt hkey]

omit hp in
theorem slice_overwriteTicket {t₀ t : Ticket} (h₀ : t₀ ∈ m.tickets.rows) (hid : t.id = t₀.id)
    (hten : t.tenantID = t₀.tenantID) (hp₀ : p t₀.tenantID = true) :
    slice p { m with tickets := m.tickets.put t } =
    { m.slice p with tickets := (m.slice p).tickets.put t } := by
  apply slice_putTicket m (hten ▸ hp₀)
  · intro x hx heq
    rwa [m.tickets.eq_of_key hx h₀ (heq.trans hid)]
  · intro l _ heq
    rwa [ownerOf_eq h₀ (hid.symm.trans heq.symm)]

omit hp in
theorem slice_putComment {c : Comment} (hpc : p c.tenantID = true)
    (hkey : ∀ x ∈ m.comments.rows, x.id = c.id → p x.tenantID = true) :
    slice p { m with comments := m.comments.put c } =
    { m.slice p with comments := (m.slice p).comments.put c } := by
  simp only [slice, Table.keep_put (p := fun c : Comment => p c.tenantID) hpc hkey]
  rfl

section Fresh

-- an id that no row outside the slice uses
variable {id : GoString} (hid : Unused T (m.slice fun x => !p x) id)

include hid

omit hp

theorem part_ticket : ∀ x ∈ m.tickets.rows, x.id = id → p x.tenantID = true := by
  intro x hx heq
  by_contra hne
  exact hid.ticket x (Table.mem_keep.mpr ⟨hx, by simpa using hne⟩) heq

theorem part_comment : ∀ x ∈ m.comments.rows, x.id = id → p x.tenantID = true := by
  intro x hx heq
  by_contra hne
  exact hid.comment x (Table.mem_keep.mpr ⟨hx, by simpa using hne⟩) heq

theorem part_attachment : ∀ x ∈ m.attachments.rows, x.id = id → p x.tenantID = true := by
  intro x hx heq
  by_contra hne
  exact hid.attachment x (Table.mem_keep.mpr ⟨hx, by simpa using hne⟩) heq

theorem part_object (ticketID : GoString) :
    ∀ x ∈ m.attachments.rows, x.storageKey = attachmentKey T ticketID id → p x.tenantID = true := by
  intro x hx heq
  by_contra hne
  exact hid.object x (Table.mem_keep.mpr ⟨hx, by simpa using hne⟩) ticketID heq

theorem part_tag : ∀ x ∈ m.tags.rows, x.id = id → p x.tenantID = true := by
  intro x hx heq
  by_contra hne
  exact hid.tag x (Table.mem_keep.mpr ⟨hx, by simpa using hne⟩) heq

theorem part_link : ∀ l ∈ m.links, l.1 = id → p (m.ownerOf l.1) = true := by
  intro l hl heq
  by_contra hne
  exact hid.link l (List.mem_filter.mpr ⟨hl, by simpa using hne⟩) heq

end Fresh

variable (now : Time)

theorem createTicket_commutes {t : Ticket} (ht : t.tenantID = T)
    (hid : Unused T (m.slice fun x => !p x) t.id) :
    Commutes p m fun m => m.createTicket now t := by
  have hget : (m.slice p).tickets.get? t.id = m.tickets.get? t.id := Table.get?_keep_of (part_ticket m hid)
  have hany : (m.slice p).tickets.rows.any (fun x => x.tenantID = t.tenantID ∧
      x.externalID = t.externalID) =
      m.tickets.rows.any (fun x => x.tenantID = t.tenantID ∧ x.externalID = t.externalID) := by
    refine any_part fun x _ hx => meets_of_tenant hp ?_
    exact (of_decide_eq_true hx).1.trans ht
  have hput := slice_putTicket (p := p) m (t := withDefaults now t) (meets_of_tenant hp ht)
    (part_ticket m hid)
    (part_link m hid)
  have hmailboxes : (m.slice p).mailboxes = m.mailboxes := rfl
  simp only [Commutes, createTicket, hget, hany, hmailboxes]
  split
  · rfl
  · split
    · rfl
    · split
      · rfl
      · rw [hput]
        rfl

theorem modifyTicket_commutes (id : GoString) {f : Ticket → Ticket}
    (hf : ∀ t, (f t).id = t.id ∧ (f t).tenantID = t.tenantID) :
    Commutes p m fun m => m.modifyTicket T id f := by
  simp only [Commutes, modifyTicket, slice_ticket hp]
  cases ht : m.ticket T id with
  | error e => rfl
  | ok t =>
    obtain ⟨hmem, hten, -⟩ := Services.ticket_ok ht
    dsimp only
    rw [slice_overwriteTicket m hmem (hf t).1 (hf t).2 (meets_of_tenant hp hten)]

theorem createComment_commutes {c : Comment} (hc : c.tenantID = T)
    (hid : Unused T (m.slice fun x => !p x) c.id) : Commutes p m fun m => m.createComment now c := by
  have hget : (m.slice p).comments.get? c.id = m.comments.get? c.id :=
    Table.get?_keep_of (part_comment m hid)
  have hany : (m.slice p).comments.rows.any (fun x => x.tenantID = c.tenantID ∧ x.messageID = c.messageID) =
      m.comments.rows.any (fun x => x.tenantID = c.tenantID ∧ x.messageID = c.messageID) := by
    refine any_part fun x _ hx => meets_of_tenant hp ?_
    exact (of_decide_eq_true hx).1.trans hc
  subst hc
  simp only [Commutes, createComment, slice_ticket hp, hget, hany]
  cases ht : m.ticket c.tenantID c.ticketID with
  | error e => rfl
  | ok t =>
    obtain ⟨hmem, hten, -⟩ := Services.ticket_ok ht
    dsimp only
    split
    · rfl
    · split
      · rfl
      · have hcomment := slice_putComment (p := p) m (c := withCommentDefaults now c) hp
          (part_comment m hid)
        have hticket := slice_overwriteTicket (p := p)
          { m with comments := m.comments.put (withCommentDefaults now c) }
          (t := t.withComment (withCommentDefaults now c)) hmem rfl rfl (meets_of_tenant hp hten)
        rw [hticket, hcomment]

theorem setCommentDelivery_commutes (id : GoString) (dl : Delivery) :
    Commutes p m fun m => m.setCommentDelivery T id dl := by
  simp only [Commutes, setCommentDelivery, slice_comment hp]
  cases hc : m.comment T id with
  | error e => rfl
  | ok c =>
    obtain ⟨hmem, hten, -⟩ := Services.comment_ok hc
    have hput := slice_putComment (p := p) m (c := { c with delivery := dl })
        (meets_of_tenant hp hten) fun x hx heq => by
      rw [m.comments.eq_of_key hx hmem heq]
      exact meets_of_tenant hp hten
    dsimp only
    rw [hput]

theorem createAttachment_commutes {a : Attachment} {ticketID : GoString} (ha : a.tenantID = T)
    (hid : Unused T (m.slice fun x => !p x) a.id) (hkey : a.storageKey = attachmentKey T ticketID a.id) :
    Commutes p m fun m => m.createAttachment now a := by
  have hget : (m.slice p).attachments.get? a.id = m.attachments.get? a.id :=
    Table.get?_keep_of (part_attachment m hid)
  have hany : (m.slice p).attachments.rows.any (fun x => x.storageKey = a.storageKey) =
      m.attachments.rows.any (fun x => x.storageKey = a.storageKey) := by
    refine any_part fun x hx heq => part_object m hid ticketID x hx ?_
    exact (of_decide_eq_true heq).trans hkey
  have hcomment : ((m.slice p).comments.get? a.commentID).any
        (fun c => c.tenantID = a.tenantID ∧ c.ticketID = a.ticketID) =
      (m.comments.get? a.commentID).any (fun c => c.tenantID = a.tenantID ∧ c.ticketID = a.ticketID) := by
    rw [slice, Table.get?_keep]
    refine option_any_part (fun c hc => meets_of_tenant hp ?_) _
    exact (of_decide_eq_true hc).1.trans ha
  subst ha
  simp only [Commutes, createAttachment, slice_ticket hp, hget, hany, hcomment]
  cases m.ticket a.tenantID a.ticketID with
  | error e => rfl
  | ok t =>
    dsimp only
    split
    · rfl
    · split
      · rfl
      · split
        · rfl
        · simp only [slice, Table.keep_put (r := { a with createdAt := orNow a.createdAt now })
            (p := fun a : Attachment => p a.tenantID) hp (part_attachment m hid)]
          rfl

theorem appendHistory_commutes {h : History} (hh : h.tenantID = T) :
    Commutes p m fun m => m.appendHistory now h := by
  subst hh
  simp only [Commutes, appendHistory, slice_ticket hp]
  cases m.ticket h.tenantID h.ticketID with
  | error e => rfl
  | ok t =>
    simp only [slice, List.filter_append, List.filter_cons, hp, if_true, List.filter_nil]
    rfl

section Tagging

variable [GoLibrary]

theorem createTag_commutes {t : Tag} (ht : t.tenantID = T) (hid : Unused T (m.slice fun x => !p x) t.id) :
    Commutes p m fun m => m.createTag now t := by
  have hget : (m.slice p).tags.get? t.id = m.tags.get? t.id := Table.get?_keep_of (part_tag m hid)
  have hconflict : (m.slice p).tagConflict { t with kind := if t.kind = .unset then .tag else t.kind } =
      m.tagConflict { t with kind := if t.kind = .unset then .tag else t.kind } := by
    refine any_part fun x _ hx => meets_of_tenant hp ?_
    exact (of_decide_eq_true hx).2.1.trans ht
  simp only [Commutes, createTag, hget, hconflict]
  generalize (if t.kind = .unset then Kind.tag else t.kind) = kind
  split
  · rfl
  · simp only [slice, Table.keep_put (p := fun t : Tag => p t.tenantID)
      (r := { t with kind := kind, createdAt := orNow t.createdAt now }) (meets_of_tenant hp ht)
      (part_tag m hid)]
    rfl

theorem ensureTagByName_commutes {id : GoString} (kind : Kind) (name : GoString)
    (hid : Unused T (m.slice fun x => !p x) id) :
    Commutes p m fun m => m.ensureTagByName now id T kind name := by
  have hfind : ∀ k : Kind, (m.slice p).tags.rows.find? (fun t => t.tenantID = T ∧ t.kind = k ∧
      equalFold t.name name) =
      m.tags.rows.find? (fun t => t.tenantID = T ∧ t.kind = k ∧ equalFold t.name name) := by
    intro k
    refine find?_part (fun t ht => meets_of_tenant hp ?_) m.tags.rows
    exact (of_decide_eq_true ht).1
  have hcreate : ∀ t : Tag, t.id = id → t.tenantID = T → (m.slice p).createTag now t =
      ((m.createTag now t).1, (m.createTag now t).2.slice p) := by
    rintro t rfl ht
    exact createTag_commutes hp m now ht hid
  simp only [Commutes, ensureTagByName, hfind]
  split
  · rfl
  · rw [hcreate _ rfl rfl]

end Tagging

theorem slice_checkTags (ticketID : GoString) (tagIDs : List GoString) :
    (m.slice p).checkTags T ticketID tagIDs = m.checkTags T ticketID tagIDs := by
  simp only [checkTags, slice_ticket hp, slice_tag_any hp]

omit hp in
theorem filter_addLinks {q : GoString × GoString → Bool} {ticketID : GoString}
    (hq : ∀ tagID, q (ticketID, tagID) = true) (tagIDs : List GoString)
    (links : List (GoString × GoString)) :
    (addLinks ticketID tagIDs links).filter q = addLinks ticketID tagIDs (links.filter q) := by
  induction tagIDs generalizing links with
  | nil => rfl
  | cons id ids ih =>
    have hmem : (ticketID, id) ∈ links.filter q ↔ (ticketID, id) ∈ links := by simp [hq]
    simp only [addLinks, List.foldl_cons] at ih ⊢
    rw [ih]
    by_cases h : (ticketID, id) ∈ links
    · rw [if_pos h, if_pos (hmem.mpr h)]
    · rw [if_neg h, if_neg (fun hc => h (hmem.mp hc)), List.filter_append]
      simp [hq]

theorem addTicketTags_commutes (ticketID : GoString) (tagIDs : List GoString) :
    Commutes p m fun m => m.addTicketTags T ticketID tagIDs := by
  simp only [Commutes, addTicketTags, slice_checkTags hp]
  cases hc : m.checkTags T ticketID tagIDs with
  | error e => rfl
  | ok _ =>
    have hown : p (m.ownerOf ticketID) = true := by
      unfold checkTags at hc
      split at hc
      · cases hc
      · rename_i t ht
        obtain ⟨hmem, hten, hid⟩ := Services.ticket_ok ht
        rw [ownerOf_eq hmem hid]
        exact meets_of_tenant hp hten
    have hlinks := filter_addLinks (q := fun l => p (m.ownerOf l.1)) (fun _ => hown) tagIDs m.links
    simp only [slice]
    rw [← hlinks]
    rfl

end Slice

section Outside

variable {p : GoString → Bool} {T : GoString} (hp : p T = false) (m : Mem)

theorem outside_putTicket {t : Ticket} (hpt : p t.tenantID = false)
    (hkey : ∀ x ∈ m.tickets.rows, x.id = t.id → p x.tenantID = false)
    (hlink : ∀ l ∈ m.links, l.1 = t.id → p (m.ownerOf l.1) = false) :
    slice p { m with tickets := m.tickets.put t } = m.slice p := by
  have hlinks : m.links.filter (fun l => p (ownerOf { m with tickets := m.tickets.put t } l.1)) =
      m.links.filter (fun l => p (m.ownerOf l.1)) := by
    apply List.filter_congr
    intro l hl
    by_cases heq : l.1 = t.id
    · rw [hlink l hl heq, ownerOf, Table.get?_put, if_pos heq]
      exact hpt
    · rw [ownerOf, Table.get?_put, if_neg heq]
      rfl
  simp only [slice, hlinks, Table.keep_put_other (p := fun t : Ticket => p t.tenantID) hpt hkey]

theorem outside_overwriteTicket {t₀ t : Ticket} (h₀ : t₀ ∈ m.tickets.rows) (hid : t.id = t₀.id)
    (hten : t.tenantID = t₀.tenantID) (hp₀ : p t₀.tenantID = false) :
    slice p { m with tickets := m.tickets.put t } = m.slice p := by
  apply outside_putTicket m (hten ▸ hp₀)
  · intro x hx heq
    rwa [m.tickets.eq_of_key hx h₀ (heq.trans hid)]
  · intro l _ heq
    rwa [ownerOf_eq h₀ (hid.symm.trans heq.symm)]

theorem outside_putComment {c : Comment} (hpc : p c.tenantID = false)
    (hkey : ∀ x ∈ m.comments.rows, x.id = c.id → p x.tenantID = false) :
    slice p { m with comments := m.comments.put c } = m.slice p := by
  simp only [slice, Table.keep_put_other (p := fun c : Comment => p c.tenantID) hpc hkey]
  rfl

include hp

theorem misses_of_tenant {x : GoString} (hx : x = T) : p x = false := hx ▸ hp

variable (now : Time)

theorem createTicket_outside {t : Ticket} (ht : t.tenantID = T)
    (hlink : ∀ l ∈ (m.slice p).links, l.1 ≠ t.id) :
    (m.createTicket now t).2.slice p = m.slice p := by
  obtain ⟨e, he⟩ | ⟨hnew, -, heq⟩ := Services.createTicket_cases now m t
  · rw [he]
  · rw [heq]
    apply outside_putTicket m (t := withDefaults now t) (misses_of_tenant hp ht)
    · exact fun x hx hxid => absurd hxid (Table.get?_eq_none.mp hnew x hx)
    · intro l hl hlid
      by_contra hne
      exact hlink l (List.mem_filter.mpr ⟨hl, by simpa using hne⟩) hlid

theorem modifyTicket_outside (id : GoString) {f : Ticket → Ticket}
    (hf : ∀ t, (f t).id = t.id ∧ (f t).tenantID = t.tenantID) :
    (m.modifyTicket T id f).2.slice p = m.slice p := by
  obtain ⟨e, he⟩ | ⟨t, ht, hten, -, heq⟩ := Services.modifyTicket_cases m T id f
  · rw [he]
  · rw [heq]
    exact outside_overwriteTicket m ht (hf t).1 (hf t).2 (misses_of_tenant hp hten)

theorem createComment_outside {c : Comment} (hc : c.tenantID = T) :
    (m.createComment now c).2.slice p = m.slice p := by
  obtain ⟨e, he⟩ | ⟨t, ht, hten, -, hnew, -, heq⟩ := Services.createComment_cases now m c
  · rw [he]
  · rw [heq]
    have hticket := outside_overwriteTicket (p := p)
      { m with comments := m.comments.put (withCommentDefaults now c) }
      (t := t.withComment (withCommentDefaults now c)) ht rfl rfl (misses_of_tenant hp (hten.trans hc))
    refine hticket.trans (outside_putComment m (misses_of_tenant hp hc) ?_)
    exact fun x hx hxid => absurd hxid (Table.get?_eq_none.mp hnew x hx)

theorem setCommentDelivery_outside (id : GoString) (dl : Delivery) :
    (m.setCommentDelivery T id dl).2.slice p = m.slice p := by
  unfold setCommentDelivery
  cases hc : m.comment T id with
  | error e => rfl
  | ok c =>
    obtain ⟨hmem, hten, -⟩ := Services.comment_ok hc
    apply outside_putComment m (c := { c with delivery := dl }) (misses_of_tenant hp hten)
    intro x hx heq
    rw [m.comments.eq_of_key hx hmem heq]
    exact misses_of_tenant hp hten

theorem createAttachment_outside {a : Attachment} (ha : a.tenantID = T) :
    (m.createAttachment now a).2.slice p = m.slice p := by
  unfold createAttachment
  cases m.ticket a.tenantID a.ticketID with
  | error e => rfl
  | ok t =>
    dsimp only
    split
    · rfl
    · split
      · rfl
      · split
        · rfl
        · rename_i hnew _
          have hnone : m.attachments.get? a.id = none := by simpa using hnew
          simp only [slice, Table.keep_put_other (r := { a with createdAt := orNow a.createdAt now })
            (p := fun a : Attachment => p a.tenantID) (misses_of_tenant hp ha)
            (fun x hx hxid => absurd hxid (Table.get?_eq_none.mp hnone x hx))]
          rfl

theorem appendHistory_outside {h : History} (hh : h.tenantID = T) :
    (m.appendHistory now h).2.slice p = m.slice p := by
  have hph : p h.tenantID = false := misses_of_tenant hp hh
  unfold appendHistory
  cases m.ticket h.tenantID h.ticketID with
  | error e => rfl
  | ok t =>
    simp only [slice, List.filter_append, List.filter_cons, hph, Bool.false_eq_true, if_false,
      List.filter_nil, List.append_nil]
    rfl

theorem createTag_outside [GoLibrary] {t : Tag} (ht : t.tenantID = T) :
    (m.createTag now t).2.slice p = m.slice p := by
  simp only [createTag]
  generalize (if t.kind = .unset then Kind.tag else t.kind) = kind
  split
  · rfl
  · rename_i hnew
    have hnone : m.tags.get? t.id = none := by
      simp only [not_or] at hnew
      simpa using hnew.1
    simp only [slice, Table.keep_put_other (p := fun t : Tag => p t.tenantID)
      (r := { t with kind := kind, createdAt := orNow t.createdAt now }) (misses_of_tenant hp ht)
      (fun x hx hxid => absurd hxid (Table.get?_eq_none.mp hnone x hx))]
    rfl

theorem ensureTagByName_outside [GoLibrary] (id : GoString) (kind : Kind) (name : GoString) :
    (m.ensureTagByName now id T kind name).2.slice p = m.slice p := by
  simp only [ensureTagByName]
  split
  · rfl
  · exact createTag_outside hp m now rfl

omit hp in
theorem filter_addLinks_outside {q : GoString × GoString → Bool} {ticketID : GoString}
    (hq : ∀ tagID, q (ticketID, tagID) = false) (tagIDs : List GoString)
    (links : List (GoString × GoString)) :
    (addLinks ticketID tagIDs links).filter q = links.filter q := by
  induction tagIDs generalizing links with
  | nil => rfl
  | cons id ids ih =>
    simp only [addLinks, List.foldl_cons] at ih ⊢
    rw [ih]
    split
    · rfl
    · simp [hq]

theorem addTicketTags_outside (ticketID : GoString) (tagIDs : List GoString) :
    (m.addTicketTags T ticketID tagIDs).2.slice p = m.slice p := by
  unfold addTicketTags
  cases hc : m.checkTags T ticketID tagIDs with
  | error e => rfl
  | ok _ =>
    have hown : p (m.ownerOf ticketID) = false := by
      unfold checkTags at hc
      split at hc
      · cases hc
      · rename_i t ht
        obtain ⟨hmem, hten, hid⟩ := Services.ticket_ok ht
        rw [ownerOf_eq hmem hid]
        exact misses_of_tenant hp hten
    have hlinks := filter_addLinks_outside (q := fun l => p (m.ownerOf l.1)) (fun _ => hown) tagIDs m.links
    simp only [slice]
    rw [← hlinks]
    rfl

end Outside

end Mem

end TangraTicket.Store
