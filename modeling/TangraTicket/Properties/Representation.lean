import TangraTicket.Library.ApartRows
import TangraTicket.Properties.RoutableAddress
import TangraTicket.Services.MemMethods
import TangraTicket.Services.References

/-!
The representation of the in-memory store. From the empty store on, whatever methods are called, the
rows refer to each other as the foreign keys of the schema would have it, are as unique as its
indexes would have it, and a ticket counts its comments.
-/

namespace TangraTicket.Services

open GoText Store KeyedTable Mailparse

def sameExternalID (t t' : Ticket) : Prop :=
  t.tenantID = t'.tenantID ∧ t.externalID = t'.externalID ∧ t.externalID ≠ []

def sameMessageID (c c' : Comment) : Prop :=
  c.tenantID = c'.tenantID ∧ c.messageID = c'.messageID ∧ c.messageID ≠ []

def sameName [GoLibrary] (g g' : Tag) : Prop :=
  g.tenantID = g'.tenantID ∧ g.kind = g'.kind ∧ equalFold g.name g'.name = true

def sameStorageKey (a a' : Attachment) : Prop := a.storageKey = a'.storageKey

def commentsOf (m : Mem) (ticketID : GoString) : List Comment :=
  m.comments.rows.filter fun c => c.ticketID = ticketID

structure Represented [GoLibrary] (m : Mem) : Prop extends Referential m where
  commentOf : ∀ a ∈ m.attachments.rows, a.commentID ≠ [] →
    ∃ c ∈ m.comments.rows, c.id = a.commentID ∧ c.tenantID = a.tenantID ∧ c.ticketID = a.ticketID
  externalIDs : m.tickets.Apart sameExternalID
  messageIDs : m.comments.Apart sameMessageID
  names : m.tags.Apart sameName
  addresses : UniqueAddresses m
  storageKeys : m.attachments.Apart sameStorageKey
  counts : ∀ t ∈ m.tickets.rows, t.commentCount = (commentsOf m t.id).length

theorem represented_empty [GoLibrary] : Represented {} where
  toReferential := referential_empty
  commentOf _ ha := absurd ha List.not_mem_nil
  externalIDs := Table.apart_empty
  messageIDs := Table.apart_empty
  names := Table.apart_empty
  addresses _ hx := absurd hx List.not_mem_nil
  storageKeys := Table.apart_empty
  counts _ ht := absurd ht List.not_mem_nil

theorem sameExternalID.symm {t t' : Ticket} (h : sameExternalID t t') : sameExternalID t' t :=
  ⟨h.1.symm, h.2.1.symm, h.2.1 ▸ h.2.2⟩

theorem sameMessageID.symm {c c' : Comment} (h : sameMessageID c c') : sameMessageID c' c :=
  ⟨h.1.symm, h.2.1.symm, h.2.1 ▸ h.2.2⟩

theorem sameName.symm [GoLibrary] {g g' : Tag} (h : sameName g g') : sameName g' g := by
  refine ⟨h.1.symm, h.2.1.symm, ?_⟩
  have hfold := h.2.2
  rw [equalFold, decide_eq_true_eq] at hfold ⊢
  exact hfold.symm

section Tickets

variable {m : Mem}

theorem commentsOf_new (h : Referential m) {id : GoString} (hnew : m.tickets.get? id = none) :
    commentsOf m id = [] := by
  refine List.filter_eq_nil_iff.mpr fun c hc => ?_
  obtain ⟨t, ht, hid, -⟩ := h.comments c hc
  rw [decide_eq_true_eq, ← hid]
  exact Table.get?_eq_none.mp hnew t ht

variable [GoLibrary]

theorem Represented.createTicket (h : Represented m) (now : Time) {t : Ticket}
    (hcount : t.commentCount = 0) :
    Represented (m.createTicket now t).2 := by
  have hrefs := referential_createTicket now h.toReferential t
  obtain ⟨e, he⟩ | ⟨hnew, hext, heq⟩ := createTicket_cases now m t
  · rwa [he]
  · rw [heq] at hrefs ⊢
    refine { h with toReferential := hrefs, externalIDs := ?_, counts := ?_ }
    · refine h.externalIDs.put (fun _ hy => hy.symm) fun x hx _ hxt => ?_
      exact hext (hxt.2.1 ▸ hxt.2.2) x hx hxt.1 hxt.2.1
    · intro x hx
      rcases Table.mem_put.mp hx with rfl | ⟨hx, -⟩
      · exact hcount.trans (congrArg List.length (commentsOf_new h.toReferential hnew)).symm
      · exact h.counts x hx

theorem Represented.modifyTicket (h : Represented m) (ten id : GoString) {f : Ticket → Ticket}
    (hf : ∀ t, (f t).id = t.id ∧ (f t).tenantID = t.tenantID ∧ (f t).mailboxID = t.mailboxID)
    (hf' : ∀ t, (f t).externalID = t.externalID ∧ (f t).commentCount = t.commentCount) :
    Represented (m.modifyTicket ten id f).2 := by
  have hrefs := referential_modifyTicket h.toReferential ten id hf
  obtain ⟨e, he⟩ | ⟨t, ht, -, -, heq⟩ := modifyTicket_cases m ten id f
  · rwa [he]
  · rw [heq] at hrefs ⊢
    obtain ⟨hid, hten, -⟩ := hf t
    obtain ⟨hext, hcount⟩ := hf' t
    refine { h with toReferential := hrefs, externalIDs := ?_, counts := ?_ }
    · refine h.externalIDs.rewrite ht hid (fun _ hy => hy.symm) fun y hy => ?_
      unfold sameExternalID at hy ⊢
      rwa [hten, hext] at hy
    · intro x hx
      rcases Table.mem_put.mp hx with rfl | ⟨hx, -⟩
      · rw [hcount, hid]
        exact h.counts t ht
      · exact h.counts x hx

theorem Represented.deleteTicket (h : Represented m) (ten id : GoString) :
    Represented (m.deleteTicket ten id).2 := by
  have hrefs := referential_deleteTicket h.toReferential ten id
  unfold Mem.deleteTicket at hrefs ⊢
  revert hrefs
  cases m.ticket ten id with
  | error e => exact fun _ => h
  | ok t =>
    intro hrefs
    refine ⟨hrefs, ?_, h.externalIDs.keep _, h.messageIDs.keep _, h.names, h.addresses,
      h.storageKeys.keep _, ?_⟩
    · -- an attachment that stays has its comment on a ticket that stays
      intro a ha hne
      obtain ⟨ha, hticket⟩ := Table.mem_keep.mp ha
      obtain ⟨c, hc, hid, hten, htid⟩ := h.commentOf a ha hne
      exact ⟨c, Table.mem_keep.mpr ⟨hc, by rwa [htid]⟩, hid, hten, htid⟩
    · intro x hx
      obtain ⟨hx, hne⟩ := Table.mem_keep.mp hx
      rw [h.counts x hx]
      refine congrArg List.length (Table.filter_filter_of fun c _ hc => ?_).symm
      rw [of_decide_eq_true hc]
      exact hne

end Tickets

section Comments

variable {m : Mem}

theorem length_commentsOf_congr {m' : Mem}
    (h : m'.comments.rows.map Comment.ticketID = m.comments.rows.map Comment.ticketID)
    (tid : GoString) : (commentsOf m' tid).length = (commentsOf m tid).length := by
  have hcount : ∀ m : Mem, (commentsOf m tid).length = (m.comments.rows.map Comment.ticketID).countP
      fun i => i = tid := by
    intro m
    rw [List.countP_map, List.countP_eq_length_filter]
    rfl
  rw [hcount, hcount, h]

theorem length_commentsOf_append {m' : Mem} {c : Comment}
    (h : m'.comments.rows = m.comments.rows ++ [c]) (tid : GoString) :
    (commentsOf m' tid).length = (commentsOf m tid).length + if c.ticketID = tid then 1 else 0 := by
  rw [commentsOf, commentsOf, h, List.filter_append, List.length_append]
  by_cases htid : c.ticketID = tid
  · simp [htid]
  · simp [htid]

theorem length_commentsOf_keep {m' : Mem} {c : Comment} (hc : c ∈ m.comments.rows)
    (h : m'.comments = m.comments.keep fun x => x.id ≠ c.id) (tid : GoString) :
    (commentsOf m tid).length = (commentsOf m' tid).length + if c.ticketID = tid then 1 else 0 := by
  have hkeep : ∀ x, x ∈ m'.comments.rows ↔ x ∈ m.comments.rows ∧ x.id ≠ c.id := by
    intro x
    rw [h, Table.mem_keep, decide_eq_true_eq]
  have hsame : ∀ x ∈ m.comments.rows, x ≠ c → x.id ≠ c.id := fun x hx hne hid =>
    hne (m.comments.eq_of_key hx hc hid)
  by_cases htid : c.ticketID = tid
  · rw [if_pos htid]
    refine Table.length_filter_succ (decide_eq_true htid) (fun hin => ((hkeep c).mp hin).2 rfl)
      fun x _ => ?_
    rw [hkeep]
    constructor
    · intro hx
      by_cases hxc : x = c
      · exact .inl hxc
      · exact .inr ⟨hx, hsame x hx hxc⟩
    · rintro (rfl | hx)
      · exact hc
      · exact hx.1
  · rw [if_neg htid]
    refine Table.length_filter_congr fun x hx => ?_
    rw [hkeep]
    refine ⟨fun hin => ⟨hin, hsame x hin ?_⟩, fun hin => hin.1⟩
    rintro rfl
    exact htid (of_decide_eq_true hx)

variable [GoLibrary]

theorem Represented.createComment (h : Represented m) (now : Time) (c : Comment) :
    Represented (m.createComment now c).2 := by
  have hrefs := referential_createComment now h.toReferential c
  obtain ⟨e, he⟩ | ⟨t, ht, -, htid, hnew, hmsg, heq⟩ := createComment_cases now m c
  · rwa [he]
  · rw [heq] at hrefs ⊢
    have hrows : (m.createComment now c).2.comments.rows = m.comments.rows ++
        [Mem.withCommentDefaults now c] := by
      rw [heq]
      exact Table.put_rows_new hnew
    have hlength := length_commentsOf_append hrows
    rw [heq] at hlength
    refine ⟨hrefs, ?_, ?_, ?_, h.names, h.addresses, h.storageKeys, ?_⟩
    · intro a ha hne
      obtain ⟨x, hx, hxa⟩ := h.commentOf a ha hne
      exact ⟨x, Table.mem_put.mpr (.inr ⟨hx, Table.get?_eq_none.mp hnew x hx⟩), hxa⟩
    · exact h.externalIDs.rewrite ht rfl (fun _ hy => hy.symm) fun y hy => hy
    · refine h.messageIDs.put (fun _ hy => hy.symm) fun x hx _ hxc => ?_
      exact hmsg (hxc.2.1 ▸ hxc.2.2) x hx hxc.1 hxc.2.1
    · intro x hx
      rcases Table.mem_put.mp hx with rfl | ⟨hx, hne⟩
      · have hgrown := hlength t.id
        rw [← h.counts t ht] at hgrown
        exact (hgrown.trans (congrArg _ (if_pos htid.symm))).symm
      · have hsame := hlength x.id
        rw [← h.counts x hx] at hsame
        exact (hsame.trans (congrArg _ (if_neg fun hid => hne (hid.symm.trans htid.symm)))).symm

theorem Represented.setCommentDelivery (h : Represented m) (ten id : GoString) (dl : Delivery) :
    Represented (m.setCommentDelivery ten id dl).2 := by
  have hrefs := referential_setCommentDelivery h.toReferential ten id dl
  unfold Mem.setCommentDelivery at hrefs ⊢
  revert hrefs
  cases hc : m.comment ten id with
  | error e => exact fun _ => h
  | ok c =>
    intro hrefs
    obtain ⟨hmem, -, -⟩ := comment_ok hc
    refine { h with toReferential := hrefs, commentOf := ?_, messageIDs := ?_, counts := ?_ }
    · intro a ha hne
      obtain ⟨x, hx, hid, hown⟩ := h.commentOf a ha hne
      have hkept : ∀ y ∈ m.comments.rows, y.id = c.id →
          (y.tenantID, y.ticketID) = (c.tenantID, c.ticketID) := by
        intro y hy hyc
        rw [m.comments.eq_of_key hy hmem hyc]
      obtain ⟨y, hy, hyx, hrefers⟩ := Table.exists_put (r := { c with delivery := dl })
        (f := fun c : Comment => (c.tenantID, c.ticketID)) hkept hx
      obtain ⟨hten, htid⟩ := Prod.mk.inj hrefers
      exact ⟨y, hy, hyx.trans hid, hten.trans hown.1, htid.trans hown.2⟩
    · exact h.messageIDs.rewrite hmem rfl (fun _ hy => hy.symm) fun y hy => hy
    · intro t ht
      rw [h.counts t ht]
      have hsame : (m.comments.put { c with delivery := dl }).rows.map Comment.ticketID =
          m.comments.rows.map Comment.ticketID :=
        Table.map_put_old (r := { c with delivery := dl }) hmem rfl Comment.ticketID rfl
      exact (length_commentsOf_congr hsame t.id).symm

theorem Represented.deleteComment (h : Represented m) (ten id : GoString) :
    Represented (m.deleteComment ten id).2 := by
  have hrefs := referential_deleteComment h.toReferential ten id
  unfold Mem.deleteComment at hrefs ⊢
  revert hrefs
  cases hc : m.comment ten id with
  | error e => exact fun _ => h
  | ok c =>
    obtain ⟨hmem, -, hcid⟩ := comment_ok hc
    obtain ⟨t, ht, htid, -⟩ := h.comments c hmem
    have hget : m.tickets.get? c.ticketID = some t := Table.get?_eq_some.mpr ⟨ht, htid⟩
    -- the ticket counts the comment that goes
    have hone : ∀ tid, _ = (commentsOf { m with comments := m.comments.keep fun x => x.id ≠ id }
        tid).length + _ :=
      length_commentsOf_keep hmem (by rw [hcid])
    have hpos : t.commentCount > 0 := by
      rw [h.counts t ht, hone, if_pos htid.symm]
      exact Nat.succ_pos _
    simp only [hget, if_pos hpos]
    intro hrefs
    refine ⟨hrefs, ?_, ?_, h.messageIDs.keep _, h.names, h.addresses, h.storageKeys.keep _, ?_⟩
    · intro a ha hne
      obtain ⟨ha, hcomment⟩ := Table.mem_keep.mp ha
      obtain ⟨x, hx, hid, hown⟩ := h.commentOf a ha hne
      exact ⟨x, Table.mem_keep.mpr ⟨hx, by rwa [hid]⟩, hid, hown⟩
    · exact h.externalIDs.rewrite ht rfl (fun _ hy => hy.symm) fun y hy => hy
    · intro x hx
      rcases Table.mem_put.mp hx with rfl | ⟨hx, hne⟩
      · have hcount := h.counts t ht
        rw [hone, if_pos htid.symm] at hcount
        exact Nat.sub_eq_of_eq_add hcount
      · have hcount := h.counts x hx
        rwa [hone, if_neg fun hid => hne (hid.symm.trans htid.symm)] at hcount

theorem Represented.createAttachment (h : Represented m) (now : Time) (a : Attachment) :
    Represented (m.createAttachment now a).2 := by
  have hrefs := referential_createAttachment now h.toReferential a
  unfold Mem.createAttachment at hrefs ⊢
  revert hrefs
  cases m.ticket a.tenantID a.ticketID with
  | error e => exact fun _ => h
  | ok t =>
    dsimp only
    split_ifs with hcomment hid hkey
    · exact fun _ => h
    · exact fun _ => h
    · exact fun _ => h
    · intro hrefs
      refine { h with toReferential := hrefs, commentOf := ?_, storageKeys := ?_ }
      · intro x hx hne
        rcases Table.mem_put.mp hx with rfl | ⟨hx, -⟩
        · have hany : (m.comments.get? a.commentID).any
              (fun c => c.tenantID = a.tenantID ∧ c.ticketID = a.ticketID) = true := by
            by_contra hno
            exact hcomment ⟨hne, hno⟩
          obtain ⟨c, hc, hcid, hown⟩ := Table.any_get?.mp hany
          exact ⟨c, hc, hcid, of_decide_eq_true hown⟩
        · exact h.commentOf x hx hne
      · refine h.storageKeys.put (fun _ hy => hy.symm) fun x hx _ hxa => hkey ?_
        exact List.any_eq_true.mpr ⟨x, hx, decide_eq_true hxa⟩

theorem Represented.deleteAttachmentsByTicket (h : Represented m) (ten tid : GoString) :
    Represented (m.deleteAttachmentsByTicket ten tid).2 := by
  refine { h with
    toReferential := ?_
    commentOf := fun a ha => h.commentOf a (Table.mem_keep.mp ha).1
    storageKeys := h.storageKeys.keep _ }
  exact h.toReferential.of_subset rfl rfl h.comments (fun a ha => (Table.mem_keep.mp ha).1)
    (List.Subset.refl _)
    (List.Subset.refl _) fun _ _ hx => hx

end Comments

section Vocabulary

variable [GoLibrary] {m : Mem}

theorem apart_put_tag (h : m.tags.Apart sameName) {g : Tag} (hfree : m.tagConflict g = false) :
    (m.tags.put g).Apart sameName := by
  refine h.put (fun _ hy => hy.symm) fun x hx hid hname => ?_
  rw [Mem.tagConflict, List.any_eq_false] at hfree
  exact hfree x hx (decide_eq_true ⟨hid, hname.1, hname.2.1, hname.2.2⟩)

theorem Represented.createTag (h : Represented m) (now : Time) (g : Tag) :
    Represented (m.createTag now g).2 := by
  have hrefs := referential_createTag now h.toReferential g
  unfold Mem.createTag at hrefs ⊢
  generalize (if g.kind = .unset then Kind.tag else g.kind) = kind at hrefs ⊢
  dsimp only at hrefs ⊢
  split_ifs at hrefs ⊢ with hold
  · exact h
  · refine { h with toReferential := hrefs, names := apart_put_tag h.names ?_ }
    exact Bool.eq_false_iff.mpr fun hconflict => hold (.inr hconflict)

theorem Represented.updateTag (h : Represented m) (g : Tag) : Represented (m.updateTag g).2 := by
  have hrefs := referential_updateTag h.toReferential g
  unfold Mem.updateTag at hrefs ⊢
  revert hrefs
  cases m.tag g.tenantID g.id with
  | error e => exact fun _ => h
  | ok cur =>
    dsimp only
    split_ifs with hold
    · exact fun _ => h
    · exact fun hrefs =>
        { h with
          toReferential := hrefs,
          names := apart_put_tag h.names (Bool.eq_false_iff.mpr hold) }

theorem Represented.deleteTag (h : Represented m) (ten id : GoString) :
    Represented (m.deleteTag ten id).2 := by
  have hrefs := referential_deleteTag h.toReferential ten id
  unfold Mem.deleteTag at hrefs ⊢
  revert hrefs
  cases m.tag ten id with
  | error e => exact fun _ => h
  | ok g => exact fun hrefs => { h with toReferential := hrefs, names := h.names.keep _ }

theorem Represented.addTicketTags (h : Represented m) (ten tid : GoString) (ids : List GoString) :
    Represented (m.addTicketTags ten tid ids).2 := by
  have hrefs := referential_addTicketTags h.toReferential ten tid ids
  unfold Mem.addTicketTags at hrefs ⊢
  revert hrefs
  cases m.checkTags ten tid ids with
  | error e => exact fun _ => h
  | ok _ => exact fun hrefs => { h with toReferential := hrefs }

theorem Represented.setTicketTags (h : Represented m) (ten tid : GoString) (ids : List GoString) :
    Represented (m.setTicketTags ten tid ids).2 := by
  unfold Mem.setTicketTags
  cases hc : m.checkTags ten tid ids with
  | error e => exact h
  | ok _ =>
    obtain ⟨hticket, htags⟩ := checkTags_ok_iff.mp hc
    refine { h with toReferential := { h.toReferential with links := fun l hl => ?_ } }
    rcases (mem_addLinks tid ids _ l).mp hl with hl | ⟨rfl, hg⟩
    · exact h.links l (List.mem_filter.mp hl).1
    · exact ⟨ten, hticket, htags _ hg⟩

theorem Represented.deleteMailbox (h : Represented m) (ten id : GoString) (force : Bool) :
    Represented (m.deleteMailbox ten id force).2 := by
  have hrefs := referential_deleteMailbox h.toReferential ten id force
  have haddr := h.addresses.performStore 0 [] (.deleteMailbox ten id force)
  rw [performStore] at haddr
  unfold Mem.deleteMailbox at hrefs haddr ⊢
  revert hrefs haddr
  cases m.mailbox ten id with
  | error e => exact fun _ _ => h
  | ok mb =>
    dsimp only
    split_ifs
    · exact fun _ _ => h
    · intro hrefs haddr
      refine { h with toReferential := hrefs, addresses := haddr, externalIDs := ?_, counts := ?_ }
      · apply h.externalIDs.amend
        · exact fun _ => rfl
        · exact fun _ _ hxy => hxy
      · intro t ht
        obtain ⟨t₀, ht₀, rfl⟩ := List.mem_map.mp ht
        exact h.counts t₀ ht₀

theorem Represented.appendHistory (h : Represented m) (now : Time) (x : History) :
    Represented (m.appendHistory now x).2 := by
  have hrefs := referential_appendHistory now h.toReferential x
  obtain ⟨e, he⟩ | ⟨t, -, -, -, heq⟩ := appendHistory_cases now m x
  · rwa [he]
  · rw [heq] at hrefs ⊢
    exact { h with toReferential := hrefs }

theorem Represented.frame {m' : Mem} (h : Represented m) (hrefs : Referential m')
    (haddr : UniqueAddresses m') (htickets : m'.tickets = m.tickets)
    (hcomments : m'.comments = m.comments) (hattachments : m'.attachments = m.attachments)
    (htags : m'.tags = m.tags) : Represented m' := by
  refine ⟨hrefs, ?_, htickets ▸ h.externalIDs, hcomments ▸ h.messageIDs, htags ▸ h.names, haddr,
    hattachments ▸ h.storageKeys, ?_⟩
  · rw [hattachments, hcomments]
    exact h.commentOf
  · rw [htickets]
    unfold commentsOf
    rw [hcomments]
    exact h.counts

end Vocabulary

section Runs

variable [GoLibrary] {m : Mem}

theorem Represented.performStore (h : Represented m) (now : Time) (id : GoString) {q : StoreCall}
    (hq : ∀ t, q = .createTicket t → t.commentCount = 0) : Represented (performStore now id m q).2 := by
  have hrefs := referential_performStore now id h.toReferential q
  have haddr := h.addresses.performStore now id q
  cases q with
  | createTicket t => exact h.createTicket now (hq t rfl)
  | updateTicket ten i p at_ =>
    exact h.modifyTicket ten i (f := fun t => t.withPatch (orNow at_ now) p)
      (fun _ => ⟨rfl, rfl, rfl⟩) fun _ => ⟨rfl, rfl⟩
  | setAssignee ten i a n at_ =>
    exact h.modifyTicket ten i (f := fun t => t.withAssignee (orNow at_ now) a n)
      (fun _ => ⟨rfl, rfl, rfl⟩) fun _ => ⟨rfl, rfl⟩
  | setStatus ten i s at_ =>
    exact h.modifyTicket ten i (f := fun t => t.withStatus (orNow at_ now) s)
      (fun _ => ⟨rfl, rfl, rfl⟩) fun _ => ⟨rfl, rfl⟩
  | deleteTicket ten i => exact h.deleteTicket ten i
  | createComment c => exact h.createComment now c
  | setCommentDelivery ten i dl => exact h.setCommentDelivery ten i dl
  | deleteComment ten i => exact h.deleteComment ten i
  | createAttachment a => exact h.createAttachment now a
  | appendHistory row => exact h.appendHistory now row
  | createTag g => exact h.createTag now g
  | updateTag g => exact h.updateTag g
  | deleteTag ten i => exact h.deleteTag ten i
  | ensureTagByName ten k n =>
    simp only [Services.performStore, Mem.ensureTagByName]
    split
    · exact h
    · exact h.createTag now _
  | addTicketTags ten tid ids => exact h.addTicketTags ten tid ids
  | deleteMailbox ten i force => exact h.deleteMailbox ten i force
  | createMailbox | updateMailbox | createRule | updateRule | deleteRule | findTicketByExternalID
  | findCommentByMessageID
  | getAttachment | routeMailbox =>
    refine h.frame hrefs haddr ?_ ?_ ?_ ?_ <;>
    · simp only [Services.performStore, Mem.createMailbox, Mem.updateMailbox, Mem.createRule,
        Mem.updateRule, Mem.deleteRule, Mem.findTicketByExternalID, Mem.findCommentByMessageID,
        Mem.getAttachment, Mem.routeMailbox]
      repeat' split
      all_goals rfl
  | _ => exact h

def Refusing {α : Type} (m : Mem) (r : Except RepoErr α × Mem) : Prop := ∀ e, r.1 = .error e → r.2 = m

omit [GoLibrary] in
theorem refusing_error {α : Type} (e : RepoErr) :
    Refusing m ((.error e, m) : Except RepoErr α × Mem) := fun _ _ => rfl

omit [GoLibrary] in
theorem refusing_ok {α : Type} (a : α) (m' : Mem) :
    Refusing m ((.ok a, m') : Except RepoErr α × Mem) := nofun

omit [GoLibrary] in
theorem Refusing.map {α β : Type} {r : Except RepoErr α × Mem} (h : Refusing m r) (f : α → β) :
    Refusing m (r.1.map f, r.2) := by
  intro e he
  cases hr : r.1 with
  | ok a =>
    rw [hr] at he
    cases he
  | error e' => exact h e' hr

theorem refusing_createTag (now : Time) (g : Tag) : Refusing m (m.createTag now g) := by
  unfold Mem.createTag
  generalize (if g.kind = .unset then Kind.tag else g.kind) = kind
  dsimp only
  split
  · exact refusing_error _
  · exact refusing_ok _ _

theorem refusing_performStore (now : Time) (id : GoString) (q : StoreCall) :
    Refusing m (Services.performStore now id m q) := by
  cases q with
  | createTag g => exact refusing_createTag now g
  | ensureTagByName ten k n =>
    simp only [Services.performStore, Mem.ensureTagByName]
    split
    · exact refusing_ok _ _
    · exact (refusing_createTag now _).map _
  | getTicket ten i | getComment ten i | getTag ten i | getRule ten i | getMailbox ten i =>
    exact fun _ _ => rfl
  | listAttachments | listTags | tagsForTickets | listRules | listEnabledRules | listMailboxes
  | allTickets =>
    exact refusing_ok _ _
  | _ =>
    simp only [Services.performStore, Mem.createTicket, Mem.updateTicket, Mem.setAssignee,
      Mem.setStatus, Mem.modifyTicket, Mem.deleteTicket, Mem.createComment, Mem.setCommentDelivery,
      Mem.deleteComment, Mem.createAttachment, Mem.updateTag, Mem.deleteTag, Mem.addTicketTags,
      Mem.createRule, Mem.updateRule, Mem.deleteRule, Mem.createMailbox, Mem.updateMailbox,
      Mem.deleteMailbox, Mem.appendHistory, Mem.findTicketByExternalID, Mem.findCommentByMessageID,
      Mem.getAttachment, Mem.routeMailbox]
    repeat' split
    all_goals first | exact refusing_error _ | exact refusing_ok _ _

/-- Tickets are created without comments counted. -/
def MemOp.CreatesUncounted (op : MemOp) : Prop :=
  ∀ now id t, op = .call now id (.createTicket t) → t.commentCount = 0

theorem Represented.perform {s : MemState} (h : Represented s.mem) {op : MemOp}
    (hop : op.CreatesUncounted) :
    Represented (s.perform op).2.mem := by
  cases op with
  | call now id q => exact h.performStore now id fun t hq => hop now id t (by rw [hq])
  | setTicketTags ten tid ids => exact h.setTicketTags ten tid ids
  | deleteAttachmentsByTicket ten tid => exact h.deleteAttachmentsByTicket ten tid
  | failNext _ | lastMessageID _ _ | appendAudit _ | read _ => exact h

theorem run_cases (s : MemState) (op : MemOp) :
    (∃ method ∈ op.methods, method ∈ s.failNext ∧
        s.run op = (some .failure, { s with failNext := s.failNext.filter (· ≠ method) })) ∨
      s.run op = s.perform op := by
  unfold MemState.run
  cases hfind : op.methods.find? (· ∈ s.failNext) with
  | none => exact .inr rfl
  | some method =>
    have harmed := List.find?_some hfind
    exact .inl ⟨method, List.mem_of_find?_eq_some hfind, of_decide_eq_true harmed, rfl⟩

theorem Represented.run {s : MemState} (h : Represented s.mem) {op : MemOp} (hop : op.CreatesUncounted) :
    Represented (s.run op).2.mem := by
  obtain ⟨method, -, -, hrun⟩ | hrun := run_cases s op
  · rwa [hrun]
  · rw [hrun]
    exact h.perform hop

omit [GoLibrary] in
theorem mutate_error {α : Type} {s : MemState} {r : Except RepoErr α × Mem}
    (hr : Refusing s.mem r) {e : RepoErr} (h : (s.mutate r).1 = some e) : (s.mutate r).2 = s := by
  unfold MemState.mutate at h ⊢
  cases hres : r.1 with
  | ok a =>
    rw [hres] at h
    cases h
  | error e' =>
    dsimp only
    rw [hr e' hres]

theorem perform_error {s : MemState} {op : MemOp} {e : RepoErr} (h : (s.perform op).1 = some e) :
    (s.perform op).2 = s := by
  cases op with
  | call now id q => exact mutate_error (refusing_performStore now id q) h
  | setTicketTags ten tid ids =>
    refine mutate_error ?_ h
    unfold Mem.setTicketTags
    split
    · exact refusing_error _
    · exact refusing_ok _ _
  | deleteAttachmentsByTicket ten tid => exact mutate_error (refusing_ok _ _) h
  | lastMessageID ten tid => rfl
  | failNext _ | appendAudit _ | read _ => cases h

/-- In every state of the store, whatever was called to reach it, its rows refer to each other
within one tenant, are unique, and are counted. A method that returns an error leaves the rows and
the audit trail as they were, and the whole state unless the error is an armed failure, which it
disarms. -/
theorem store_representation {s : MemState}
    (h : Machine.Reach (fun s op => some (MemState.run s op).2) (fun _ op => op.CreatesUncounted) {} s) :
    Represented s.mem ∧ ∀ op e, (s.run op).1 = some e →
      (s.run op).2.mem = s.mem ∧ (s.run op).2.audit = s.audit ∧
      ((∀ method ∈ op.methods, method ∉ s.failNext) → (s.run op).2 = s) := by
  constructor
  · refine h.invariant (I := fun s => Represented s.mem) represented_empty fun s op s' hs hop hnext => ?_
    obtain rfl := Option.some.inj hnext
    exact hs.run hop
  · intro op e he
    obtain ⟨method, hmem, harmed, hrun⟩ | hrun := run_cases s op
    · rw [hrun]
      exact ⟨rfl, rfl, fun hnone => absurd harmed (hnone method hmem)⟩
    · rw [hrun] at he ⊢
      rw [perform_error he]
      exact ⟨rfl, rfl, fun _ => rfl⟩

end Runs

theorem reach_foldl [GoLibrary] {ops : List MemOp} (hops : ∀ op ∈ ops, op.CreatesUncounted)
    {s₀ s : MemState} (h : Machine.Reach (fun s op => some (MemState.run s op).2)
      (fun _ op => op.CreatesUncounted) s₀ s) :
    Machine.Reach (fun s op => some (MemState.run s op).2) (fun _ op => op.CreatesUncounted) s₀
      (ops.foldl (fun s op => (s.run op).2) s) := by
  induction ops generalizing s with
  | nil => exact h
  | cons op ops ih =>
    obtain ⟨hop, hrest⟩ := List.forall_mem_cons.mp hops
    exact ih hrest (h.step hop rfl)

def deskOps : List MemOp :=
  [.call 1 [] (.createMailbox { id := "m", tenantID := "a", address := "Desk@example.org" }),
    .call 2 [] (.createTicket { id := "t", tenantID := "a", mailboxID := "m", externalID := "x" }),
    .call 3 [] (.createComment { id := "c", tenantID := "a", ticketID := "t", messageID := "1" }),
    .call 4 [] (.createComment { id := "d", tenantID := "a", ticketID := "t", messageID := "2" }),
    .call 5 [] (.createAttachment
      { id := "f", tenantID := "a", ticketID := "t", commentID := "d", storageKey := "k" }),
    .call 6 "g" (.ensureTagByName "a" .unset "Billing"),
    .setTicketTags "a" "t" ["g"],
    .call 7 [] (.deleteComment "a" "c")]

theorem desk_is_represented :
    letI := asciiLibrary
    let s := deskOps.foldl (fun s op => (MemState.run s op).2) {}
    let again : MemOp := .call 8 []
      (.createMailbox { id := "n", tenantID := "b", address := " desk@example.org" })
    Represented s.mem ∧ s.mem.tickets.rows.map (·.commentCount) = [1] ∧ (s.run again).1 = some .conflict ∧
      (s.run again).2.mem = s.mem := by
  let := asciiLibrary
  intro s again
  have huncounted : ∀ op ∈ deskOps, op.CreatesUncounted := by
    simp [deskOps, MemOp.CreatesUncounted]
  have hconflict : (s.run again).1 = some .conflict := by decide +kernel
  obtain ⟨hrepresented, hrefused⟩ := store_representation (reach_foldl huncounted .refl)
  exact ⟨hrepresented, by decide +kernel, hconflict, (hrefused again .conflict hconflict).1⟩

end TangraTicket.Services
