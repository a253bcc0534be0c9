import TangraTicket.Services.Tickets

/-!
What the calls of the store do to the ticket table and to the history: five calls write them, every
other one leaves a ticket's core and the history as they were.
-/

namespace TangraTicket.Store

open GoText KeyedTable

def Ticket.core (t : Ticket) : Ticket :=
  { t with commentCount := 0, lastMessageID := [], updatedAt := 0, mailboxID := [] }

end TangraTicket.Store

namespace TangraTicket.Services

open GoText Store KeyedTable CallProgram

def recordedFields : List Field := [.status, .priority, .assignee]

/-- The recorded changes of field `f` of ticket `id`, in append order. -/
def changes (m : Mem) (id : GoString) (f : Field) : List (GoString × GoString) :=
  (m.history.filter (fun h => h.ticketID = id ∧ h.field = f)).map (fun h => (h.oldValue, h.newValue))

theorem changes_append (m : Mem) (id : GoString) (f : Field) (h : History) :
    changes { m with history := m.history ++ [h] } id f =
      changes m id f ++ if h.ticketID = id ∧ h.field = f then [(h.oldValue, h.newValue)] else [] := by
  by_cases hc : h.ticketID = id ∧ h.field = f <;> simp [changes, hc]

def StoreCall.neutral : StoreCall → Bool
  | .createTicket .. | .updateTicket .. | .setAssignee .. | .setStatus .. | .deleteTicket ..
  | .appendHistory .. =>
    false
  | _ => true

/-- The same tickets up to their cores, and the same history. -/
def SameCores (m m' : Mem) : Prop :=
  m'.tickets.rows.map Ticket.core = m.tickets.rows.map Ticket.core ∧ m'.history = m.history

theorem SameCores.refl (m : Mem) : SameCores m m := ⟨rfl, rfl⟩

theorem SameCores.ids {m m' : Mem} (h : SameCores m m') :
    m'.tickets.rows.map Ticket.id = m.tickets.rows.map Ticket.id := by
  have hids := congrArg (List.map Ticket.id) h.1
  rwa [List.map_map, List.map_map] at hids

theorem valueOf_core (f : Field) (t : Ticket) : f.valueOf t.core = f.valueOf t := by cases f <;> rfl

theorem ticket_ok {m : Mem} {ten id : GoString} {t : Ticket} (h : m.ticket ten id = .ok t) :
    t ∈ m.tickets.rows ∧ t.tenantID = ten ∧ t.id = id := by
  unfold Mem.ticket at h
  split at h
  · rename_i x hx
    obtain rfl := Except.ok.inj h
    obtain ⟨hg, hten⟩ := Option.filter_eq_some_iff.mp hx
    obtain ⟨hmem, hid⟩ := Table.get?_eq_some.mp hg
    exact ⟨hmem, by simpa using hten, hid⟩
  · cases h

theorem ticket_eq_ok {m : Mem} {ten id : GoString} {t : Ticket} (ht : t ∈ m.tickets.rows)
    (hten : t.tenantID = ten) (hid : t.id = id) : m.ticket ten id = .ok t := by
  have hrow : (m.tickets.get? id).filter (fun t => t.tenantID = ten) = some t :=
    Option.filter_eq_some_iff.mpr ⟨Table.get?_eq_some.mpr ⟨ht, hid⟩, by simpa using hten⟩
  rw [Mem.ticket, hrow]

theorem comment_ok {m : Mem} {ten id : GoString} {c : Comment} (h : m.comment ten id = .ok c) :
    c ∈ m.comments.rows ∧ c.tenantID = ten ∧ c.id = id := by
  unfold Mem.comment at h
  split at h
  · rename_i x hx
    obtain rfl := Except.ok.inj h
    obtain ⟨hg, hten⟩ := Option.filter_eq_some_iff.mp hx
    obtain ⟨hmem, hid⟩ := Table.get?_eq_some.mp hg
    exact ⟨hmem, by simpa using hten, hid⟩
  · cases h

theorem rule_ok {m : Mem} {ten id : GoString} {r : Rule} (h : m.rule ten id = .ok r) :
    r ∈ m.rules.rows ∧ r.tenantID = ten ∧ r.id = id := by
  unfold Mem.rule at h
  split at h
  · rename_i x hx
    obtain rfl := Except.ok.inj h
    obtain ⟨hmem, hid, hten⟩ := Table.filter_get?_eq_some.mp hx
    exact ⟨hmem, of_decide_eq_true hten, hid⟩
  · cases h

theorem modifyTicket_cases (m : Mem) (ten id : GoString) (f : Ticket → Ticket) :
    (∃ e, m.modifyTicket ten id f = (.error e, m)) ∨
      ∃ t ∈ m.tickets.rows, t.tenantID = ten ∧ t.id = id ∧
        m.modifyTicket ten id f = (.ok (f t), { m with tickets := m.tickets.put (f t) }) := by
  unfold Mem.modifyTicket
  cases ht : m.ticket ten id with
  | error e => exact .inl ⟨e, rfl⟩
  | ok t =>
    obtain ⟨hmem, hten, hid⟩ := ticket_ok ht
    exact .inr ⟨t, hmem, hten, hid, rfl⟩

theorem createTicket_cases (now : Time) (m : Mem) (t : Ticket) :
    (∃ e, m.createTicket now t = (.error e, m)) ∨
      (m.tickets.get? t.id = none ∧
        (t.externalID ≠ [] → ∀ x ∈ m.tickets.rows, x.tenantID = t.tenantID → x.externalID ≠ t.externalID) ∧
        m.createTicket now t = (.ok (), { m with tickets := m.tickets.put (Mem.withDefaults now t) })) := by
  unfold Mem.createTicket
  split
  · exact .inl ⟨_, rfl⟩
  · split
    · exact .inl ⟨_, rfl⟩
    · split
      · exact .inl ⟨_, rfl⟩
      · rename_i hid hext _
        refine .inr ⟨by simpa using hid, fun hne x hx hten heq => hext ⟨hne, ?_⟩, rfl⟩
        exact List.any_eq_true.mpr ⟨x, hx, by simp [hten, heq]⟩

theorem createComment_cases (now : Time) (m : Mem) (c : Comment) :
    (∃ e, m.createComment now c = (.error e, m)) ∨
      ∃ t ∈ m.tickets.rows, t.tenantID = c.tenantID ∧ t.id = c.ticketID ∧ m.comments.get? c.id = none ∧
        (c.messageID ≠ [] → ∀ x ∈ m.comments.rows, x.tenantID = c.tenantID → x.messageID ≠ c.messageID) ∧
        m.createComment now c = (.ok (),
          { m with
            comments := m.comments.put (Mem.withCommentDefaults now c)
            tickets := m.tickets.put (t.withComment (Mem.withCommentDefaults now c)) }) := by
  unfold Mem.createComment
  cases ht : m.ticket c.tenantID c.ticketID with
  | error e => exact .inl ⟨e, rfl⟩
  | ok t =>
    obtain ⟨hmem, hten, hid⟩ := ticket_ok ht
    dsimp only
    split
    · exact .inl ⟨_, rfl⟩
    · split
      · exact .inl ⟨_, rfl⟩
      · rename_i hnew hmsg
        refine .inr ⟨t, hmem, hten, hid, by simpa using hnew, fun hne x hx hxten heq => hmsg ⟨hne, ?_⟩, rfl⟩
        exact List.any_eq_true.mpr ⟨x, hx, by simp [hxten, heq]⟩

theorem createComment_ok (now : Time) {m : Mem} {c : Comment} {t : Ticket} (ht : t ∈ m.tickets.rows)
    (hten : t.tenantID = c.tenantID) (hid : t.id = c.ticketID) (hnew : m.comments.get? c.id = none)
    (hmsg : c.messageID ≠ [] → ∀ x ∈ m.comments.rows, x.tenantID = c.tenantID → x.messageID ≠ c.messageID) :
    m.createComment now c = (.ok (),
      { m with
        comments := m.comments.put (Mem.withCommentDefaults now c)
        tickets := m.tickets.put (t.withComment (Mem.withCommentDefaults now c)) }) := by
  have hunused : ¬ (c.messageID ≠ [] ∧
      m.comments.rows.any (fun x => x.tenantID = c.tenantID ∧ x.messageID = c.messageID)) := by
    rintro ⟨hne, hany⟩
    obtain ⟨x, hx, hsame⟩ := List.any_eq_true.mp hany
    have hpair : x.tenantID = c.tenantID ∧ x.messageID = c.messageID := of_decide_eq_true hsame
    exact hmsg hne x hx hpair.1 hpair.2
  rw [Mem.createComment, ticket_eq_ok ht hten hid]
  dsimp only
  rw [if_neg (by simp [hnew]), if_neg hunused]

theorem createComment_conflict {now : Time} {m m' : Mem} {c : Comment} (hnew : m.comments.get? c.id = none)
    (h : m.createComment now c = (.error .conflict, m')) :
    ∃ x ∈ m.comments.rows, x.tenantID = c.tenantID ∧ x.messageID = c.messageID := by
  unfold Mem.createComment Mem.ticket at h
  split at h
  · rename_i e ht
    split at ht
    · cases ht
    · cases ht
      cases h
  · rw [if_neg (by simp [hnew])] at h
    split at h
    · rename_i hmsg
      obtain ⟨x, hx, hxc⟩ := List.any_eq_true.mp hmsg.2
      exact ⟨x, hx, by simpa using hxc⟩
    · cases h

theorem appendHistory_eq (now : Time) {m : Mem} {h : History} {t : Ticket} (ht : t ∈ m.tickets.rows)
    (hten : t.tenantID = h.tenantID) (hid : t.id = h.ticketID) :
    m.appendHistory now h =
      (.ok (), { m with history := m.history ++ [{ h with createdAt := orNow h.createdAt now }] }) := by
  rw [Mem.appendHistory, ticket_eq_ok ht hten hid]

theorem appendHistory_cases (now : Time) (m : Mem) (h : History) :
    (∃ e, m.appendHistory now h = (.error e, m)) ∨
      ∃ t ∈ m.tickets.rows, t.tenantID = h.tenantID ∧ t.id = h.ticketID ∧
        m.appendHistory now h =
          (.ok (), { m with history := m.history ++ [{ h with createdAt := orNow h.createdAt now }] }) := by
  unfold Mem.appendHistory
  cases ht : m.ticket h.tenantID h.ticketID with
  | error e => exact .inl ⟨e, rfl⟩
  | ok t =>
    obtain ⟨hmem, hten, hid⟩ := ticket_ok ht
    exact .inr ⟨t, hmem, hten, hid, rfl⟩

def FieldWrite.apply (at_ : Time) (t : Ticket) : FieldWrite → Ticket
  | .status s => t.withStatus at_ s
  | .assignee id name => t.withAssignee at_ id name
  | .patch p => t.withPatch at_ p

@[simp] theorem apply_id (at_ : Time) (t : Ticket) (w : FieldWrite) : (w.apply at_ t).id = t.id := by
  cases w <;> rfl

@[simp] theorem apply_tenantID (at_ : Time) (t : Ticket) (w : FieldWrite) :
    (w.apply at_ t).tenantID = t.tenantID := by
  cases w <;> rfl

theorem valueOf_apply {f : Field} {w : FieldWrite} (hf : f ≠ w.field) (at_ : Time) (t : Ticket) :
    f.valueOf (w.apply at_ t) = f.valueOf t := by
  cases w <;> cases f <;> first | rfl | exact absurd rfl hf

theorem createComment_sameCores (now : Time) (m : Mem) (c : Comment) :
    SameCores m (m.createComment now c).2 := by
  obtain ⟨e, he⟩ | ⟨t, ht, -, -, -, -, heq⟩ := createComment_cases now m c
  · rw [he]
    exact .refl m
  · rw [heq]
    refine ⟨Table.map_put_old ht ?_ Ticket.core ?_, rfl⟩ <;> rfl

theorem deleteComment_sameCores (m : Mem) (ten id : GoString) : SameCores m (m.deleteComment ten id).2 := by
  unfold Mem.deleteComment
  cases m.comment ten id with
  | error e => exact .refl m
  | ok c =>
    refine ⟨?_, rfl⟩
    dsimp only
    cases hg : m.tickets.get? c.ticketID with
    | none => rfl
    | some t =>
      obtain ⟨hmem, -⟩ := Table.get?_eq_some.mp hg
      dsimp only
      split
      · refine Table.map_put_old hmem ?_ Ticket.core ?_ <;> rfl
      · rfl

theorem deleteMailbox_sameCores (m : Mem) (ten id : GoString) (force : Bool) :
    SameCores m (m.deleteMailbox ten id force).2 := by
  unfold Mem.deleteMailbox
  split
  · exact .refl m
  · split
    · exact .refl m
    · exact ⟨by simp only [Table.amend, List.map_map]; rfl, rfl⟩

theorem neutral_sameCores [GoLibrary] (now : Time) (id : GoString) (m : Mem) {q : StoreCall}
    (hq : q.neutral) :
    SameCores m (performStore now id m q).2 := by
  cases q with
  | createComment c => exact createComment_sameCores now m c
  | deleteComment ten i => exact deleteComment_sameCores m ten i
  | deleteMailbox ten i force => exact deleteMailbox_sameCores m ten i force
  | createTicket | updateTicket | setAssignee | setStatus | deleteTicket | appendHistory => cases hq
  | findTicketByExternalID | findCommentByMessageID | getAttachment | routeMailbox | setCommentDelivery
  | createAttachment | createTag | updateTag | deleteTag | addTicketTags | createRule | updateRule
  | deleteRule
  | createMailbox | updateMailbox =>
    simp only [performStore, Mem.findTicketByExternalID, Mem.findCommentByMessageID, Mem.getAttachment,
      Mem.routeMailbox, Mem.setCommentDelivery, Mem.createAttachment, Mem.createTag, Mem.updateTag,
      Mem.deleteTag, Mem.addTicketTags, Mem.createRule, Mem.updateRule, Mem.deleteRule,
      Mem.createMailbox, Mem.updateMailbox]
    repeat' split
    all_goals exact ⟨rfl, rfl⟩
  | ensureTagByName ten k n =>
    simp only [performStore, Mem.ensureTagByName, Mem.createTag]
    repeat' split
    all_goals exact ⟨rfl, rfl⟩
  | _ => exact .refl m

def Rules.writesRules : StoreCall → Bool
  | .createRule .. | .updateRule .. | .deleteRule .. => true
  | _ => false

def writesMailboxes : StoreCall → Bool
  | .createMailbox .. | .updateMailbox .. | .deleteMailbox .. => true
  | _ => false

theorem rules_and_mailboxes_performStore [GoLibrary] (now : Time) (id : GoString) (m : Mem)
    (q : StoreCall) :
    (Rules.writesRules q = false → (performStore now id m q).2.rules = m.rules) ∧
      (writesMailboxes q = false → (performStore now id m q).2.mailboxes = m.mailboxes) := by
  cases q with
  | createRule | updateRule | deleteRule =>
    refine ⟨fun h => (by cases h), fun _ => ?_⟩
    simp only [performStore, Mem.createRule, Mem.updateRule, Mem.deleteRule]
    split <;> rfl
  | createMailbox | updateMailbox | deleteMailbox =>
    refine ⟨fun _ => ?_, fun h => by cases h⟩
    simp only [performStore, Mem.createMailbox, Mem.updateMailbox, Mem.deleteMailbox]
    repeat' split
    all_goals rfl
  | updateTicket | setAssignee | setStatus =>
    simp only [performStore, Mem.updateTicket, Mem.setAssignee, Mem.setStatus, Mem.modifyTicket]
    split <;> exact ⟨fun _ => rfl, fun _ => rfl⟩
  | createTicket | findTicketByExternalID | findCommentByMessageID | getAttachment | routeMailbox
  | setCommentDelivery | createTag | updateTag | deleteTag | addTicketTags | appendHistory | createComment
  | createAttachment | deleteTicket | deleteComment =>
    simp only [performStore, Mem.createTicket, Mem.findTicketByExternalID, Mem.findCommentByMessageID,
      Mem.getAttachment, Mem.routeMailbox, Mem.setCommentDelivery, Mem.createTag, Mem.updateTag,
      Mem.deleteTag, Mem.addTicketTags, Mem.appendHistory, Mem.createComment, Mem.createAttachment,
      Mem.deleteTicket, Mem.deleteComment]
    repeat' split
    all_goals exact ⟨fun _ => rfl, fun _ => rfl⟩
  | ensureTagByName ten k n =>
    simp only [performStore, Mem.ensureTagByName, Mem.createTag]
    repeat' split
    all_goals exact ⟨fun _ => rfl, fun _ => rfl⟩
  | _ => exact ⟨fun _ => rfl, fun _ => rfl⟩

theorem Rules.rules_performStore [GoLibrary] (now : Time) (id : GoString) (m : Mem) {q : StoreCall}
    (hq : writesRules q = false) : (performStore now id m q).2.rules = m.rules :=
  (rules_and_mailboxes_performStore now id m q).1 hq

theorem mailboxes_performStore [GoLibrary] (now : Time) (id : GoString) (m : Mem) {q : StoreCall}
    (hq : writesMailboxes q = false) : (performStore now id m q).2.mailboxes = m.mailboxes :=
  (rules_and_mailboxes_performStore now id m q).2 hq

end TangraTicket.Services
