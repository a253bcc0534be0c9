import TangraTicket.Services.Frames

/-!
The reference from a comment to its ticket: every call of the store keeps it within one tenant.
-/

namespace TangraTicket.Services

open GoText Store KeyedTable CallProgram

/-- Every comment is on a ticket of its own tenant. -/
def Owned (m : Mem) : Prop :=
  ∀ c ∈ m.comments.rows, ∃ t ∈ m.tickets.rows, t.id = c.ticketID ∧ t.tenantID = c.tenantID

theorem owned_empty : Owned {} := fun _ hc => absurd hc List.not_mem_nil

theorem Owned.of_same {m m' : Mem} (h : Owned m) (hcomments : m'.comments = m.comments)
    (htickets : m'.tickets.rows.map (fun t => (t.id, t.tenantID)) = m.tickets.rows.map fun t =>
    (t.id, t.tenantID)) :
    Owned m' := by
  intro c hc
  rw [hcomments] at hc
  obtain ⟨t, ht, hid, hten⟩ := h c hc
  have hmem : (t.id, t.tenantID) ∈ m'.tickets.rows.map fun t => (t.id, t.tenantID) := by
    rw [htickets]
    exact List.mem_map.mpr ⟨t, ht, rfl⟩
  obtain ⟨t', ht', heq⟩ := List.mem_map.mp hmem
  obtain ⟨hid', hten'⟩ := Prod.mk.inj heq
  exact ⟨t', ht', hid'.trans hid, hten'.trans hten⟩

theorem SameCores.keys {m m' : Mem} (h : SameCores m m') :
    m'.tickets.rows.map (fun t => (t.id, t.tenantID)) = m.tickets.rows.map fun t => (t.id, t.tenantID) := by
  have hpairs := congrArg (List.map fun t => (t.id, t.tenantID)) h.1
  rwa [List.map_map, List.map_map] at hpairs

theorem owned_createTicket (now : Time) {m : Mem} (h : Owned m) (t : Ticket) :
    Owned (m.createTicket now t).2 := by
  obtain ⟨e, he⟩ | ⟨hnew, -, heq⟩ := createTicket_cases now m t
  · rwa [he]
  · rw [heq]
    intro c hc
    obtain ⟨x, hx, hid, hten⟩ := h c hc
    refine ⟨x, ?_, hid, hten⟩
    exact Table.mem_put.mpr (.inr ⟨hx, Table.get?_eq_none.mp hnew x hx⟩)

theorem owned_deleteTicket {m : Mem} (h : Owned m) (ten id : GoString) :
    Owned (m.deleteTicket ten id).2 := by
  unfold Mem.deleteTicket
  split
  · exact h
  · intro c hc
    obtain ⟨hc, hne⟩ := Table.mem_keep.mp hc
    obtain ⟨t, ht, hid, hten⟩ := h c hc
    refine ⟨t, Table.mem_keep.mpr ⟨ht, ?_⟩, hid, hten⟩
    rw [hid]
    exact hne

theorem owned_createComment (now : Time) {m : Mem} (h : Owned m) (c : Comment) :
    Owned (m.createComment now c).2 := by
  have hkeys := (createComment_sameCores now m c).keys
  obtain ⟨e, he⟩ | ⟨t, ht, hten, hid, -, -, heq⟩ := createComment_cases now m c
  · rwa [he]
  · have hold : Owned { (m.createComment now c).2 with comments := m.comments } := h.of_same rfl hkeys
    rw [heq] at hold ⊢
    intro x hx
    rcases Table.mem_put.mp hx with rfl | ⟨hx, -⟩
    · have hmem : t.withComment (Mem.withCommentDefaults now c) ∈
          (m.tickets.put (t.withComment (Mem.withCommentDefaults now c))).rows :=
            Table.mem_put.mpr (.inl rfl)
      exact ⟨_, hmem, hid, hten⟩
    · exact hold x hx

theorem owned_setCommentDelivery {m : Mem} (h : Owned m) (ten id : GoString) (dl : Delivery) :
    Owned (m.setCommentDelivery ten id dl).2 := by
  unfold Mem.setCommentDelivery
  cases hc : m.comment ten id with
  | error e => exact h
  | ok c =>
    intro x hx
    rcases Table.mem_put.mp hx with rfl | ⟨hx, -⟩
    · exact h c (comment_ok hc).1
    · exact h x hx

theorem owned_deleteComment {m : Mem} (h : Owned m) (ten id : GoString) :
    Owned (m.deleteComment ten id).2 := by
  have hkeys := (deleteComment_sameCores m ten id).keys
  have hold : Owned { (m.deleteComment ten id).2 with comments := m.comments } := h.of_same rfl hkeys
  unfold Mem.deleteComment at hold ⊢
  cases hc : m.comment ten id with
  | error e => exact h
  | ok c =>
    rw [hc] at hold
    intro x hx
    exact hold x (Table.mem_keep.mp hx).1

end TangraTicket.Services
