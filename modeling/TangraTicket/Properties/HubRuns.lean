import Mathlib.Algebra.Order.BigOperators.Group.List
import Mathlib.Algebra.Order.Group.Nat
import Mathlib.Algebra.Ring.Nat
import Mathlib.Data.List.Flatten
import TangraTicket.Properties.HubBookkeeping

/-!
Whole runs of the hub. What a subscription is given stands in the order of the stream, however
replay and loop race; and a `Hub.Close` is never held up and leaves nothing open.
-/

namespace TangraTicket.Stream

open GoText KeyedTable Counting Machine

namespace Registry

variable {cfg : Config} {r r' : Registry} {c c' : Conn} {T : GoString} {a : Action} {n : ℕ}

/-- The entries a client saw and those queued for it; a reset has no id. -/
def ids (c : Conn) : List GoString := ((c.received ++ c.sub.ch).map Event.id).filter fun id => id ≠ []

structure InOrder (c : Conn) : Prop where
  rising : (ids c).Pairwise fun a b => rank a < rank b
  marked : ∀ id ∈ ids c, c.sub.last ≠ [] ∧ rank id ≤ rank c.sub.last
  fits : c.sub.ch.length ≤ connBuffer

theorem InOrder.of_ids (h : InOrder c) (hids : ids c' = ids c) (hlast : c'.sub.last = c.sub.last)
    (hfits : c'.sub.ch.length ≤ connBuffer) : InOrder c' := by
  refine ⟨?_, ?_, hfits⟩
  · rw [hids]
    exact h.rising
  · rw [hids, hlast]
    exact h.marked

-- an entry that is not refused is newer than the mark, and so than all that went before
theorem InOrder.newer (h : InOrder c) {ev : Event} (hrefused : ¬ c.sub.refuses ev = true)
    (hid : ev.id ≠ []) {id : GoString} (hmem : id ∈ ids c) : rank id < rank ev.id := by
  obtain ⟨hlast, hle⟩ := h.marked id hmem
  apply lt_of_le_of_lt hle
  rw [← less_iff]
  simp only [Subscription.refuses, Bool.or_eq_true, not_or] at hrefused
  simpa [hid, hlast] using hrefused.2

theorem InOrder.push (h : InOrder c) (ev : Event) : InOrder { c with sub := (c.sub.push ev).2 } := by
  unfold Subscription.push
  split_ifs with hrefused hroom hid hid
  · exact h
  · have hids : ids { c with sub := { c.sub with last := ev.id, ch := c.sub.ch ++ [ev] } } =
        ids c ++ [ev.id] := by
      simp [ids, ← List.append_assoc, hid]
    refine ⟨?_, ?_, ?_⟩
    · rw [hids, List.pairwise_append]
      refine ⟨h.rising, List.pairwise_singleton _ _, ?_⟩
      intro id hmem b hb
      rw [List.mem_singleton.mp hb]
      exact h.newer hrefused hid hmem
    · intro id hmem
      rw [hids, List.mem_append, List.mem_singleton] at hmem
      refine ⟨hid, ?_⟩
      rcases hmem with hmem | rfl
      · exact (h.newer hrefused hid hmem).le
      · exact le_rfl
    · simp only [List.length_append, List.length_singleton]
      omega
  · apply h.of_ids
    · have hnone : ev.id = [] := by simpa using hid
      simp [ids, ← List.append_assoc, hnone]
    · rfl
    · simp only [List.length_append, List.length_singleton]
      omega
  · -- the queue is full: only the mark moves
    refine ⟨h.rising, ?_, h.fits⟩
    intro id hmem
    exact ⟨hid, (h.newer hrefused hid hmem).le⟩
  · exact h

theorem InOrder.receive (h : InOrder c) {ev : Event} {ch : List Event} (hch : c.sub.ch = ev :: ch) :
    InOrder { c with sub := { c.sub with ch := ch }, received := c.received ++ [ev] } := by
  apply h.of_ids
  · simp [ids, hch]
  · rfl
  · have := h.fits
    rw [hch, List.length_cons] at this
    simp only
    omega

def AllInOrder (r : Registry) : Prop := ∀ c ∈ r.subs.rows, InOrder c

theorem AllInOrder.put (h : AllInOrder r) (hc : InOrder c) :
    AllInOrder { r with subs := r.subs.put c } := by
  intro c' hc'
  rcases Table.mem_put.mp hc' with rfl | ⟨hc', -⟩
  · exact hc
  · exact h c' hc'

theorem AllInOrder.push (h : AllInOrder r) (n : ℕ) (ev : Event) : AllInOrder (r.push n ev).2 := by
  unfold Registry.push
  split
  · rename_i c hget
    exact h.put ((h c (Table.get?_eq_some.mp hget).1).push ev)
  · exact h

theorem AllInOrder.close (h : AllInOrder r) (n : ℕ) : AllInOrder (r.close n) := by
  unfold Registry.close
  split
  · rename_i c hget
    have hc := h c (Table.get?_eq_some.mp hget).1
    split_ifs
    · exact h
    · unfold AllInOrder
      rw [closeConn_subs]
      exact h.put (hc.of_ids rfl rfl hc.fits)
  · exact h

theorem room_subs (r : Registry) (T : GoString) : (r.room T).2.subs = r.subs := by
  unfold room
  split <;> rfl

theorem AllInOrder.subscribe (h : AllInOrder r) (T u : GoString) (xlast : Except Unit GoString) :
    AllInOrder (r.subscribe cfg T u xlast).2 := by
  simp only [Registry.subscribe]
  split_ifs
  · exact h
  · exact h
  · unfold AllInOrder
    rw [room_subs]
    exact h
  · unfold AllInOrder
    simp only [room_subs]
    apply AllInOrder.put h
    exact ⟨List.Pairwise.nil, by rintro _ ⟨⟩, Nat.zero_le _⟩

theorem AllInOrder.step (h : AllInOrder r) (hstep : Step cfg r a r') : AllInOrder r' := by
  cases hstep with
  | subscribe T u xlast => exact h.subscribe T u xlast
  | replayPush n ev => exact h.push n ev
  | receive hc hch => exact h.put ((h _ hc).receive hch)
  | close n => exact h.close n
  | advance => exact h
  | dispatch => exact h
  | livePush => exact h.push _ _
  | closeStalled => exact AllInOrder.close (r := r.setDispatch _ _) h _
  | cancel => exact h
  | collect => exact h
  | closeNext => exact h.close _
  | return_ => exact h

/-- Whatever a subscription was given, by the replay and by the loop in any order, rises along the
stream: no entry twice, none out of turn; and no more than `connBuffer` wait for the reader. -/
theorem hub_delivers_in_order (h : Reached cfg r) : ∀ c ∈ r.subs.rows,
    (ids c).Pairwise (fun a b => less a b = true) ∧ c.sub.ch.length ≤ connBuffer := by
  have hall : AllInOrder r := Reach.invariant h (by rintro _ ⟨⟩) fun _ _ _ hI _ hn =>
    hI.step (step_of_next hn)
  intro c hc
  refine ⟨?_, (hall c hc).fits⟩
  simpa only [less_iff] using (hall c hc).rising

def identities (r : Registry) : List (ℕ × GoString × GoString) :=
  r.subs.rows.map fun c => (c.handle, c.tenant, c.sub.user)

theorem identities_put (hc : c ∈ r.subs.rows) (hh : c'.handle = c.handle) (hT : c'.tenant = c.tenant)
    (hu : c'.sub.user = c.sub.user) : { r with subs := r.subs.put c' }.identities = r.identities := by
  apply Table.map_put_old hc hh
  rw [hh, hT, hu]

theorem identities_push (r : Registry) (n : ℕ) (ev : Event) :
    (r.push n ev).2.identities = r.identities := by
  unfold push
  split
  · rename_i c hget
    exact identities_put (Table.get?_eq_some.mp hget).1 rfl rfl (push_user c.sub ev)
  · rfl

theorem identities_close (r : Registry) (n : ℕ) : (r.close n).identities = r.identities := by
  unfold close
  split
  · rename_i c hget
    split_ifs
    · rfl
    · rw [identities, closeConn_subs]
      exact identities_put (Table.get?_eq_some.mp hget).1 rfl rfl rfl
  · rfl

theorem identities_subscribe (r : Registry) (T u : GoString) (xlast : Except Unit GoString)
    {i : ℕ × GoString × GoString} (hr : r.subs.get? r.subs.rows.length = none)
    (hi : i ∈ r.identities) : i ∈ (r.subscribe cfg T u xlast).2.identities := by
  simp only [Registry.subscribe]
  split_ifs
  · exact hi
  · exact hi
  · rw [identities, room_subs]
    exact hi
  · simp only [identities, room_subs]
    rw [Table.put_rows_new hr, List.map_append]
    exact List.mem_append_left _ hi

theorem identities_step (h : Exact cfg r) (hstep : Step cfg r a r') {i : ℕ × GoString × GoString}
    (hi : i ∈ r.identities) :
    i ∈ r'.identities := by
  cases hstep with
  | subscribe T u xlast => exact identities_subscribe r T u xlast h.new_handle hi
  | replayPush n ev => rwa [identities_push]
  | @receive c ev ch hc hch =>
    have hsame := @identities_put r c
      { c with sub := { c.sub with ch := ch }, received := c.received ++ [ev] } hc rfl rfl rfl
    exact hsame.symm ▸ hi
  | close n => rwa [identities_close]
  | livePush => exact (identities_push r _ _).symm ▸ hi
  | closeStalled => rwa [identities_close]
  | closeNext => exact (identities_close r _).symm ▸ hi
  | advance | dispatch | cancel | collect | return_ => exact hi

-- whom an entry is still to be pushed to
def Dispatch.pending : Dispatch → List (ℕ × Entry)
  | .pushing ns e => ns.map fun n => (n, e)
  | .stalled n ns e => (n :: ns).map fun n => (n, e)
  | _ => []

def Addressed (r : Registry) : Prop := ∀ l ∈ r.loops.rows, ∀ p ∈ Dispatch.pending l.dispatch,
  ∃ u, (p.1, l.tenant, u) ∈ r.identities ∧ targets p.2.to_ u = true

theorem Addressed.of_loops (h : Addressed r) (hid : ∀ i ∈ r.identities, i ∈ r'.identities)
    (hloops : ∀ l ∈ r'.loops.rows, ∃ m ∈ r.loops.rows, l.tenant = m.tenant ∧
      Dispatch.pending l.dispatch ⊆ Dispatch.pending m.dispatch) : Addressed r' := by
  intro l hl p hp
  obtain ⟨m, hm, htenant, hsub⟩ := hloops l hl
  obtain ⟨u, hu, htargets⟩ := h m hm p (hsub hp)
  exact ⟨u, htenant ▸ hid _ hu, htargets⟩

theorem setDispatch_loops {l : TenantLoop} (hl : l ∈ r.loops.rows) {d : Dispatch}
    (hd : Dispatch.pending d ⊆ Dispatch.pending l.dispatch) (batch : List Entry) :
    ∀ l' ∈ (r.setDispatch l d batch).loops.rows, ∃ m ∈ r.loops.rows, l'.tenant = m.tenant ∧
      Dispatch.pending l'.dispatch ⊆ Dispatch.pending m.dispatch := by
  intro l' hl'
  rcases Table.mem_put.mp hl' with rfl | ⟨hl', -⟩
  · exact ⟨l, hl, rfl, hd⟩
  · exact ⟨l', hl', rfl, List.Subset.refl _⟩

theorem mem_identities {T u : GoString} :
    (n, T, u) ∈ r.identities ↔ ∃ c ∈ r.subs.rows, c.handle = n ∧ c.tenant = T ∧ c.sub.user = u := by
  simp [identities]

theorem Exact.found (h : Exact cfg r) {l : TenantLoop} (hl : l ∈ r.loops.rows) {e : Entry}
    (hn : n ∈ r.found l e) :
    ∃ u, (n, l.tenant, u) ∈ r.identities ∧ targets e.to_ u = true := by
  unfold Registry.found at hn
  split at hn
  · rename_i t hfind
    have ht := List.mem_of_find?_eq_some hfind
    have hloop : t.loop = l.number := by simpa using List.find?_some hfind
    obtain ⟨l', hl', hnumber, htenant, -⟩ := h.running t ht
    obtain ⟨m, hm, rfl⟩ := List.mem_map.mp hl'
    obtain rfl := r.loops.eq_of_key hm hl (hnumber.trans hloop)
    obtain ⟨hconn, htargets⟩ := List.mem_filter.mp hn
    rw [h.conns t ht] at hconn
    obtain ⟨p, hp, rfl⟩ := List.mem_map.mp hconn
    obtain ⟨c, hc, hT, -, rfl⟩ := mem_seats.mp hp
    rw [Table.get?_eq_some.mpr ⟨hc, rfl⟩] at htargets
    exact ⟨c.sub.user, mem_identities.mpr ⟨c, hc, rfl, hT.trans htenant.symm, rfl⟩, htargets⟩
  · cases hn

theorem close_loops_pending (r : Registry) (n : ℕ) {l : TenantLoop} (hl : l ∈ (r.close n).loops.rows) :
    ∃ m ∈ r.loops.rows, l.tenant = m.tenant ∧
    Dispatch.pending l.dispatch ⊆ Dispatch.pending m.dispatch := by
  obtain ⟨m, hm, htenant, hdispatch⟩ := close_loops r n hl
  exact ⟨m, hm, htenant, hdispatch ▸ List.Subset.refl _⟩

theorem room_loops {l : TenantLoop} (hl : l ∈ (r.room T).2.loops.rows) :
    l ∈ r.loops.rows ∨ l.dispatch = .ranging := by
  unfold room at hl
  split at hl
  · exact .inl hl
  · rcases Table.mem_put.mp hl with rfl | ⟨hl, -⟩
    · exact .inr rfl
    · exact .inl hl

theorem subscribe_loops {u : GoString} {xlast : Except Unit GoString} {l : TenantLoop}
    (hl : l ∈ (r.subscribe cfg T u xlast).2.loops.rows) : l ∈ r.loops.rows ∨ l.dispatch = .ranging := by
  simp only [Registry.subscribe] at hl
  split_ifs at hl
  · exact .inl hl
  · exact .inl hl
  · exact room_loops hl
  · exact room_loops hl

theorem Advance.pending {l : TenantLoop} {d : Dispatch} {batch : List Entry} (h : Advance l a d batch) :
    Dispatch.pending d = [] := by
  cases h <;> rfl

theorem Advance.running {l : TenantLoop} {d : Dispatch} {batch : List Entry} (h : Advance l a d batch) :
    l.dispatch ≠ .stopped := by
  cases h with
  | stop hd | begin hd | read hd | abandon hd | wait hd | retry hd | quit hd | dispatched hd =>
    rw [hd]
    rintro ⟨⟩

theorem Addressed.step (hexact : Exact cfg r) (h : Addressed r) (hstep : Step cfg r a r') :
    Addressed r' := by
  have hid : ∀ i ∈ r.identities, i ∈ r'.identities := fun i hi => identities_step hexact hstep hi
  have hself : ∀ l ∈ r.loops.rows, ∃ m ∈ r.loops.rows, l.tenant = m.tenant ∧
      Dispatch.pending l.dispatch ⊆ Dispatch.pending m.dispatch := fun l hl =>
        ⟨l, hl, rfl, List.Subset.refl _⟩
  cases hstep with
  | subscribe T u xlast =>
    intro l hl p hp
    rcases subscribe_loops hl with hl | hnew
    · obtain ⟨v, hv, htargets⟩ := h l hl p hp
      exact ⟨v, hid _ hv, htargets⟩
    · rw [hnew] at hp
      cases hp
  | replayPush n ev => exact h.of_loops hid (by rwa [push_loops])
  | receive hc hch => exact h.of_loops hid hself
  | close n => exact h.of_loops hid fun l hl => close_loops_pending r n hl
  | advance hl hadvance =>
    exact h.of_loops hid (setDispatch_loops hl (by rw [hadvance.pending]; exact List.nil_subset _) _)
  | dispatch hl hd hbatch =>
    intro l' hl' p hp
    rcases Table.mem_put.mp hl' with rfl | ⟨hl', -⟩
    · obtain ⟨n, hn, rfl⟩ := List.mem_map.mp hp
      exact hexact.found hl hn
    · exact h l' hl' p hp
  | @livePush l ns e n d hl hd hn hnext =>
    have hsub : Dispatch.pending d ⊆ Dispatch.pending l.dispatch := by
      rw [hd]
      rcases hnext with rfl | rfl
      · exact List.map_subset _ List.filter_sublist.subset
      · apply List.map_subset
        exact List.cons_subset.mpr ⟨hn, List.filter_sublist.subset⟩
    have hl' : l ∈ (r.push n e.event).2.loops.rows := by rwa [push_loops]
    refine h.of_loops hid ?_
    have := setDispatch_loops hl' hsub l.batch
    rwa [push_loops] at this
  | @closeStalled l n rest e hl hd =>
    have hsub : Dispatch.pending (.pushing rest e) ⊆ Dispatch.pending l.dispatch := by
      rw [hd]
      exact List.map_subset _ (List.subset_cons_self n rest)
    refine h.of_loops hid ?_
    intro l' hl'
    obtain ⟨m, hm, htenant, hpending⟩ := close_loops_pending _ n hl'
    obtain ⟨m', hm', htenant', hpending'⟩ := setDispatch_loops hl hsub _ m hm
    exact ⟨m', hm', htenant.trans htenant', List.Subset.trans hpending hpending'⟩
  | cancel idle =>
    refine h.of_loops hid ?_
    intro l hl
    obtain ⟨m, hm, rfl⟩ := List.mem_map.mp hl
    exact hself m hm
  | collect cancelled => exact h.of_loops hid hself
  | @closeNext n rest closing => exact h.of_loops hid fun l hl => close_loops_pending r n hl
  | return_ closed stopped => exact h.of_loops hid hself

/-- A loop pushes an entry of its tenant's stream to subscriptions of that tenant only, and only to
users the entry is for, and closes no others as stalled, whatever was opened and closed since it
looked. -/
theorem hub_dispatches_within_tenant (hu : 0 < cfg.streamsPerUser) (ht : 0 < cfg.streamsPerTenant)
    (h : Reached cfg r) :
    ∀ l ∈ r.loops.rows, ∀ ns e,
    (l.dispatch = .pushing ns e ∨ ∃ n rest, l.dispatch = .stalled n rest e ∧ ns = n :: rest) →
      ∀ n ∈ ns, ∃ c ∈ r.subs.rows, c.handle = n ∧ c.tenant = l.tenant ∧
      targets e.to_ c.sub.user = true := by
  have hall : Kept cfg r ∧ Addressed r := by
    apply Reach.invariant (I := fun r => Kept cfg r ∧ Addressed r) h
    · exact ⟨kept_of_reached hu ht .refl, by rintro _ ⟨⟩⟩
    · intro r a r' hI _ hn
      have hstep := step_of_next hn
      exact ⟨hI.1.step hu ht hstep, hI.2.step hI.1.exact hstep⟩
  intro l hl ns e hd n hn
  have hpending : (n, e) ∈ Dispatch.pending l.dispatch := by
    rcases hd with hd | ⟨m, rest, hd, rfl⟩
    · rw [hd]
      exact List.mem_map_of_mem hn
    · rw [hd]
      exact List.mem_map_of_mem hn
  obtain ⟨u, hid, htargets⟩ := hall.2 l hl (n, e) hpending
  obtain ⟨c, hc, hhandle, hT, rfl⟩ := mem_identities.mp hid
  exact ⟨c, hc, hhandle, hT, htargets⟩

structure Winding (r : Registry) : Prop where
  closing : ∀ ns, r.shutdown = .closing ns → ∀ T, ∀ p ∈ r.seats T, p.1 ∈ ns
  returned : r.shutdown = .returned → (∀ T, r.seats T = []) ∧ ∀ l ∈ r.loops.rows, l.dispatch = .stopped

-- subscriptions only go
theorem Winding.of_seats (h : Winding r) (hshutdown : r'.shutdown = r.shutdown)
    (hseats : ∀ T, ∀ p ∈ r'.seats T, p ∈ r.seats T)
    (hloops : (∀ l ∈ r.loops.rows, l.dispatch = .stopped) → ∀ l ∈ r'.loops.rows,
      l.dispatch = .stopped) : Winding r' := by
  constructor
  · intro ns hns T p hp
    exact h.closing ns (hshutdown ▸ hns) T p (hseats T p hp)
  · intro hreturned
    obtain ⟨hempty, hstopped⟩ := h.returned (hshutdown ▸ hreturned)
    refine ⟨fun T => ?_, hloops hstopped⟩
    rw [List.eq_nil_iff_forall_not_mem]
    intro p hp
    have := hseats T p hp
    rw [hempty T] at this
    cases this

theorem subscribe_done (hdone : r.done = true) (T u : GoString) (xlast : Except Unit GoString) :
    r.subscribe cfg T u xlast = (.error .closed, r) := by
  simp [Registry.subscribe, hdone]

theorem close_stopped (h : ∀ l ∈ r.loops.rows, l.dispatch = .stopped) {l : TenantLoop}
    (hl : l ∈ (r.close n).loops.rows) :
    l.dispatch = .stopped := by
  obtain ⟨m, hm, -, hdispatch⟩ := close_loops r n hl
  rw [hdispatch]
  exact h m hm

theorem subscribe_shutdown (r : Registry) (T u : GoString) (xlast : Except Unit GoString) :
    (r.subscribe cfg T u xlast).2.shutdown = r.shutdown := by
  have hroom : (r.room T).2.shutdown = r.shutdown := by
    unfold room
    split <;> rfl
  simp only [Registry.subscribe]
  split_ifs <;> first | rfl | exact hroom

theorem Kept.registered (h : Kept cfg r) {p : ℕ × GoString} (hp : p ∈ r.seats T) : p.1 ∈ r.registered := by
  obtain ⟨t, ht, rfl⟩ := h.exact.entered T (List.ne_nil_of_mem hp)
  refine List.mem_flatMap.mpr ⟨t, ht, ?_⟩
  rw [h.exact.conns t ht]
  exact List.mem_map_of_mem hp

theorem Winding.step (hkept : Kept cfg r) (h : Winding r) (hstep : Step cfg r a r') : Winding r' := by
  have hrunning : ∀ {l : TenantLoop}, l ∈ r.loops.rows → l.dispatch ≠ .stopped → ∀ {P : Prop},
      (∀ l ∈ r.loops.rows, l.dispatch = .stopped) → P :=
    fun hl hne _ hall => absurd (hall _ hl) hne
  cases hstep with
  | subscribe T u xlast =>
    cases hdone : r.done with
    | true => rwa [subscribe_done hdone]
    | false =>
      have hidle : r.shutdown = .idle := by simpa [done] using hdone
      have hshutdown : (r.subscribe cfg T u xlast).2.shutdown = .idle :=
        (subscribe_shutdown r T u xlast).trans hidle
      constructor
      · intro ns hns
        rw [hshutdown] at hns
        cases hns
      · intro hreturned
        rw [hshutdown] at hreturned
        cases hreturned
  | replayPush n ev =>
    apply h.of_seats (push_shutdown r n ev)
    · intro T p hp
      rwa [(sameBooks_push r n ev).seats] at hp
    · rw [push_loops]
      exact id
  | receive hc hch =>
    refine h.of_seats rfl ?_ id
    intro T p hp
    rwa [(sameBooks_receive hc _ _).seats] at hp
  | close n =>
    apply h.of_seats (close_shutdown r n)
    · intro T p hp
      exact (mem_seats_close.mp hp).1
    · exact fun hall l hl => close_stopped hall hl
  | advance hl hadvance => exact h.of_seats rfl (fun _ _ hp => hp) (hrunning hl hadvance.running)
  | dispatch hl hd hbatch => exact h.of_seats rfl (fun _ _ hp => hp) (hrunning hl (by rw [hd]; rintro ⟨⟩))
  | livePush hl hd hn hnext =>
    refine h.of_seats (push_shutdown r _ _) ?_ (hrunning hl (by rw [hd]; rintro ⟨⟩))
    intro T p hp
    rwa [(sameBooks_livePush hl _ _ _).seats] at hp
  | closeStalled hl hd =>
    refine h.of_seats (close_shutdown (r.setDispatch _ _) _) ?_ (hrunning hl (by rw [hd]; rintro ⟨⟩))
    intro T p hp
    exact (mem_seats_close.mp hp).1
  | cancel idle => exact ⟨by rintro ns ⟨⟩, by rintro ⟨⟩⟩
  | collect cancelled =>
    constructor
    · rintro ns ⟨⟩ T p hp
      exact hkept.registered hp
    · rintro ⟨⟩
  | @closeNext n rest closing =>
    constructor
    · rintro ns ⟨⟩ T p hp
      obtain ⟨hp, hne⟩ := mem_seats_close.mp hp
      exact (List.mem_cons.mp (h.closing _ closing T p hp)).resolve_left hne
    · rintro ⟨⟩
  | return_ closed stopped =>
    constructor
    · rintro ns ⟨⟩
    · intro _
      refine ⟨fun T => ?_, stopped⟩
      rw [List.eq_nil_iff_forall_not_mem]
      intro p hp
      cases h.closing [] closed T p hp

theorem winding_of_reached (hu : 0 < cfg.streamsPerUser) (ht : 0 < cfg.streamsPerTenant)
    (h : Reached cfg r) :
    Kept cfg r ∧ Winding r := by
  apply Reach.invariant (I := fun r => Kept cfg r ∧ Winding r) h
  · exact ⟨kept_of_reached hu ht .refl, ⟨by rintro ns ⟨⟩, by rintro ⟨⟩⟩⟩
  · intro r a r' hI _ hn
    have hstep := step_of_next hn
    exact ⟨hI.1.step hu ht hstep, hI.2.step hI.1 hstep⟩

def entryWork (m : ℕ) : ℕ := 3 + 2 * m

def TenantLoop.work (m : ℕ) (l : TenantLoop) : ℕ :=
  l.batch.length * entryWork m +
    match l.dispatch with
    | .stopped => 0
    | .ranging => 1
    | .retrying => 2
    | .reading => 2 + readCount * entryWork m
    | .pushing ns _ => 2 + 2 * ns.length
    | .stalled _ ns _ => 3 + 2 * ns.length

def Shutdown.work (m : ℕ) : Shutdown → ℕ
  | .cancelled => m + 2
  | .closing ns => ns.length + 1
  | _ => 0

def loopWork (m : ℕ) (r : Registry) : ℕ := (r.loops.rows.map (TenantLoop.work m)).sum

def work (r : Registry) : ℕ := loopWork r.registered.length r + Shutdown.work r.registered.length r.shutdown

/-- The steps of the loops and of `Hub.Close`. -/
def Action.ofHub : Action → Bool
  | .subscribe .. | .replayPush .. | .receive _ | .close _ | .cancel => false
  | _ => true

theorem TenantLoop.work_mono {m m' : ℕ} (h : m' ≤ m) (l : TenantLoop) :
    TenantLoop.work m' l ≤ TenantLoop.work m l := by
  have hentry : entryWork m' ≤ entryWork m := Nat.add_le_add_left (Nat.mul_le_mul_left 2 h) 3
  have hbatch := Nat.mul_le_mul_left l.batch.length hentry
  have hread := Nat.mul_le_mul_left readCount hentry
  unfold TenantLoop.work
  split <;> omega

theorem loopWork_mono {m m' : ℕ} (h : m' ≤ m) (r : Registry) : loopWork m' r ≤ loopWork m r :=
  List.sum_le_sum fun l _ => TenantLoop.work_mono h l

theorem Shutdown.work_mono {m m' : ℕ} (h : m' ≤ m) (x : Shutdown) :
    Shutdown.work m' x ≤ Shutdown.work m x := by
  cases x with
  | cancelled => exact Nat.add_le_add_right h 2
  | idle | closing | returned => exact le_rfl

theorem loopWork_close (m : ℕ) (r : Registry) (n : ℕ) : loopWork m (r.close n) = loopWork m r := by
  unfold close closeConn
  split
  · split_ifs
    · rfl
    · split
      · rfl
      · simp only
        split_ifs
        · simp only [loopWork, Table.amend, List.map_map]
          rfl
        · rfl
  · rfl

theorem registered_close (r : Registry) (n : ℕ) : (r.close n).registered.Sublist r.registered := by
  unfold close closeConn
  split
  · rename_i c _
    split_ifs
    · exact .refl _
    · split
      · exact .refl _
      · rename_i t hget
        obtain ⟨ht, -⟩ := Table.get?_eq_some.mp hget
        simp only
        split_ifs
        · exact List.filter_sublist.flatMap Room.conns
        · simp only [registered]
          rw [Table.put_rows_old ht, List.flatMap_map]
          · apply List.Sublist.flatMap_right
            intro x hx
            split_ifs with hxt
            · rw [r.tenants.eq_of_key hx ht hxt]
              exact List.filter_sublist
            · exact .refl _
          · rfl
  · exact .refl _

theorem work_close (r : Registry) (n : ℕ) : (r.close n).work ≤ r.work := by
  have hle := (registered_close r n).length_le
  rw [work, work, close_shutdown, loopWork_close]
  exact Nat.add_le_add (loopWork_mono hle r) (Shutdown.work_mono hle r.shutdown)

theorem work_push (r : Registry) (n : ℕ) (ev : Event) : (r.push n ev).2.work = r.work := by
  unfold push
  split <;> rfl

theorem work_setDispatch {l : TenantLoop} (hl : l ∈ r.loops.rows) {d : Dispatch} {batch : List Entry}
    (hd : TenantLoop.work r.registered.length { l with dispatch := d, batch := batch } <
      TenantLoop.work r.registered.length l) : (r.setDispatch l d batch).work < r.work := by
  have hsum : loopWork r.registered.length (r.setDispatch l d batch) +
      TenantLoop.work r.registered.length l =
      loopWork r.registered.length r + TenantLoop.work r.registered.length
        { l with dispatch := d, batch := batch } :=
    sum_put_old (r := ({ l with dispatch := d, batch := batch } : TenantLoop)) hl rfl
      (TenantLoop.work r.registered.length)
  change loopWork r.registered.length (r.setDispatch l d batch) +
    Shutdown.work r.registered.length r.shutdown < _
  rw [work]
  omega

theorem length_found_le (r : Registry) (l : TenantLoop) (e : Entry) :
    (r.found l e).length ≤ r.registered.length := by
  unfold Registry.found
  split
  · rename_i t hfind
    have hconns : t.conns.Sublist r.registered := by
      rw [registered, List.flatMap_def]
      exact List.sublist_flatten_of_mem (List.mem_map_of_mem (List.mem_of_find?_eq_some hfind))
    exact (List.filter_sublist.trans hconns).length_le
  · exact Nat.zero_le _

theorem Advance.work_lt {l : TenantLoop} {d : Dispatch} {batch : List Entry} (h : Advance l a d batch)
    (hcancelled : l.cancelled = true) (m : ℕ) :
    TenantLoop.work m { l with dispatch := d, batch := batch } < TenantLoop.work m l := by
  cases h with
  | stop hd hbatch | abandon hd | retry hd | quit hd | dispatched hd =>
    simp only [TenantLoop.work, hd]
    omega
  | begin hd hbatch hrun | wait hd hrun =>
    rw [hcancelled] at hrun
    cases hrun
  | read hd hcount =>
    have := Nat.mul_le_mul_right (entryWork m) hcount
    simp only [TenantLoop.work, hd]
    omega

theorem dispatch_work_lt {l : TenantLoop} {e : Entry} {rest : List Entry} (hd : l.dispatch = .ranging)
    (hbatch : l.batch = e :: rest) {ns : List ℕ} {m : ℕ} (hns : ns.length ≤ m) :
    TenantLoop.work m { l with dispatch := .pushing ns e, batch := rest } < TenantLoop.work m l := by
  simp only [TenantLoop.work, hd, hbatch, List.length_cons, Nat.succ_mul]
  unfold entryWork
  omega

theorem length_filter_lt {ns : List ℕ} (hn : n ∈ ns) : (ns.filter fun m => m ≠ n).length < ns.length :=
  List.length_filter_lt_length_iff_exists.mpr ⟨n, hn, by simp⟩

theorem step_done (hdone : r.done = true) (hstep : Step cfg r a r') : r'.done = true := by
  have hsame : r'.shutdown = r.shutdown → r'.done = true := by
    intro h
    rwa [done, h]
  cases hstep with
  | subscribe T u xlast => exact hsame (subscribe_shutdown r T u xlast)
  | replayPush n ev => exact hsame (push_shutdown r n ev)
  | close n => exact hsame (close_shutdown r n)
  | livePush => exact hsame (push_shutdown r _ _)
  | closeStalled => exact hsame (close_shutdown (r.setDispatch _ _) _)
  | receive | advance | dispatch => exact hdone
  | cancel | collect | closeNext | return_ => rfl

-- the loop of an entry is cancelled with the hub, and a loop without one before
theorem Kept.cancelled (h : Kept cfg r) (hdone : r.done = true) {l : TenantLoop}
    (hl : l ∈ r.loops.rows) : l.cancelled = true := by
  by_contra hrun
  obtain ⟨t, ht, hloop, -⟩ := h.exact.loop_of_entry hl (by simpa using hrun)
  obtain ⟨l', hl', hnumber, -, hcancelled⟩ := h.exact.running t ht
  obtain ⟨m, hm, rfl⟩ := List.mem_map.mp hl'
  obtain rfl := r.loops.eq_of_key hm hl (hnumber.trans hloop)
  exact hrun (hcancelled.trans hdone)

theorem Kept.work_step (h : Kept cfg r) (hdone : r.done = true) (hstep : Step cfg r a r') :
    r'.work ≤ r.work ∧ (Action.ofHub a = true → r'.work < r.work) := by
  have hless : r'.work < r.work → r'.work ≤ r.work ∧ (Action.ofHub a = true → r'.work < r.work) :=
    fun h => ⟨h.le, fun _ => h⟩
  cases hstep with
  | subscribe T u xlast =>
    rw [subscribe_done hdone]
    exact ⟨le_rfl, by rintro ⟨⟩⟩
  | replayPush n ev => exact ⟨(work_push r n ev).le, by rintro ⟨⟩⟩
  | receive => exact ⟨le_rfl, by rintro ⟨⟩⟩
  | close n => exact ⟨work_close r n, by rintro ⟨⟩⟩
  | advance hl hadvance => exact hless (work_setDispatch hl (hadvance.work_lt (h.cancelled hdone hl) _))
  | dispatch hl hd hbatch =>
    exact hless (work_setDispatch hl (dispatch_work_lt hd hbatch (length_found_le r _ _)))
  | @livePush l ns e n d hl hd hn hnext =>
    apply hless
    rw [← work_push r n e.event]
    apply work_setDispatch
    · rwa [push_loops]
    · have := length_filter_lt hn
      rcases hnext with rfl | rfl
      · simp only [TenantLoop.work, hd]
        omega
      · simp only [TenantLoop.work, hd]
        omega
  | closeStalled hl hd =>
    apply hless
    apply (work_close _ _).trans_lt
    apply work_setDispatch hl
    simp only [TenantLoop.work, hd]
    omega
  | cancel idle => simp [done, idle] at hdone
  | collect cancelled =>
    apply hless
    simp only [work, cancelled, Shutdown.work]
    exact Nat.lt_succ_self _
  | @closeNext n rest closing =>
    apply hless
    have hloops := loopWork_mono (registered_close r n).length_le r
    rw [← loopWork_close _ r n] at hloops
    simp only [work, closing, Shutdown.work, List.length_cons]
    change loopWork (r.close n).registered.length (r.close n) + _ < _
    omega
  | return_ closed stopped =>
    apply hless
    simp only [work, closed, Shutdown.work]
    exact Nat.lt_succ_self _

theorem loop_enabled {l : TenantLoop} (hl : l ∈ r.loops.rows) (hd : l.dispatch ≠ .stopped) :
    ∃ a, Action.ofHub a = true ∧ (r.next cfg a).isSome = true := by
  have hget : r.loops.get? l.number = some l := Table.get?_eq_some.mpr ⟨hl, rfl⟩
  cases hdispatch : l.dispatch with
  | ranging =>
    cases hbatch : l.batch with
    | nil => exact ⟨.test l.number, rfl, by simp [next, hget, hdispatch, hbatch]⟩
    | cons e rest => exact ⟨.dispatch l.number, rfl, by simp [next, hget, hdispatch, hbatch]⟩
  | reading => exact ⟨.read l.number (.error ()), rfl, by simp [next, hget, hdispatch]⟩
  | retrying => exact ⟨.retry l.number, rfl, by simp [next, hget, hdispatch]⟩
  | pushing ns e =>
    cases ns with
    | nil => exact ⟨.dispatched l.number, rfl, by simp [next, hget, hdispatch]⟩
    | cons n ns => exact ⟨.livePush l.number n, rfl, by simp [next, hget, hdispatch]⟩
  | stalled n ns e => exact ⟨.closeStalled l.number, rfl, by simp [next, hget, hdispatch]⟩
  | stopped => exact absurd hdispatch hd

theorem close_enabled (hdone : r.done = true) (hrun : r.shutdown ≠ .returned) :
    ∃ a, Action.ofHub a = true ∧ (r.next cfg a).isSome = true := by
  cases hshutdown : r.shutdown with
  | idle => simp [done, hshutdown] at hdone
  | cancelled => exact ⟨.collect, rfl, by simp [next, hshutdown]⟩
  | closing ns =>
    cases ns with
    | cons n ns => exact ⟨.closeNext, rfl, by simp [next, hshutdown]⟩
    | nil =>
      by_cases hall : ∀ l ∈ r.loops.rows, l.dispatch = .stopped
      · refine ⟨.return_, rfl, ?_⟩
        have : r.loops.rows.all (fun l => l.dispatch = .stopped) = true := by simpa using hall
        simp only [next, hshutdown, this, and_self, if_true, Option.isSome_some]
      · push Not at hall
        obtain ⟨l, hl, hd⟩ := hall
        exact loop_enabled hl hd
  | returned => exact absurd hshutdown hrun

theorem Kept.no_entry (h : Kept cfg r) (hempty : ∀ T, r.seats T = []) : r.tenants.rows = [] := by
  rw [List.eq_nil_iff_forall_not_mem]
  intro t ht
  apply h.occupied t ht
  rw [h.exact.conns t ht, hempty]
  rfl

section Example

def announced : Entry := { id := "1-0", to_ := "*", type := "t", data := "1" }

-- the loop has found the one stream
def dispatching : List Action :=
  [.subscribe "t" "u" (.ok []), .test 0, .read 0 (.ok [announced]), .dispatch 0]

-- the replay is faster than the loop, whose push changes nothing
def raced : List Action :=
  dispatching ++ ([.replayPush 0 announced.event, .livePush 0 0, .receive 0] : List Action)

-- `Hub.Close` comes while the loop dispatches
def closedWhile : List Action :=
  dispatching ++
    ([.cancel, .collect, .closeNext, .livePush 0 0, .dispatched 0, .test 0, .return_] : List Action)

theorem hub_delivers_in_order_raced : (after {} raced).subs.rows.map ids = [[goString "1-0"]] ∧
    ∀ c ∈ (after {} raced).subs.rows, (ids c).Pairwise (fun a b => less a b = true) ∧
    c.sub.ch.length ≤ connBuffer :=
  ⟨by decide +kernel, @hub_delivers_in_order {} _ (reached_after raced (by decide +kernel))⟩

theorem hub_dispatches_within_tenant_found : ∃ c ∈ (after {} dispatching).subs.rows,
    c.handle = 0 ∧ c.tenant = "t" ∧ targets announced.to_ c.sub.user = true :=
  @hub_dispatches_within_tenant {} _ (by decide) (by decide) (reached_after dispatching rfl)
    { number := 0, tenant := "t", dispatch := .pushing [0] announced } (List.mem_singleton.mpr rfl)
    [0] announced (.inl rfl)
    0 List.mem_cons_self

end Example

end Registry

end TangraTicket.Stream
