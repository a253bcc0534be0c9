import TangraTicket.Properties.Replay
import TangraTicket.Stream.Registry

/-!
The books of the hub. In every interleaving a tenant's entry lists its open subscriptions and counts
them by user, and is there as long as there is one; its loop is the only one of the tenant that is
not cancelled.
-/

namespace TangraTicket.Stream

open GoText KeyedTable Counting Machine

def TenantLoop.outline (l : TenantLoop) : TenantLoop := { l with dispatch := .ranging, batch := [] }

namespace Registry

def seat (T : GoString) (c : Conn) : Option (ℕ × GoString) :=
  if c.tenant = T ∧ c.sub.closed = false then some (c.handle, c.sub.user) else none

def seats (r : Registry) (T : GoString) : List (ℕ × GoString) := r.subs.rows.filterMap (seat T)

def outlines (r : Registry) : List TenantLoop := r.loops.rows.map TenantLoop.outline

variable {cfg : Config} {r r' : Registry} {c c' : Conn} {T : GoString}

theorem mem_seats {p : ℕ × GoString} :
    p ∈ r.seats T ↔ ∃ c ∈ r.subs.rows, c.tenant = T ∧ c.sub.closed = false ∧
    p = (c.handle, c.sub.user) := by
  simp only [seats, seat, List.mem_filterMap, Option.ite_none_right_eq_some, Option.some.injEq, and_assoc]
  simp only [eq_comm]

theorem nodup_seats (r : Registry) (T : GoString) : ((r.seats T).map Prod.fst).Nodup := by
  apply List.Nodup.sublist _ r.subs.nodup
  unfold seats
  induction r.subs.rows with
  | nil => exact .slnil
  | cons c rows ih =>
    rw [List.filterMap_cons]
    split
    · exact ih.cons c.handle
    · rename_i p hp
      obtain ⟨-, hp⟩ := Option.ite_none_right_eq_some.mp hp
      obtain rfl := Option.some.inj hp
      exact ih.cons_cons c.handle

theorem seats_put_old (hc : c ∈ r.subs.rows) (hh : c'.handle = c.handle) (T : GoString) :
    { r with subs := r.subs.put c' }.seats T =
      r.subs.rows.filterMap fun x => if x.handle = c.handle then seat T c' else seat T x := by
  simp only [seats, Table.put_rows_old hc hh, List.filterMap_map]
  congr 1
  funext x
  by_cases hx : x.handle = c.handle <;> simp [hh, hx]

theorem seats_kept (hc : c ∈ r.subs.rows) (hh : c'.handle = c.handle)
    (hseat : ∀ T, seat T c' = seat T c) (T : GoString) :
    { r with subs := r.subs.put c' }.seats T = r.seats T := by
  rw [seats_put_old hc hh]
  apply List.filterMap_congr
  intro x hx
  by_cases hxc : x.handle = c.handle
  · rw [if_pos hxc, hseat, r.subs.eq_of_key hx hc hxc]
  · rw [if_neg hxc]

theorem seats_added (hnew : r.subs.get? c.handle = none) (T : GoString) :
    { r with subs := r.subs.put c }.seats T = r.seats T ++ (seat T c).toList := by
  simp only [seats, Table.put_rows_new hnew, List.filterMap_append]
  cases h : seat T c <;> simp [h]

theorem seats_left (hc : c ∈ r.subs.rows) (hh : c'.handle = c.handle)
    (hclosed : c'.sub.closed = true) (T : GoString) :
    { r with subs := r.subs.put c' }.seats T = (r.seats T).filter fun p => p.1 ≠ c.handle := by
  rw [seats_put_old hc hh, seats, List.filter_filterMap]
  apply List.filterMap_congr
  intro x _
  by_cases hx : x.handle = c.handle <;> by_cases hseat : x.tenant = T ∧ x.sub.closed = false <;>
    simp [hx, seat, hseat, hclosed, Option.filter_some]

structure Exact (cfg : Config) (r : Registry) : Prop where
  conns : ∀ t ∈ r.tenants.rows, t.conns = (r.seats t.tenant).map Prod.fst
  byUser : ∀ t ∈ r.tenants.rows, Counts t.byUser ((r.seats t.tenant).map Prod.snd)
  entered : ∀ T, r.seats T ≠ [] → ∃ t ∈ r.tenants.rows, t.tenant = T
  perUser : ∀ T u, ((r.seats T).countP fun p => p.2 = u) ≤ cfg.streamsPerUser
  perTenant : ∀ T, (r.seats T).length ≤ cfg.streamsPerTenant
  running : ∀ t ∈ r.tenants.rows, ∃ l ∈ r.outlines, l.number = t.loop ∧ l.tenant = t.tenant ∧
    l.cancelled = r.done
  needed : ∀ l ∈ r.outlines, l.cancelled = false → ∃ t ∈ r.tenants.rows, t.loop = l.number
  handles : ∀ n ∈ r.subs.rows.map Conn.handle, n < r.subs.rows.length
  numbers : ∀ l ∈ r.outlines, l.number < r.outlines.length

def Occupied (r : Registry) : Prop := ∀ t ∈ r.tenants.rows, t.conns ≠ []

structure SameBooks (r r' : Registry) : Prop where
  tenants : r'.tenants = r.tenants
  seats : ∀ T, r'.seats T = r.seats T
  outlines : r'.outlines = r.outlines
  handles : r'.subs.rows.map Conn.handle = r.subs.rows.map Conn.handle
  done : r'.done = r.done

theorem Exact.of_same (h : Exact cfg r) (hs : SameBooks r r') : Exact cfg r' := by
  have hlen : r'.subs.rows.length = r.subs.rows.length := by
    have := congrArg List.length hs.handles
    simpa using this
  constructor
  · simpa only [hs.tenants, hs.seats] using h.conns
  · simpa only [hs.tenants, hs.seats] using h.byUser
  · simpa only [hs.tenants, hs.seats] using h.entered
  · simpa only [hs.seats] using h.perUser
  · simpa only [hs.seats] using h.perTenant
  · simpa only [hs.tenants, hs.outlines, hs.done] using h.running
  · simpa only [hs.tenants, hs.outlines] using h.needed
  · simpa only [hs.handles, hlen] using h.handles
  · simpa only [hs.outlines] using h.numbers

theorem Occupied.of_same (h : Occupied r) (hs : SameBooks r r') : Occupied r' := by
  unfold Occupied
  rw [hs.tenants]
  exact h

theorem SameBooks.trans {r'' : Registry} (h : SameBooks r r') (h' : SameBooks r' r'') :
    SameBooks r r'' where
  tenants := h'.tenants.trans h.tenants
  seats T := (h'.seats T).trans (h.seats T)
  outlines := h'.outlines.trans h.outlines
  handles := h'.handles.trans h.handles
  done := h'.done.trans h.done

theorem sameBooks_put (hc : c ∈ r.subs.rows) (hh : c'.handle = c.handle)
    (hseat : ∀ T, seat T c' = seat T c) :
    SameBooks r { r with subs := r.subs.put c' } where
  tenants := rfl
  seats := seats_kept hc hh hseat
  outlines := rfl
  handles := Table.map_put_old hc hh Conn.handle hh
  done := rfl

theorem sameBooks_receive (hc : c ∈ r.subs.rows) (ch received : List Event) :
    SameBooks r
      { r with subs := r.subs.put { c with sub := { c.sub with ch := ch }, received := received } } :=
  sameBooks_put hc rfl fun _ => rfl

theorem sameBooks_push (r : Registry) (n : ℕ) (ev : Event) : SameBooks r (r.push n ev).2 := by
  unfold push
  split
  · rename_i c hc
    apply sameBooks_put (Table.get?_eq_some.mp hc).1
    · rfl
    · intro T
      simp only [seat, push_user, push_closed]
  · exact ⟨rfl, fun _ => rfl, rfl, rfl, rfl⟩

theorem sameBooks_setDispatch {l : TenantLoop} (hl : l ∈ r.loops.rows) (d : Dispatch) (batch : List Entry) :
    SameBooks r (r.setDispatch l d batch) where
  tenants := rfl
  seats _ := rfl
  outlines := by
    exact Table.map_put_old (r := ({ l with dispatch := d, batch := batch } : TenantLoop)) hl rfl
      TenantLoop.outline rfl
  handles := rfl
  done := rfl

theorem Exact.new_handle (h : Exact cfg r) : r.subs.get? r.subs.rows.length = none := by
  rw [Table.get?_eq_none]
  intro c hc heq
  have := h.handles c.handle (List.mem_map_of_mem hc)
  omega

theorem Exact.new_loop (h : Exact cfg r) : r.loops.get? r.loops.rows.length = none := by
  rw [Table.get?_eq_none]
  intro l hl heq
  have := h.numbers l.outline (List.mem_map_of_mem hl)
  simp only [outlines, List.length_map, TenantLoop.outline] at this
  omega

theorem room_tenant (r : Registry) (T : GoString) : (r.room T).1.tenant = T := by
  unfold room
  split
  · rename_i t ht
    exact (Table.get?_eq_some.mp ht).2
  · rfl

theorem room_mem (r : Registry) (T : GoString) : (r.room T).1 ∈ (r.room T).2.tenants.rows := by
  unfold room
  split
  · rename_i t ht
    exact (Table.get?_eq_some.mp ht).1
  · exact Table.mem_put.mpr (.inl rfl)

theorem room_others {t : Room} (ht : t ∈ (r.room T).2.tenants.rows) (hne : t.tenant ≠ T) :
    t ∈ r.tenants.rows := by
  unfold room at ht
  split at ht
  · exact ht
  · rcases Table.mem_put.mp ht with rfl | ⟨ht, -⟩
    · exact absurd rfl hne
    · exact ht

theorem Exact.room (h : Exact cfg r) (hrun : r.done = false) (T : GoString) : Exact cfg (r.room T).2 := by
  unfold Registry.room
  split
  · exact h
  · rename_i hnone
    have hempty : r.seats T = [] := by
      by_contra hne
      obtain ⟨t, ht, hT⟩ := h.entered T hne
      exact Table.get?_eq_none.mp hnone t ht hT
    have hout : ∀ t l, Registry.outlines
        { r with
          tenants := t,
          loops := r.loops.put { number := r.loops.rows.length, tenant := l } } =
        r.outlines ++ [{ number := r.loops.rows.length, tenant := l }] := by
      intro t l
      rw [Registry.outlines, Table.put_rows_new h.new_loop, List.map_append]
      rfl
    constructor
    · intro t ht
      rcases Table.mem_put.mp ht with rfl | ⟨ht, -⟩
      · exact (congrArg (List.map Prod.fst) hempty).symm
      · exact h.conns t ht
    · intro t ht
      rcases Table.mem_put.mp ht with rfl | ⟨ht, -⟩
      · change Counts .empty ((r.seats T).map Prod.snd)
        rw [hempty]
        exact counts_empty
      · exact h.byUser t ht
    · intro T' hne
      obtain ⟨t, ht, rfl⟩ := h.entered T' hne
      exact ⟨t, Table.mem_put.mpr (.inr ⟨ht, Table.get?_eq_none.mp hnone t ht⟩), rfl⟩
    · exact h.perUser
    · exact h.perTenant
    · intro t ht
      simp only [hout, List.mem_append, List.mem_singleton]
      rcases Table.mem_put.mp ht with rfl | ⟨ht, -⟩
      · exact ⟨_, .inr rfl, rfl, rfl, hrun.symm⟩
      · obtain ⟨l, hl, hrest⟩ := h.running t ht
        exact ⟨l, .inl hl, hrest⟩
    · intro l hl hcancelled
      simp only [hout, List.mem_append, List.mem_singleton] at hl
      rcases hl with hl | rfl
      · obtain ⟨t, ht, hloop⟩ := h.needed l hl hcancelled
        exact ⟨t, Table.mem_put.mpr (.inr ⟨ht, Table.get?_eq_none.mp hnone t ht⟩), hloop⟩
      · exact ⟨_, Table.mem_put.mpr (.inl rfl), rfl⟩
    · exact h.handles
    · intro l hl
      simp only [hout, List.mem_append, List.mem_singleton, List.length_append,
        List.length_singleton] at hl ⊢
      rcases hl with hl | rfl
      · exact (h.numbers l hl).trans (Nat.lt_succ_self _)
      · simp [Registry.outlines]

theorem Exact.enter (h : Exact cfg r) {t : Room} (ht : t ∈ r.tenants.rows) {u : GoString}
    (hroom : ¬(cfg.streamsPerUser ≤ value t.byUser u ∨ cfg.streamsPerTenant ≤ t.conns.length)) :
    Exact cfg { r with
      subs := r.subs.put { handle := r.subs.rows.length, tenant := t.tenant, sub := { user := u } }
      tenants := r.tenants.put
        { t with conns := t.conns ++ [r.subs.rows.length], byUser := increment t.byUser u } } := by
  have hseats : ∀ tenants : Table GoString Room Room.tenant, ∀ T, Registry.seats { r with
      subs := r.subs.put { handle := r.subs.rows.length, tenant := t.tenant, sub := { user := u } }
      tenants := tenants } T = r.seats T ++ if t.tenant = T then [(r.subs.rows.length, u)] else [] := by
    intro tenants T
    refine (seats_added h.new_handle T).trans ?_
    by_cases hT : t.tenant = T <;> simp [seat, hT]
  have hcount := (h.byUser t ht).value_eq u
  rw [List.countP_map, Function.comp_def] at hcount
  have hlength := congrArg List.length (h.conns t ht)
  rw [List.length_map] at hlength
  constructor
  · intro t' ht'
    rw [hseats]
    rcases Table.mem_put.mp ht' with rfl | ⟨ht', hne⟩
    · simp [h.conns t ht]
    · rw [if_neg (Ne.symm hne), List.append_nil]
      exact h.conns t' ht'
  · intro t' ht'
    rw [hseats]
    rcases Table.mem_put.mp ht' with rfl | ⟨ht', hne⟩
    · simpa using (h.byUser t ht).increment u
    · rw [if_neg (Ne.symm hne), List.append_nil]
      exact h.byUser t' ht'
  · intro T hne
    by_cases hT : T = t.tenant
    · exact ⟨_, Table.mem_put.mpr (.inl rfl), hT.symm⟩
    · rw [hseats, if_neg (Ne.symm hT), List.append_nil] at hne
      obtain ⟨t', ht', rfl⟩ := h.entered T hne
      exact ⟨t', Table.mem_put.mpr (.inr ⟨ht', hT⟩), rfl⟩
  · intro T v
    have := h.perUser T v
    rw [hseats, List.countP_append]
    by_cases hT : t.tenant = T
    · subst hT
      by_cases hv : u = v
      · subst hv
        simp
        omega
      · simpa [hv] using this
    · simpa [hT] using this
  · intro T
    have := h.perTenant T
    rw [hseats, List.length_append]
    by_cases hT : t.tenant = T
    · subst hT
      simp
      omega
    · simpa [hT] using this
  · intro t' ht'
    rcases Table.mem_put.mp ht' with rfl | ⟨ht', -⟩
    · exact h.running t ht
    · exact h.running t' ht'
  · intro l hl hcancelled
    obtain ⟨t', ht', hloop⟩ := h.needed l hl hcancelled
    by_cases hT : t'.tenant = t.tenant
    · rw [r.tenants.eq_of_key ht' ht hT] at hloop
      exact ⟨_, Table.mem_put.mpr (.inl rfl), hloop⟩
    · exact ⟨t', Table.mem_put.mpr (.inr ⟨ht', hT⟩), hloop⟩
  · intro n hn
    rw [Table.put_rows_new h.new_handle] at hn ⊢
    simp only [List.map_append, List.mem_append, List.map_singleton, List.mem_singleton,
      List.length_append, List.length_singleton] at hn ⊢
    rcases hn with hn | rfl
    · exact (h.handles n hn).trans (Nat.lt_succ_self _)
    · exact Nat.lt_succ_self _
  · exact h.numbers

theorem Exact.subscribe (h : Exact cfg r) (ho : Occupied r) (hu : 0 < cfg.streamsPerUser)
    (ht : 0 < cfg.streamsPerTenant) (T u : GoString) (xlast : Except Unit GoString) :
    Exact cfg (r.subscribe cfg T u xlast).2 ∧ Occupied (r.subscribe cfg T u xlast).2 := by
  simp only [Registry.subscribe]
  split_ifs with hdone hnew hfull
  · exact ⟨h, ho⟩
  · exact ⟨h, ho⟩
  · -- a new entry has room, so an entry that is full was there before
    cases hget : r.tenants.get? T with
    | some t =>
      simp only [Registry.room, hget]
      exact ⟨h, ho⟩
    | none =>
      simp only [Registry.room, hget, List.length_nil] at hfull
      rcases hfull with hfull | hfull
      · have : value (.empty : Counter GoString) u = 0 := rfl
        omega
      · omega
  · have hrun : r.done = false := by simpa using hdone
    have hmem := r.room_mem T
    have henter := (h.room hrun T).enter hmem hfull
    refine ⟨by simpa only [room_tenant] using henter, ?_⟩
    intro t ht'
    rcases Table.mem_put.mp ht' with rfl | ⟨ht', hne⟩
    · simp
    · rw [room_tenant] at hne
      exact ho t (room_others ht' hne)

theorem seats_perm_leave (hc : c ∈ r.subs.rows) (hopen : c.sub.closed = false) :
    (r.seats c.tenant).Perm ((c.handle, c.sub.user) :: (r.seats c.tenant).filter fun p =>
    p.1 ≠ c.handle) := by
  have hmem : (c.handle, c.sub.user) ∈ r.seats c.tenant := mem_seats.mpr ⟨c, hc, rfl, hopen, rfl⟩
  have hnodup := List.Nodup.of_map _ (r.nodup_seats c.tenant)
  apply (List.perm_ext_iff_of_nodup hnodup _).mpr
  · intro p
    rw [List.mem_cons, List.mem_filter]
    constructor
    · intro hp
      by_cases heq : p.1 = c.handle
      · exact .inl (List.inj_on_of_nodup_map (r.nodup_seats c.tenant) hp hmem heq)
      · exact .inr ⟨hp, by simpa using heq⟩
    · rintro (rfl | ⟨hp, -⟩)
      · exact hmem
      · exact hp
  · refine List.nodup_cons.mpr ⟨?_, hnodup.filter _⟩
    simp

theorem Exact.loop_inj (h : Exact cfg r) {t t' : Room} (ht : t ∈ r.tenants.rows) (ht' : t' ∈ r.tenants.rows)
    (hloop : t.loop = t'.loop) : t = t' := by
  obtain ⟨l, hl, hnum, htenant, -⟩ := h.running t ht
  obtain ⟨l', hl', hnum', htenant', -⟩ := h.running t' ht'
  obtain ⟨m, hm, rfl⟩ := List.mem_map.mp hl
  obtain ⟨m', hm', rfl⟩ := List.mem_map.mp hl'
  have hmm : m = m' := r.loops.eq_of_key hm hm' ((hnum.trans hloop).trans hnum'.symm)
  subst hmm
  exact r.tenants.eq_of_key ht ht' (htenant.symm.trans htenant')

theorem seats_other (hc : c ∈ r.subs.rows) (hT : T ≠ c.tenant) :
    ((r.seats T).filter fun p => p.1 ≠ c.handle) = r.seats T := by
  apply List.filter_eq_self.mpr
  intro p hp
  obtain ⟨c', hc', rfl, -, rfl⟩ := mem_seats.mp hp
  simp only [ne_eq, decide_not, Bool.not_eq_eq_eq_not, Bool.not_true, decide_eq_false_iff_not]
  intro heq
  exact hT (congrArg Conn.tenant (r.subs.eq_of_key hc' hc heq))

theorem Exact.leave (h : Exact cfg r) (hc : c ∈ r.subs.rows) (hopen : c.sub.closed = false) {t t' : Room}
    (ht : t ∈ r.tenants.rows) (hT : t.tenant = c.tenant)
    (ht' : t' =
      { t with
        conns := t.conns.filter fun n => n ≠ c.handle,
        byUser := decrement t.byUser c.sub.user })
    (gone : Bool) (hgone : gone = true ↔ t'.conns = [])
    (hsubs : r'.subs = r.subs.put { c with sub := { c.sub with closed := true } })
    (htenants : ∀ x, x ∈ r'.tenants.rows ↔ x ∈ r.tenants.rows ∧ x.tenant ≠ c.tenant ∨ gone = false ∧ x = t')
    (hloops : r'.outlines = r.outlines.map fun l =>
    { l with cancelled := l.cancelled || (gone && l.number = t.loop) })
    (hdone : r'.done = r.done) : Exact cfg r' := by
  have hseats : ∀ T, r'.seats T = (r.seats T).filter fun p => p.1 ≠ c.handle := by
    intro T
    rw [seats, hsubs]
    exact @seats_left r c { c with sub := { c.sub with closed := true } } hc rfl rfl T
  have hhandles : r'.subs.rows.map Conn.handle = r.subs.rows.map Conn.handle := by
    rw [hsubs]
    exact Table.map_put_old (r := ({ c with sub := { c.sub with closed := true } } : Conn)) hc rfl
      Conn.handle rfl
  have hperm := seats_perm_leave hc hopen
  have hconns : t'.conns = (r'.seats c.tenant).map Prod.fst := by
    rw [ht', hseats, h.conns t ht, hT, List.filter_map]
    rfl
  have htenant : t'.tenant = c.tenant := by rw [ht', hT]
  constructor
  · intro x hx
    rcases (htenants x).mp hx with ⟨hx, hne⟩ | ⟨-, rfl⟩
    · rw [hseats, seats_other hc hne]
      exact h.conns x hx
    · rw [htenant, hconns]
  · intro x hx
    rcases (htenants x).mp hx with ⟨hx, hne⟩ | ⟨-, rfl⟩
    · rw [hseats, seats_other hc hne]
      exact h.byUser x hx
    · have hcounts := h.byUser t ht
      rw [hT] at hcounts
      rw [htenant, hseats, ht']
      exact (hcounts.perm (hperm.map Prod.snd)).decrement
  · intro T hne
    by_cases hTc : T = c.tenant
    · subst hTc
      refine ⟨t', (htenants t').mpr (.inr ⟨?_, rfl⟩), htenant⟩
      rw [Bool.eq_false_iff, ne_eq, hgone, hconns, List.map_eq_nil_iff]
      exact hne
    · rw [hseats, seats_other hc hTc] at hne
      obtain ⟨x, hx, rfl⟩ := h.entered T hne
      exact ⟨x, (htenants x).mpr (.inl ⟨hx, hTc⟩), rfl⟩
  · intro T u
    rw [hseats]
    exact List.filter_sublist.countP_le.trans (h.perUser T u)
  · intro T
    rw [hseats]
    exact (List.length_filter_le _ _).trans (h.perTenant T)
  · intro x hx
    rw [hloops, hdone]
    -- the loop of an entry that stays is not the one that is cancelled
    rcases (htenants x).mp hx with ⟨hx, hne⟩ | ⟨hstays, rfl⟩
    · obtain ⟨l, hl, hnumber, htenant, hcancelled⟩ := h.running x hx
      refine ⟨_, List.mem_map_of_mem hl, hnumber, htenant, ?_⟩
      have hother : l.number ≠ t.loop := by
        intro heq
        rw [h.loop_inj hx ht (hnumber.symm.trans heq)] at hne
        exact hne hT
      simp [hother, hcancelled]
    · obtain ⟨l, hl, hnumber, hltenant, hcancelled⟩ := h.running t ht
      refine ⟨_, List.mem_map_of_mem hl, ?_, ?_, ?_⟩
      · rw [ht']
        exact hnumber
      · rw [ht']
        exact hltenant
      · simp [hstays, hcancelled]
  · intro l hl hcancelled
    rw [hloops] at hl
    obtain ⟨m, hm, rfl⟩ := List.mem_map.mp hl
    simp only [Bool.or_eq_false_iff] at hcancelled
    obtain ⟨x, hx, hloop⟩ := h.needed m hm hcancelled.1
    by_cases hxT : x.tenant = c.tenant
    · obtain rfl := r.tenants.eq_of_key hx ht (hxT.trans hT.symm)
      refine ⟨t', (htenants t').mpr (.inr ⟨?_, rfl⟩), ?_⟩
      · simpa [hloop] using hcancelled.2
      · rw [ht']
        exact hloop
    · exact ⟨x, (htenants x).mpr (.inl ⟨hx, hxT⟩), hloop⟩
  · have hlen := congrArg List.length hhandles
    rw [List.length_map, List.length_map] at hlen
    rw [hhandles, hlen]
    exact h.handles
  · intro l hl
    rw [hloops] at hl ⊢
    obtain ⟨m, hm, rfl⟩ := List.mem_map.mp hl
    rw [List.length_map]
    exact h.numbers m hm

structure Kept (cfg : Config) (r : Registry) : Prop where
  exact : Exact cfg r
  occupied : Occupied r

theorem Kept.of_same (h : Kept cfg r) (hs : SameBooks r r') : Kept cfg r' :=
  ⟨h.exact.of_same hs, h.occupied.of_same hs⟩

theorem Kept.closeConn (h : Kept cfg r) (hc : c ∈ r.subs.rows) (hopen : c.sub.closed = false) :
    Kept cfg (r.closeConn c) := by
  have hseat : r.seats c.tenant ≠ [] := List.ne_nil_of_mem (mem_seats.mpr ⟨c, hc, rfl, hopen, rfl⟩)
  obtain ⟨t, ht, hT⟩ := h.exact.entered c.tenant hseat
  have hget : r.tenants.get? c.tenant = some t := Table.get?_eq_some.mpr ⟨ht, hT⟩
  simp only [Registry.closeConn, hget]
  split_ifs with hempty
  · constructor
    · apply h.exact.leave hc hopen ht hT rfl true (by simpa using hempty) rfl
      · intro x
        simp [Table.mem_keep]
      · simp only [outlines, Table.amend, List.map_map]
        rfl
      · rfl
    · intro x hx
      exact h.occupied x (Table.mem_keep.mp hx).1
  · constructor
    · apply h.exact.leave hc hopen ht hT rfl false (by simpa using hempty) rfl
      · intro x
        rw [Table.mem_put, hT, or_comm]
        simp
      · simp [outlines]
      · rfl
    · intro x hx
      rcases Table.mem_put.mp hx with rfl | ⟨hx, -⟩
      · exact hempty
      · exact h.occupied x hx

theorem Kept.close (h : Kept cfg r) (n : ℕ) : Kept cfg (r.close n) := by
  unfold Registry.close
  split
  · rename_i c hget
    split_ifs with hclosed
    · exact h
    · exact h.closeConn (Table.get?_eq_some.mp hget).1 (by simpa using hclosed)
  · exact h

theorem closeConn_subs (r : Registry) (c : Conn) :
    (r.closeConn c).subs = r.subs.put { c with sub := { c.sub with closed := true } } := by
  unfold closeConn
  split
  · rfl
  · simp only
    split_ifs <;> rfl

theorem closeConn_shutdown (r : Registry) (c : Conn) : (r.closeConn c).shutdown = r.shutdown := by
  unfold closeConn
  split
  · rfl
  · simp only
    split_ifs <;> rfl

theorem close_shutdown (r : Registry) (n : ℕ) : (r.close n).shutdown = r.shutdown := by
  unfold close
  split
  · split_ifs
    · rfl
    · exact closeConn_shutdown r _
  · rfl

theorem mem_seats_close {n : ℕ} {p : ℕ × GoString} : p ∈ (r.close n).seats T ↔ p ∈ r.seats T ∧ p.1 ≠ n := by
  have hself : (∀ c ∈ r.subs.rows, c.handle = n → c.sub.closed = true) →
      (p ∈ r.seats T ↔ p ∈ r.seats T ∧ p.1 ≠ n) := by
    intro hclosed
    refine ⟨fun hp => ⟨hp, ?_⟩, And.left⟩
    rintro rfl
    obtain ⟨c, hc, -, hopen, rfl⟩ := mem_seats.mp hp
    rw [hclosed c hc rfl] at hopen
    cases hopen
  unfold close
  split
  · rename_i c hget
    obtain ⟨hc, rfl⟩ := Table.get?_eq_some.mp hget
    split_ifs with hclosed
    · apply hself
      intro c' hc' heq
      rwa [r.subs.eq_of_key hc' hc heq]
    · have hseats : (r.closeConn c).seats T = (r.seats T).filter fun p => p.1 ≠ c.handle := by
        rw [seats, closeConn_subs]
        exact @seats_left r c { c with sub := { c.sub with closed := true } } hc rfl rfl T
      rw [hseats, List.mem_filter, decide_eq_true_eq]
  · rename_i hget
    apply hself
    intro c hc heq
    exact absurd heq (Table.get?_eq_none.mp hget c hc)

theorem close_loops (r : Registry) (n : ℕ) {l : TenantLoop} (hl : l ∈ (r.close n).loops.rows) :
    ∃ m ∈ r.loops.rows, l.tenant = m.tenant ∧ l.dispatch = m.dispatch := by
  unfold close closeConn at hl
  split at hl
  · split at hl
    · exact ⟨l, hl, rfl, rfl⟩
    · split at hl
      · exact ⟨l, hl, rfl, rfl⟩
      · simp only at hl
        split at hl
        · obtain ⟨m, hm, rfl⟩ := List.mem_map.mp hl
          exact ⟨m, hm, rfl, rfl⟩
        · exact ⟨l, hl, rfl, rfl⟩
  · exact ⟨l, hl, rfl, rfl⟩

inductive Advance (l : TenantLoop) : Action → Dispatch → List Entry → Prop
  | stop (hd : l.dispatch = .ranging) (hbatch : l.batch = []) (hcancelled : l.cancelled = true) :
    Advance l (.test l.number) .stopped l.batch
  | begin (hd : l.dispatch = .ranging) (hbatch : l.batch = []) (hrun : l.cancelled = false) :
    Advance l (.test l.number) .reading l.batch
  | read {entries : List Entry} (hd : l.dispatch = .reading) (hcount : entries.length ≤ readCount) :
    Advance l (.read l.number (.ok entries)) .ranging entries
  | abandon (hd : l.dispatch = .reading) (hcancelled : l.cancelled = true) :
    Advance l (.read l.number (.error ())) .stopped l.batch
  | wait (hd : l.dispatch = .reading) (hrun : l.cancelled = false) :
    Advance l (.read l.number (.error ())) .retrying l.batch
  | retry (hd : l.dispatch = .retrying) : Advance l (.retry l.number) .ranging l.batch
  | quit (hd : l.dispatch = .retrying) (hcancelled : l.cancelled = true) : Advance l
      (.quit l.number) .stopped l.batch
  | dispatched {e : Entry} (hd : l.dispatch = .pushing [] e) : Advance l
      (.dispatched l.number) .ranging l.batch

inductive Step (cfg : Config) (r : Registry) : Action → Registry → Prop
  | subscribe (T u : GoString) (xlast : Except Unit GoString) :
    Step cfg r (.subscribe T u xlast) (r.subscribe cfg T u xlast).2
  | replayPush (n : ℕ) (ev : Event) : Step cfg r (.replayPush n ev) (r.push n ev).2
  | receive {c : Conn} {ev : Event} {ch : List Event} (hc : c ∈ r.subs.rows) (hch : c.sub.ch = ev :: ch) :
    Step cfg r (.receive c.handle)
      { r with
        subs := r.subs.put
          { c with sub := { c.sub with ch := ch }, received := c.received ++ [ev] } }
  | close (n : ℕ) : Step cfg r (.close n) (r.close n)
  | advance {l : TenantLoop} {a : Action} {d : Dispatch} {batch : List Entry} (hl : l ∈ r.loops.rows)
    (hadvance : Advance l a d batch) : Step cfg r a (r.setDispatch l d batch)
  | dispatch {l : TenantLoop} {e : Entry} {rest : List Entry} (hl : l ∈ r.loops.rows)
      (hd : l.dispatch = .ranging)
    (hbatch : l.batch = e :: rest) : Step cfg r (.dispatch l.number)
    (r.setDispatch l (.pushing (r.found l e) e) rest)
  | livePush {l : TenantLoop} {ns : List ℕ} {e : Entry} {n : ℕ} {d : Dispatch} (hl : l ∈ r.loops.rows)
    (hd : l.dispatch = .pushing ns e) (hn : n ∈ ns)
    (hnext : d = .pushing (ns.filter fun m => m ≠ n) e ∨ d = .stalled n (ns.filter fun m => m ≠ n) e) :
    Step cfg r (.livePush l.number n) ((r.push n e.event).2.setDispatch l d)
  | closeStalled {l : TenantLoop} {n : ℕ} {rest : List ℕ} {e : Entry} (hl : l ∈ r.loops.rows)
    (hd : l.dispatch = .stalled n rest e) :
    Step cfg r (.closeStalled l.number) ((r.setDispatch l (.pushing rest e)).close n)
  | cancel (idle : r.shutdown = .idle) : Step cfg r .cancel { r with
      shutdown := .cancelled, loops := r.loops.amend (fun l => { l with cancelled := true }) fun _ => rfl }
  | collect (cancelled : r.shutdown = .cancelled) : Step cfg r .collect
      { r with shutdown := .closing r.registered }
  | closeNext {n : ℕ} {rest : List ℕ} (closing : r.shutdown = .closing (n :: rest)) :
    Step cfg r .closeNext { r.close n with shutdown := .closing rest }
  | return_ (closed : r.shutdown = .closing []) (stopped : ∀ l ∈ r.loops.rows, l.dispatch = .stopped) :
    Step cfg r .return_ { r with shutdown := .returned }

theorem push_shutdown (r : Registry) (n : ℕ) (ev : Event) : (r.push n ev).2.shutdown = r.shutdown := by
  unfold push
  split <;> rfl

theorem push_loops (r : Registry) (n : ℕ) (ev : Event) : (r.push n ev).2.loops = r.loops := by
  unfold push
  split <;> rfl

theorem step_of_next {a : Action} (h : r.next cfg a = some r') : Step cfg r a r' := by
  cases a with
  | subscribe T u xlast =>
    obtain rfl := Option.some.inj h
    exact .subscribe T u xlast
  | replayPush n ev =>
    obtain rfl := Option.some.inj h
    exact .replayPush n ev
  | receive n =>
    simp only [next] at h
    split at h
    · rename_i c hget
      obtain ⟨hc, rfl⟩ := Table.get?_eq_some.mp hget
      split at h
      · rename_i hch
        obtain rfl := Option.some.inj h
        exact .receive hc hch
      · cases h
    · cases h
  | close n =>
    obtain rfl := Option.some.inj h
    exact .close n
  | test k =>
    simp only [next] at h
    split at h
    · rename_i l hget
      obtain ⟨hl, rfl⟩ := Table.get?_eq_some.mp hget
      split_ifs at h with hend hcancelled
      · obtain rfl := Option.some.inj h
        exact .advance hl (.stop hend.1 hend.2 hcancelled)
      · obtain rfl := Option.some.inj h
        exact .advance hl (.begin hend.1 hend.2 (by simpa using hcancelled))
    · cases h
  | read k answer =>
    simp only [next] at h
    split at h
    · rename_i l hget
      obtain ⟨hl, rfl⟩ := Table.get?_eq_some.mp hget
      split at h
      · split_ifs at h with hcount
        obtain rfl := Option.some.inj h
        exact .advance hl (.read ‹_› hcount)
      · split_ifs at h with hcancelled
        · obtain rfl := Option.some.inj h
          exact .advance hl (.abandon ‹_› hcancelled)
        · obtain rfl := Option.some.inj h
          exact .advance hl (.wait ‹_› (by simpa using hcancelled))
      · cases h
    · cases h
  | retry k =>
    simp only [next] at h
    split at h
    · rename_i l hget
      obtain ⟨hl, rfl⟩ := Table.get?_eq_some.mp hget
      split_ifs at h with hd
      obtain rfl := Option.some.inj h
      exact .advance hl (.retry hd)
    · cases h
  | quit k =>
    simp only [next] at h
    split at h
    · rename_i l hget
      obtain ⟨hl, rfl⟩ := Table.get?_eq_some.mp hget
      split_ifs at h with hquit
      obtain rfl := Option.some.inj h
      exact .advance hl (.quit hquit.1 hquit.2)
    · cases h
  | dispatch k =>
    simp only [next] at h
    split at h
    · rename_i l hget
      obtain ⟨hl, rfl⟩ := Table.get?_eq_some.mp hget
      split at h
      · obtain rfl := Option.some.inj h
        exact .dispatch hl ‹_› ‹_›
      · cases h
    · cases h
  | livePush k n =>
    simp only [next] at h
    split at h
    · rename_i l hget
      obtain ⟨hl, rfl⟩ := Table.get?_eq_some.mp hget
      split at h
      · rename_i ns e hd
        split_ifs at h with hn hfits
        · obtain rfl := Option.some.inj h
          exact .livePush hl hd hn (.inl rfl)
        · obtain rfl := Option.some.inj h
          exact .livePush hl hd hn (.inr rfl)
      · cases h
    · cases h
  | closeStalled k =>
    simp only [next] at h
    split at h
    · rename_i l hget
      obtain ⟨hl, rfl⟩ := Table.get?_eq_some.mp hget
      split at h
      · rename_i hd
        obtain rfl := Option.some.inj h
        exact .closeStalled hl hd
      · cases h
    · cases h
  | dispatched k =>
    simp only [next] at h
    split at h
    · rename_i l hget
      obtain ⟨hl, rfl⟩ := Table.get?_eq_some.mp hget
      split at h
      · rename_i hd
        obtain rfl := Option.some.inj h
        exact .advance hl (.dispatched hd)
      · cases h
    · cases h
  | cancel =>
    simp only [next] at h
    split_ifs at h with hidle
    obtain rfl := Option.some.inj h
    exact .cancel hidle
  | collect =>
    simp only [next] at h
    split_ifs at h with hcancelled
    obtain rfl := Option.some.inj h
    exact .collect hcancelled
  | closeNext =>
    simp only [next] at h
    split at h
    · rename_i n rest hclosing
      obtain rfl := Option.some.inj h
      exact .closeNext hclosing
    · cases h
  | return_ =>
    simp only [next] at h
    split_ifs at h with hend
    obtain rfl := Option.some.inj h
    exact .return_ hend.1 (by simpa using hend.2)

theorem sameBooks_livePush {l : TenantLoop} (hl : l ∈ r.loops.rows) (n : ℕ) (ev : Event) (d : Dispatch) :
    SameBooks r ((r.push n ev).2.setDispatch l d) := by
  apply (sameBooks_push r n ev).trans
  apply sameBooks_setDispatch
  rwa [push_loops]

-- nothing but `done` is read of how far `Hub.Close` has come
theorem Kept.of_shutdown (h : Kept cfg r) {x : Shutdown} (hdone : (x ≠ .idle) = (r.shutdown ≠ .idle)) :
    Kept cfg { r with shutdown := x } := by
  apply h.of_same
  constructor
  · rfl
  · intro T
    rfl
  · rfl
  · rfl
  · simp only [done, hdone]

theorem Kept.cancel (h : Kept cfg r) :
    Kept cfg { r with
      shutdown := .cancelled
      loops := r.loops.amend (fun l => { l with cancelled := true }) fun _ => rfl } := by
  have hout : Registry.outlines { r with
        shutdown := .cancelled
        loops := r.loops.amend (fun l => { l with cancelled := true }) fun _ => rfl } =
      r.outlines.map fun l => { l with cancelled := true } := by
    simp only [outlines, Table.amend, List.map_map]
    rfl
  refine ⟨⟨h.exact.conns, h.exact.byUser, h.exact.entered, h.exact.perUser, h.exact.perTenant, ?_,
    ?_, h.exact.handles, ?_⟩, h.occupied⟩
  · intro t ht
    obtain ⟨l, hl, hnumber, htenant, -⟩ := h.exact.running t ht
    rw [hout]
    exact ⟨_, List.mem_map_of_mem hl, hnumber, htenant, rfl⟩
  · intro l hl hcancelled
    rw [hout] at hl
    obtain ⟨m, -, rfl⟩ := List.mem_map.mp hl
    cases hcancelled
  · intro l hl
    rw [hout] at hl ⊢
    obtain ⟨m, hm, rfl⟩ := List.mem_map.mp hl
    rw [List.length_map]
    exact h.exact.numbers m hm

theorem Kept.step (hu : 0 < cfg.streamsPerUser) (ht : 0 < cfg.streamsPerTenant)
    (h : Kept cfg r) {a : Action} (hstep : Step cfg r a r') : Kept cfg r' := by
  cases hstep with
  | subscribe T u xlast =>
    obtain ⟨hexact, hoccupied⟩ := h.exact.subscribe h.occupied hu ht T u xlast
    exact ⟨hexact, hoccupied⟩
  | replayPush n ev => exact h.of_same (sameBooks_push r n ev)
  | receive hc hch => exact h.of_same (sameBooks_receive hc _ _)
  | close n => exact h.close n
  | advance hl hadvance => exact h.of_same (sameBooks_setDispatch hl _ _)
  | dispatch hl hd hbatch => exact h.of_same (sameBooks_setDispatch hl _ _)
  | livePush hl hd hn hnext => exact h.of_same (sameBooks_livePush hl _ _ _)
  | closeStalled hl hd => exact (h.of_same (sameBooks_setDispatch hl _ _)).close _
  | cancel idle => exact h.cancel
  | collect cancelled => exact h.of_shutdown (by rw [cancelled]; simp)
  | closeNext closing => exact (h.close _).of_shutdown (by rw [close_shutdown, closing]; simp)
  | return_ closed stopped => exact h.of_shutdown (by rw [closed]; simp)

def Reached (cfg : Config) : Registry → Prop := Reach (fun r a => r.next cfg a) (fun _ _ => True) {}

theorem kept_of_reached (hu : 0 < cfg.streamsPerUser) (ht : 0 < cfg.streamsPerTenant)
    (h : Reached cfg r) : Kept cfg r := by
  apply Reach.invariant h
  · constructor
    · constructor
      all_goals simp [seats, outlines, Table.empty]
    · intro t ht
      cases ht
  · intro r a r' hr _ hnext
    exact hr.step hu ht (step_of_next hnext)

def openOf (r : Registry) (T : GoString) : List Conn :=
  r.subs.rows.filter fun c => c.tenant = T ∧ c.sub.closed = false

theorem seats_eq (r : Registry) (T : GoString) :
    r.seats T = (r.openOf T).map fun c => (c.handle, c.sub.user) := by
  unfold seats openOf
  induction r.subs.rows with
  | nil => rfl
  | cons c rows ih =>
    by_cases hc : c.tenant = T ∧ c.sub.closed = false
    · simp [seat, hc, ih]
    · simp [seat, hc, ih]

theorem Kept.get?_eq_none_iff (h : Kept cfg r) : r.tenants.get? T = none ↔ r.openOf T = [] := by
  have hempty : r.openOf T = [] ↔ r.seats T = [] := by rw [seats_eq, List.map_eq_nil_iff]
  rw [hempty]
  constructor
  · intro hnone
    by_contra hne
    obtain ⟨t, ht, hT⟩ := h.exact.entered T hne
    exact Table.get?_eq_none.mp hnone t ht hT
  · intro hnil
    rw [Table.get?_eq_none]
    rintro t ht rfl
    apply h.occupied t ht
    rw [h.exact.conns t ht, hnil]
    rfl

theorem Exact.loop_of_entry (h : Exact cfg r) {l : TenantLoop} (hl : l ∈ r.loops.rows)
    (hrun : l.cancelled = false) :
    ∃ t ∈ r.tenants.rows, t.loop = l.number ∧ t.tenant = l.tenant := by
  obtain ⟨t, ht, hloop⟩ := h.needed l.outline (List.mem_map_of_mem hl) hrun
  obtain ⟨l', hl', hnumber, htenant, -⟩ := h.running t ht
  obtain ⟨m, hm, rfl⟩ := List.mem_map.mp hl'
  obtain rfl := r.loops.eq_of_key hm hl (hnumber.trans hloop)
  exact ⟨t, ht, hloop, htenant.symm⟩

theorem Kept.loops (h : Kept cfg r) (T : GoString) :
    (r.loops.rows.filter fun l => l.tenant = T ∧ l.cancelled = false).length =
      if r.openOf T = [] ∨ r.done = true then 0 else 1 := by
  cases hget : r.tenants.get? T with
  | none =>
    rw [if_pos (.inl (h.get?_eq_none_iff.mp hget)), List.length_eq_zero_iff, List.filter_eq_nil_iff]
    intro l hl hp
    obtain ⟨hT, hrun⟩ := of_decide_eq_true hp
    obtain ⟨t, ht, -, htenant⟩ := h.exact.loop_of_entry hl hrun
    exact Table.get?_eq_none.mp hget t ht (htenant.trans hT)
  | some t =>
    obtain ⟨ht, hT⟩ := Table.get?_eq_some.mp hget
    have hopen : r.openOf T ≠ [] := by
      rw [ne_eq, ← h.get?_eq_none_iff, hget]
      rintro ⟨⟩
    obtain ⟨l, hl, hnumber, htenant, hcancelled⟩ := h.exact.running t ht
    obtain ⟨m, hm, rfl⟩ := List.mem_map.mp hl
    have hkey : ∀ x ∈ r.loops.rows, decide (x.tenant = T ∧ x.cancelled = false) = true →
        x.number = t.loop := by
      intro x hx hp
      obtain ⟨hxT, hrun⟩ := of_decide_eq_true hp
      obtain ⟨t', ht', hloop, htenant'⟩ := h.exact.loop_of_entry hx hrun
      obtain rfl := r.tenants.eq_of_key ht' ht (htenant'.trans (hxT.trans hT.symm))
      exact hloop.symm
    rcases Table.filter_of_key hkey with hnil | ⟨x, hx, hp, hone⟩
    · rw [hnil]
      have hdone : r.done = true := by
        by_contra hrun
        have hin := List.filter_eq_nil_iff.mp hnil m hm
        apply hin
        rw [decide_eq_true_eq]
        exact ⟨htenant.trans hT, hcancelled.trans (by simpa using hrun)⟩
      rw [if_pos (.inr hdone)]
      rfl
    · rw [hone]
      obtain ⟨hxm, hnum⟩ := Table.get?_eq_some.mp hx
      obtain rfl := r.loops.eq_of_key hxm hm (hnum.trans hnumber.symm)
      have hrun : r.done = false := hcancelled.symm.trans (of_decide_eq_true hp).2
      rw [if_neg (by simp [hopen, hrun])]
      rfl

/-- In every interleaving a tenant has an entry as long as it has an open subscription, the entry
lists and counts them, the limits hold, and one loop reads for the tenant. -/
theorem hub_books (hu : 0 < cfg.streamsPerUser) (ht : 0 < cfg.streamsPerTenant) (h : Reached cfg r)
    (T : GoString) :
    (r.tenants.get? T = none ↔ r.openOf T = []) ∧
    (∀ t, r.tenants.get? T = some t → t.conns = (r.openOf T).map Conn.handle ∧
      ∀ u, value t.byUser u = (r.openOf T).countP fun c => c.sub.user = u) ∧
    (r.openOf T).length ≤ cfg.streamsPerTenant ∧
    (∀ u, ((r.openOf T).countP fun c => c.sub.user = u) ≤ cfg.streamsPerUser) ∧
    (r.loops.rows.filter fun l => l.tenant = T ∧ l.cancelled = false).length =
      if r.openOf T = [] ∨ r.done = true then 0 else 1 := by
  have hkept := kept_of_reached hu ht h
  refine ⟨hkept.get?_eq_none_iff, ?_, ?_, ?_, hkept.loops T⟩
  · intro t hget
    obtain ⟨hmem, rfl⟩ := Table.get?_eq_some.mp hget
    constructor
    · rw [hkept.exact.conns t hmem, seats_eq, List.map_map]
      rfl
    · intro u
      rw [(hkept.exact.byUser t hmem).value_eq u, seats_eq, List.map_map, List.countP_map]
      rfl
  · simpa [seats_eq] using hkept.exact.perTenant T
  · intro u
    simpa [seats_eq, List.countP_map, Function.comp_def] using hkept.exact.perUser T u

section Example

def after (cfg : Config) (as : List Action) : Registry :=
  (perform (fun r a => r.next cfg a) (fun _ _ => true) {} as).getD {}

theorem reached_after (as : List Action)
    (h : (perform (fun r a => next r cfg a) (fun _ _ => true) {} as).isSome = true) :
    Reached cfg (after cfg as) := by
  obtain ⟨r, hr⟩ := Option.isSome_iff_exists.mp h
  rw [after, hr]
  exact Reach.refl.perform (fun _ _ _ => trivial) as hr

-- two streams of a tenant, one of which is closed
def leaving : List Action := [.subscribe "t" "u" (.ok []), .subscribe "t" "v" (.ok []), .close 0]

theorem hub_books_leaving : ((after {} leaving).openOf "t").length = 1 ∧
    ((after {} leaving).loops.rows.filter fun l => l.tenant = goString "t" ∧
      l.cancelled = false).length = 1 :=
  ⟨rfl, (@hub_books {} _ (by decide) (by decide) (reached_after leaving rfl) "t").2.2.2.2⟩

end Example

end Registry

end TangraTicket.Stream
