import TangraTicket.Library.CivilDate
import TangraTicket.Services.Dashboard

/-!
The figures of the dashboard add up, and both stores give the same ones.
-/

namespace TangraTicket.Services.Dashboard

open GoText Store

section Days

variable [Calendar]

omit [Calendar] in
theorem dayLength_pos : 0 < dayLength := by decide

omit [Calendar] in
theorem truncateDay_eq (t : Time) : truncateDay t = t / dayLength * dayLength := by
  rw [truncateDay, ← Nat.div_mul_self_eq_mod_sub_self]

theorem dayOf_mul (n : ℕ) : dayOf (n * dayLength) = Calendar.format n := by
  rw [dayOf, Nat.mul_div_cancel n dayLength_pos]

theorem daysFrom_eq (first last room : ℕ) : daysFrom (last * dayLength) room (first * dayLength) =
    (List.range' first (min room (last + 1 - first))).map fun n => { day := Calendar.format n } := by
  induction room generalizing first with
  | zero => simp [daysFrom]
  | succ room ih =>
    rw [daysFrom, dayOf_mul]
    by_cases h : first ≤ last
    · have hle : first * dayLength ≤ last * dayLength := Nat.mul_le_mul_right _ h
      have hmin : min (room + 1) (last + 1 - first) = min room (last + 1 - (first + 1)) + 1 := by omega
      have hnext : first * dayLength + dayLength = (first + 1) * dayLength := by
        rw [Nat.add_mul, Nat.one_mul]
      rw [if_pos hle, hnext, ih, hmin, List.range'_succ, List.map_cons]
    · have hlt : ¬ first * dayLength ≤ last * dayLength := by
        rw [Nat.mul_le_mul_right_iff dayLength_pos]
        exact h
      have hmin : min (room + 1) (last + 1 - first) = 0 := by omega
      rw [if_neg hlt, hmin]
      rfl

def days (series : List DayCount) : List GoString := series.map DayCount.day

theorem days_daySeries (since now : Time) : days (daySeries since now) =
    (List.range' (since / dayLength) (min 3661 (now / dayLength + 1 - since / dayLength))).map
    Calendar.format := by
  rw [days, daySeries, truncateDay_eq, truncateDay_eq, daysFrom_eq, List.map_map]
  rfl

theorem nodup_daySeries (since now : Time) : (days (daySeries since now)).Nodup := by
  rw [days_daySeries]
  exact (List.nodup_range' ..).map Calendar.injective

theorem dayOf_mem_daySeries {since now t : Time}
    (hwindow : now / dayLength < since / dayLength + 3661) (hsince : since ≤ t) (hnow : t ≤ now) :
    dayOf t ∈ days (daySeries since now) := by
  have hfirst := Nat.div_le_div_right (c := dayLength) hsince
  have hlast := Nat.div_le_div_right (c := dayLength) hnow
  have hroom : ∀ first last n : ℕ, first ≤ n → n ≤ last → last < first + 3661 →
      n < first + min 3661 (last + 1 - first) := by
    omega
  rw [days_daySeries]
  exact List.mem_map_of_mem (List.mem_range'_1.mpr ⟨hfirst, hroom _ _ _ hfirst hlast hwindow⟩)

theorem bumpDay_eq {series : List DayCount} (h : (days series).Nodup) (t : Time) :
    bumpDay series t = series.map fun d => if d.day = dayOf t then
    { d with count := d.count + 1 } else d := by
  induction series with
  | nil => rfl
  | cons d ds ih =>
    obtain ⟨hd, hds⟩ := List.nodup_cons.mp h
    rw [bumpDay, List.map_cons]
    by_cases hday : d.day = dayOf t
    · have hrest : (ds.map fun d => if d.day = dayOf t then { d with count := d.count + 1 }
          else d) = ds := by
        conv_rhs => rw [← List.map_id ds]
        refine List.map_congr_left fun d' hd' => if_neg fun heq => hd ?_
        exact List.mem_map.mpr ⟨d', hd', heq.trans hday.symm⟩
      rw [if_pos hday, if_pos hday, hrest]
    · rw [if_neg hday, if_neg hday, ih hds]

omit [Calendar] in
theorem days_map {series : List DayCount} {f : DayCount → DayCount} (hf : ∀ d, (f d).day = d.day) :
    days (series.map f) = days series := by
  rw [days, List.map_map]
  exact List.map_congr_left fun d _ => hf d

theorem foldl_bumpDay {series : List DayCount} (h : (days series).Nodup) (ts : List Time) :
    ts.foldl bumpDay series =
      series.map fun d => { d with count := d.count + Tally.get (Tally.groups (ts.map dayOf)) d.day } := by
  induction ts generalizing series with
  | nil => exact (List.map_id series).symm
  | cons t ts ih =>
    have hdays : days (bumpDay series t) = days series := by
      rw [bumpDay_eq h]
      exact days_map fun d => by split_ifs <;> rfl
    rw [List.foldl_cons, ih (by rwa [hdays]), bumpDay_eq h, List.map_map]
    refine List.map_congr_left fun d _ => ?_
    rw [Function.comp_apply, List.map_cons, Tally.get_groups_cons]
    by_cases hday : d.day = dayOf t
    · rw [if_pos hday, if_pos hday.symm, ← Nat.add_assoc, Nat.add_right_comm]
    · rw [if_neg hday, if_neg (Ne.symm hday), Nat.add_zero]

theorem count_daySeries (since now : Time) : ∀ d ∈ daySeries since now, d.count = 0 := by
  intro d hd
  rw [daySeries, truncateDay_eq, truncateDay_eq, daysFrom_eq] at hd
  obtain ⟨n, -, rfl⟩ := List.mem_map.mp hd
  rfl

theorem foldl_bumpDay_daySeries (since now : Time) (ts : List Time) :
    ts.foldl bumpDay (daySeries since now) = fill (daySeries since now) (Tally.groups (ts.map dayOf)) := by
  rw [foldl_bumpDay (nodup_daySeries since now), fill]
  refine List.map_congr_left fun d hd => ?_
  rw [count_daySeries since now d hd, Nat.zero_add]

theorem sum_fill {since now : Time} (hwindow : now / dayLength < since / dayLength + 3661) {ts : List Time}
    (h : ∀ t ∈ ts, since ≤ t ∧ t ≤ now) :
    ((fill (daySeries since now) (Tally.groups (ts.map dayOf))).map DayCount.count).sum = ts.length := by
  have hcounts : (fill (daySeries since now) (Tally.groups (ts.map dayOf))).map DayCount.count =
      (days (daySeries since now)).map (Tally.get (Tally.groups (ts.map dayOf))) := by
    rw [fill, days, List.map_map, List.map_map]
    rfl
  rw [hcounts, Tally.sum_groups (nodup_daySeries since now), List.length_map]
  intro day hday
  obtain ⟨t, ht, rfl⟩ := List.mem_map.mp hday
  exact dayOf_mem_daySeries hwindow (h t ht).1 (h t ht).2

end Days

section Rows

variable [Calendar]

theorem foldl_countTicket (since : Time) (rows : List Ticket) (st : Stats) :
    rows.foldl (countTicket since) st =
      { total := st.total + rows.length
        byStatus := (rows.map (·.status.text)).foldl (Tally.add 1) st.byStatus
        byPriority := (rows.map (·.priority.text)).foldl (Tally.add 1) st.byPriority
        byAssignee := (rows.filter isAssignedOpen).foldl countAssignee st.byAssignee
        unassignedOpen := st.unassignedOpen + (rows.filter isUnassignedOpen).length
        createdPerDay :=
          ((rows.filter (since ≤ ·.createdAt)).map (·.createdAt)).foldl bumpDay st.createdPerDay
        resolvedPerDay := st.resolvedPerDay } := by
  induction rows generalizing st with
  | nil => rfl
  | cons t rows ih =>
    have htotal : st.total + 1 + rows.length = st.total + (t :: rows).length := by
      rw [List.length_cons]
      omega
    have hassigned : (rows.filter isAssignedOpen).foldl countAssignee
        (if isAssignedOpen t then countAssignee st.byAssignee t else st.byAssignee) =
          ((t :: rows).filter isAssignedOpen).foldl countAssignee st.byAssignee := by
      rw [List.filter_cons]
      split_ifs <;> rfl
    have hopen : (if isUnassignedOpen t then st.unassignedOpen + 1 else st.unassignedOpen) +
        (rows.filter isUnassignedOpen).length = st.unassignedOpen +
        ((t :: rows).filter isUnassignedOpen).length := by
      rw [List.filter_cons]
      split_ifs
      · rw [List.length_cons]
        omega
      · rfl
    have hcreated : ((rows.filter (since ≤ ·.createdAt)).map (·.createdAt)).foldl bumpDay
        (if since ≤ t.createdAt then bumpDay st.createdPerDay t.createdAt else st.createdPerDay) =
          (((t :: rows).filter (since ≤ ·.createdAt)).map (·.createdAt)).foldl bumpDay
          st.createdPerDay := by
      rw [List.filter_cons]
      by_cases h : since ≤ t.createdAt
      · rw [if_pos h, if_pos (by simpa using h), List.map_cons, List.foldl_cons]
      · rw [if_neg h, if_neg (by simpa using h)]
    rw [List.foldl_cons, ih, countTicket, htotal, hassigned, hopen, hcreated, List.map_cons,
      List.map_cons, List.foldl_cons, List.foldl_cons]

def figures (counts : List AssigneeCount) : List (GoString × ℕ) :=
  counts.map fun ac => (ac.assigneeID, ac.count)

omit [Calendar] in
theorem figures_countAssignee (counts : List AssigneeCount) (t : Ticket) :
    figures (countAssignee counts t) = Tally.add 1 (figures counts) t.assigneeID := by
  rw [Tally.add]
  induction counts with
  | nil => rfl
  | cons ac counts ih =>
    rw [countAssignee]
    have hcons : figures (ac :: counts) = (ac.assigneeID, ac.count) :: figures counts := rfl
    rw [hcons, Tally.alter]
    by_cases h : ac.assigneeID = t.assigneeID
    · rw [if_pos h, if_pos h, ← h]
      rfl
    · rw [if_neg h, if_neg h, ← ih]
      rfl

omit [Calendar] in
theorem figures_foldl (rows : List Ticket) (counts : List AssigneeCount) :
    figures (rows.foldl countAssignee counts) = (rows.map (·.assigneeID)).foldl (Tally.add 1)
      (figures counts) := by
  induction rows generalizing counts with
  | nil => rfl
  | cons t rows ih => rw [List.foldl_cons, ih, figures_countAssignee, List.map_cons, List.foldl_cons]

end Rows

section Figures

variable [Calendar]

def ticketsOf (T : GoString) (tickets : List Ticket) : List Ticket := tickets.filter (·.tenantID = T)

def resolutionsOf (T : GoString) (since : Time) (history : List History) : List History :=
  history.filter fun h => h.tenantID = T && isResolution since h

/-- The sums of a dashboard agree with each other and with the rows. -/
structure AddsUp (m : Mem) (T : GoString) (since : Time) (st : Stats) : Prop where
  total : st.total = (ticketsOf T m.tickets.rows).length
  statuses : (statuses.map fun s => Tally.get st.byStatus s.text).sum = st.total
  priorities : (priorities.map fun p => Tally.get st.byPriority p.text).sum = st.total
  assignees : (st.byAssignee.map AssigneeCount.count).sum + st.unassignedOpen =
    ((ticketsOf T m.tickets.rows).filter fun t => active t.status).length
  created : (st.createdPerDay.map DayCount.count).sum =
    ((ticketsOf T m.tickets.rows).filter (since ≤ ·.createdAt)).length
  resolved : (st.resolvedPerDay.map DayCount.count).sum = (resolutionsOf T since m.history).length
  created_once : ∀ t ∈ ticketsOf T m.tickets.rows, since ≤ t.createdAt →
    (st.createdPerDay.filter (·.day = dayOf t.createdAt)).length = 1
  resolved_once : ∀ h ∈ resolutionsOf T since m.history,
    (st.resolvedPerDay.filter (·.day = dayOf h.createdAt)).length = 1

structure SameFigures (st db : Stats) : Prop where
  total : db.total = st.total
  byStatus : ∀ s, Tally.get db.byStatus s = Tally.get st.byStatus s
  byPriority : ∀ p, Tally.get db.byPriority p = Tally.get st.byPriority p
  byAssignee : (figures db.byAssignee).Perm (figures st.byAssignee)
  unassignedOpen : db.unassignedOpen = st.unassignedOpen
  createdPerDay : db.createdPerDay = st.createdPerDay
  resolvedPerDay : db.resolvedPerDay = st.resolvedPerDay

variable (m : Mem) (now : Time) (T : GoString) (since : Time)

theorem memTicketStats_eq : memTicketStats m now T since =
    { total := (ticketsOf T m.tickets.rows).length
      byStatus := ((ticketsOf T m.tickets.rows).map (·.status.text)).foldl (Tally.add 1) noStatuses
      byPriority := ((ticketsOf T m.tickets.rows).map (·.priority.text)).foldl (Tally.add 1) noPriorities
      byAssignee := sortSlice (lessAssignee lessString)
        (((ticketsOf T m.tickets.rows).filter isAssignedOpen).foldl countAssignee [])
      unassignedOpen := ((ticketsOf T m.tickets.rows).filter isUnassignedOpen).length
      createdPerDay := fill (daySeries since now)
        (Tally.groups (((ticketsOf T m.tickets.rows).filter (since ≤ ·.createdAt)).map fun t =>
        dayOf t.createdAt))
      resolvedPerDay := fill (daySeries since now)
        (Tally.groups ((resolutionsOf T since m.history).map fun h => dayOf h.createdAt)) } := by
  have hresolved : (resolutionsOf T since m.history).foldl
      (fun series h => bumpDay series h.createdAt) (daySeries since now) =
      fill (daySeries since now)
        (Tally.groups ((resolutionsOf T since m.history).map fun h => dayOf h.createdAt)) := by
    have hfold := foldl_bumpDay_daySeries since now ((resolutionsOf T since m.history).map (·.createdAt))
    rwa [List.foldl_map, List.map_map] at hfold
  rw [memTicketStats, ← ticketsOf, ← resolutionsOf, foldl_countTicket, noStats]
  dsimp only
  rw [hresolved, foldl_bumpDay_daySeries, List.map_map, Nat.zero_add, Nat.zero_add]
  rfl

omit [Calendar] in
theorem get_noStatuses (k : GoString) : Tally.get noStatuses k = 0 := by
  have hzeros := Tally.get_zeros (statuses.map Status.text) k
  rwa [List.map_map] at hzeros

omit [Calendar] in
theorem get_noPriorities (k : GoString) : Tally.get noPriorities k = 0 := by
  have hzeros := Tally.get_zeros (priorities.map Priority.text) k
  rwa [List.map_map] at hzeros

omit [Calendar] in
theorem mem_statuses {s : Status} (h : validStatus s = true) : s.text ∈ statuses.map Status.text := by
  cases s <;> first | exact List.mem_map_of_mem (by decide) | cases h

omit [Calendar] in
theorem mem_priorities {p : Priority} (h : validPriority p = true) :
    p.text ∈ priorities.map Priority.text := by
  cases p <;> first | exact List.mem_map_of_mem (by decide) | cases h

omit [Calendar] in
theorem length_active (rows : List Ticket) :
    (rows.filter isAssignedOpen).length + (rows.filter isUnassignedOpen).length =
    (rows.filter fun t => active t.status).length := by
  induction rows with
  | nil => rfl
  | cons t rows ih =>
    simp only [List.filter_cons, isAssignedOpen, isUnassignedOpen] at ih ⊢
    by_cases hactive : active t.status = true <;> by_cases hassigned : t.assigneeID = [] <;>
      simp [hactive, hassigned] <;> omega

omit [Calendar] in
theorem sum_figures (counts : List AssigneeCount) :
    (counts.map AssigneeCount.count).sum = Tally.sum (figures counts) := by
  rw [Tally.sum, figures, List.map_map]
  rfl

omit [Calendar] in
theorem figures_assignees {rows rows' : List Ticket} (h : rows.Perm rows')
    (less : AssigneeCount → AssigneeCount → Bool) :
    (figures (sortSlice less (rows.foldl countAssignee []))).Perm
    (Tally.groups (rows'.map (·.assigneeID))) := by
  have hsorted : (figures (sortSlice less (rows.foldl countAssignee []))).Perm
      (figures (rows.foldl countAssignee [])) :=
    (perm_sortSlice less _).map _
  refine hsorted.trans ?_
  rw [figures_foldl]
  exact Tally.foldl_add_perm (h.map _)

theorem length_filter_fill {since now t : Time}
    (hwindow : now / dayLength < since / dayLength + 3661) (hsince : since ≤ t) (hnow : t ≤ now)
    (counts : List (GoString × ℕ)) :
    ((fill (daySeries since now) counts).filter (·.day = dayOf t)).length = 1 := by
  have hdays : days (fill (daySeries since now) counts) = days (daySeries since now) := by
    rw [days, fill, List.map_map]
    rfl
  have hone := List.count_eq_one_of_mem (nodup_daySeries since now)
    (dayOf_mem_daySeries hwindow hsince hnow)
  rw [← hdays, days, List.count, List.countP_map, List.countP_eq_length_filter] at hone
  refine Eq.trans (congrArg List.length (List.filter_congr fun d _ => ?_)) hone
  exact (beq_eq_decide ..).symm

variable {m now since}

theorem addsUp_memTicketStats
    (hvalid : ∀ t ∈ m.tickets.rows, validStatus t.status = true ∧ validPriority t.priority = true)
    (hwindow : now / dayLength < since / dayLength + 3661)
    (hcreated : ∀ t ∈ m.tickets.rows, t.createdAt ≤ now) (hresolved : ∀ h ∈ m.history, h.createdAt ≤
      now) : AddsUp m T since (memTicketStats m now T since) := by
  have hmem : ∀ t ∈ ticketsOf T m.tickets.rows, t ∈ m.tickets.rows := fun t ht => (List.mem_filter.mp ht).1
  have hin : ∀ h ∈ resolutionsOf T since m.history, since ≤ h.createdAt ∧ h.createdAt ≤ now := by
    intro h hh
    obtain ⟨hmem, hresolution⟩ := List.mem_filter.mp hh
    simp only [isResolution, Bool.and_eq_true, decide_eq_true_eq] at hresolution
    exact ⟨hresolution.2.2, hresolved h hmem⟩
  rw [memTicketStats_eq]
  refine ⟨rfl, ?_, ?_, ?_, ?_, ?_, fun t ht hsince => ?_, fun h hh => ?_⟩
  · have hknown : ∀ s ∈ (ticketsOf T m.tickets.rows).map (·.status.text), s ∈ statuses.map Status.text :=
      List.forall_mem_map.mpr fun t ht => mem_statuses (hvalid t (hmem t ht)).1
    have hsum := Tally.sum_groups (by decide) hknown
    rw [List.map_map, List.length_map] at hsum
    rw [← hsum]
    congr 1
    refine List.map_congr_left fun s _ => ?_
    rw [Tally.get_foldl_add, get_noStatuses, Nat.zero_add]
    rfl
  · have hknown : ∀ p ∈ (ticketsOf T m.tickets.rows).map (·.priority.text),
        p ∈ priorities.map Priority.text :=
      List.forall_mem_map.mpr fun t ht => mem_priorities (hvalid t (hmem t ht)).2
    have hsum := Tally.sum_groups (by decide) hknown
    rw [List.map_map, List.length_map] at hsum
    rw [← hsum]
    congr 1
    refine List.map_congr_left fun p _ => ?_
    rw [Tally.get_foldl_add, get_noPriorities, Nat.zero_add]
    rfl
  · have hperm :=
      figures_assignees (List.Perm.refl ((ticketsOf T m.tickets.rows).filter isAssignedOpen))
        (lessAssignee lessString)
    have hsum : Tally.sum (figures (sortSlice (lessAssignee lessString)
        (((ticketsOf T m.tickets.rows).filter isAssignedOpen).foldl countAssignee []))) =
          ((ticketsOf T m.tickets.rows).filter isAssignedOpen).length := by
      rw [Tally.sum, (hperm.map Prod.snd).sum_eq, ← Tally.sum, Tally.sum_groups_self, List.length_map]
    rw [sum_figures, hsum, length_active]
  · have hinside : ∀ at_ ∈ ((ticketsOf T m.tickets.rows).filter (since ≤ ·.createdAt)).map (·.createdAt),
        since ≤ at_ ∧ at_ ≤ now := by
      refine List.forall_mem_map.mpr fun t ht => ?_
      obtain ⟨ht, hsince⟩ := List.mem_filter.mp ht
      exact ⟨of_decide_eq_true hsince, hcreated t (hmem t ht)⟩
    have hsum := sum_fill hwindow hinside
    rwa [List.map_map, List.length_map] at hsum
  · have hinside : ∀ at_ ∈ (resolutionsOf T since m.history).map (·.createdAt), since ≤ at_ ∧ at_ ≤ now :=
      List.forall_mem_map.mpr hin
    have hsum := sum_fill hwindow hinside
    rwa [List.map_map, List.length_map] at hsum
  · exact length_filter_fill hwindow hsince (hcreated t (hmem t ht)) _
  · exact length_filter_fill hwindow (hin h hh).1 (hin h hh).2 _

variable {tickets : List Ticket} {history : List History}

omit [Calendar] in
theorem sum_byStatus {rows : List Ticket} (hvalid : ∀ t ∈ rows, validStatus t.status = true) :
    Tally.sum ((Tally.groups (rows.map (·.status.text))).foldl Tally.set noStatuses) = rows.length := by
  have htexts : ∀ k ∈ rows.map (·.status.text), k ∈ statuses.map Status.text :=
    List.forall_mem_map.mpr fun t ht => mem_statuses (hvalid t ht)
  have hnone : noStatuses.map Prod.fst = statuses.map Status.text := by rw [noStatuses, List.map_map]; rfl
  have hkeys : ((Tally.groups (rows.map (·.status.text))).foldl Tally.set noStatuses).map Prod.fst =
      statuses.map Status.text := by
    rw [Tally.keys_foldl_set, hnone]
    intro e he
    have hkey : e.1 ∈ (Tally.groups (rows.map (·.status.text))).map Prod.fst := List.mem_map_of_mem he
    rw [Tally.keys_groups, List.mem_dedup] at hkey
    exact hnone ▸ htexts _ hkey
  have hnodup : (statuses.map Status.text).Nodup := by decide
  have hget : Tally.get ((Tally.groups (rows.map (·.status.text))).foldl Tally.set noStatuses) =
      Tally.get (Tally.groups (rows.map (·.status.text))) := funext fun k =>
        Tally.get_foldl_groups get_noStatuses _ k
  rw [Tally.sum_eq (hkeys ▸ hnodup), hkeys, hget, Tally.sum_groups hnodup htexts, List.length_map]

theorem sameFigures_dbTicketStats (c : Collation) (htickets : tickets.Perm m.tickets.rows)
    (hhistory : history.Perm m.history) (hvalid : ∀ t ∈ m.tickets.rows, validStatus t.status = true) :
    SameFigures (memTicketStats m now T since) (dbTicketStats c tickets history now T since) := by
  have hrows : (ticketsOf T tickets).Perm (ticketsOf T m.tickets.rows) := htickets.filter _
  have hresolutions : (resolutionsOf T since history).Perm (resolutionsOf T since m.history) :=
    hhistory.filter _
  have hfill : ∀ {ks ks' : List GoString}, ks.Perm ks' →
      fill (daySeries since now) (Tally.groups ks) = fill (daySeries since now) (Tally.groups ks') := by
    intro ks ks' h
    rw [fill, fill]
    exact List.map_congr_left fun d _ => by rw [Tally.get_groups_perm h]
  rw [memTicketStats_eq]
  refine ⟨?_, fun s => ?_, fun p => ?_, ?_, ?_, ?_, ?_⟩
  · exact (sum_byStatus fun t ht => hvalid t (htickets.mem_iff.mp (List.mem_filter.mp ht).1)).trans
      hrows.length_eq
  · show Tally.get ((Tally.groups ((ticketsOf T tickets).map (·.status.text))).foldl Tally.set
      noStatuses) s = _
    rw [Tally.get_foldl_groups get_noStatuses, Tally.get_foldl_add, get_noStatuses, Nat.zero_add,
      Tally.get_groups_perm (hrows.map _)]
  · show Tally.get ((Tally.groups ((ticketsOf T tickets).map (·.priority.text))).foldl Tally.set
      noPriorities) p = _
    rw [Tally.get_foldl_groups get_noPriorities, Tally.get_foldl_add, get_noPriorities, Nat.zero_add,
      Tally.get_groups_perm (hrows.map _)]
  · refine List.Perm.trans ?_
      (figures_assignees (hrows.filter isAssignedOpen).symm (lessAssignee lessString)).symm
    refine ((perm_sortSlice (lessAssignee c.text) _).map _).trans (List.Perm.of_eq ?_)
    rw [List.map_map]
    exact List.map_id _
  · exact (hrows.filter _).length_eq
  · exact hfill ((hrows.filter _).map _)
  · have hboth : (history.filter (·.tenantID = T)).filter (isResolution since) =
        resolutionsOf T since history := by
      rw [List.filter_filter, resolutionsOf]
      exact List.filter_congr fun h _ => Bool.and_comm _ _
    refine Eq.trans ?_ (hfill (hresolutions.map _))
    rw [← hboth]
    rfl

end Figures

theorem clamp_bounds (days : ℤ) : 1 ≤ clamp days ∧ clamp days ≤ 365 := by
  unfold clamp defaultDays maxDays
  split_ifs <;> omega

theorem windowStart_day (now : Time) (days : ℤ) :
    now / dayLength ≤ windowStart now days / dayLength + 364 := by
  have hdays := clamp_bounds days
  have hback : (clamp days - 1).toNat ≤ 364 := by omega
  rw [windowStart, truncateDay_eq, ← Nat.sub_mul, Nat.mul_div_cancel _ dayLength_pos]
  generalize (clamp days - 1).toNat = back at hback
  have hnat : ∀ n : ℕ, n ≤ n - back + 364 := by omega
  exact hnat _

/-- The dashboard adds up for every store, tenant and window that ends today, and the database shows
the same figures. -/
theorem dashboard_adds_up [Calendar] (c : Collation) {m : Mem} {tickets : List Ticket}
    {history : List History} (htickets : tickets.Perm m.tickets.rows) (hhistory : history.Perm m.history)
    (hvalid : ∀ t ∈ m.tickets.rows, validStatus t.status = true ∧ validPriority t.priority = true)
    {now storeNow : Time} (htoday : storeNow / dayLength = now / dayLength)
    (hcreated : ∀ t ∈ m.tickets.rows, t.createdAt ≤ storeNow)
    (hresolved : ∀ h ∈ m.history, h.createdAt ≤ storeNow) {subj : Subjects}
    (hsubj : subj.tenantID ≠ []) (days : ℤ) :
    ∃ st db, getStats (fun T since => .ok (memTicketStats m storeNow T since)) now subj days = .ok st ∧
      getStats (fun T since => .ok (dbTicketStats c tickets history storeNow T since)) now subj
      days = .ok db ∧
      AddsUp m subj.tenantID (windowStart now days) st ∧ SameFigures st db := by
  refine ⟨_, _, if_neg hsubj, if_neg hsubj, ?_, ?_⟩
  · refine addsUp_memTicketStats subj.tenantID hvalid ?_ hcreated hresolved
    have hwindow := windowStart_day now days
    rw [htoday]
    exact Nat.lt_of_le_of_lt hwindow (Nat.add_lt_add_left (by decide) _)
  · exact sameFigures_dbTicketStats subj.tenantID c htickets hhistory fun t ht => (hvalid t ht).1

@[reducible] def gregorian : Calendar where
  format n := CivilDate.text (CivilDate.ofDay n)
  injective := CivilDate.text_ofDay_injective

section Example

-- hours of the days since the zero time
def hour (day h : ℕ) : Time := day * dayLength + h * 3600000000000

def ticketAt (id : GoString) (status : Status) (assignee : GoString) (at_ : Time) : Ticket :=
  { id := id, tenantID := "acme", status := status, priority := .high, assigneeID := assignee,
    createdAt := at_ }

-- 20, 25 and 28 February and 2 March 2026, and a ticket of another tenant
def weekTickets : List Ticket :=
  [ticketAt "1" .resolved "u1" (hour 739666 10), ticketAt "2" .open "u1" (hour 739671 23),
    ticketAt "3" .pending [] (hour 739674 0), ticketAt "4" .open [] (hour 739676 8),
    { ticketAt "5" .open [] (hour 739675 8) with tenantID := "other" }]

def resolvedSunday : History :=
  { tenantID := "acme", ticketID := "1", field := .status, newValue := "resolved", actorKind := .agent,
    createdAt := hour 739675 12 }

def weekMem : Mem := { tickets := ⟨weekTickets, by decide⟩, history := [resolvedSunday] }

theorem week_adds_up :
    letI := gregorian
    ∃ st db, getStats (fun T since => .ok (memTicketStats weekMem (hour 739676 10) T since)) (hour 739676 9)
        ⟨"acme", "u1", [], .agent⟩ 7 = .ok st ∧
      getStats (fun T since =>
        .ok (dbTicketStats bytewise weekTickets.reverse [resolvedSunday] (hour 739676 10) T since))
        (hour 739676 9) ⟨"acme", "u1", [], .agent⟩ 7 = .ok db ∧
      AddsUp weekMem "acme" (windowStart (hour 739676 9) 7) st ∧ SameFigures st db ∧
      st.createdPerDay = [⟨"2026-02-24", 0⟩, ⟨"2026-02-25", 1⟩, ⟨"2026-02-26", 0⟩,
        ⟨"2026-02-27", 0⟩, ⟨"2026-02-28", 1⟩, ⟨"2026-03-01", 0⟩, ⟨"2026-03-02", 1⟩] := by
  let := gregorian
  have hvalid : ∀ t ∈ weekMem.tickets.rows, validStatus t.status = true ∧
      validPriority t.priority = true := by
    decide +kernel
  have hcreated : ∀ t ∈ weekMem.tickets.rows, t.createdAt ≤ hour 739676 10 := by decide +kernel
  have hresolved : ∀ h ∈ weekMem.history, h.createdAt ≤ hour 739676 10 := by decide +kernel
  obtain ⟨st, db, hst, hdb, hsums, hsame⟩ := dashboard_adds_up bytewise weekTickets.reverse_perm
    (List.Perm.refl _) hvalid
    (show hour 739676 10 / dayLength = hour 739676 9 / dayLength by decide +kernel) hcreated hresolved
    (show (⟨"acme", "u1", [], .agent⟩ : Subjects).tenantID ≠ [] by decide) 7
  refine ⟨st, db, hst, hdb, hsums, hsame, ?_⟩
  rw [← Except.ok.inj hst]
  decide +kernel

end Example

end TangraTicket.Services.Dashboard
