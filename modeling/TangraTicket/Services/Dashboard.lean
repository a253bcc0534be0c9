import TangraTicket.Library.Tally
import TangraTicket.Services.Surroundings
import TangraTicket.Store.RuleList

/-!
The dashboard (`internal/stats/stats.go`) and the figures of both stores: the in-memory store counts
row by row (`Mem.TicketStats`), the database counts in groups (`DB.TicketStats`).
-/

namespace TangraTicket.Services.Dashboard

open GoText Store

/-- 24 hours; instants are in nanoseconds. -/
def dayLength : Time := 24 * 3600 * 1000000000

/-- The calendar date of a UTC day, by the number of days since the zero time; `Format(DayFormat)` and
`to_char(.., 'YYYY-MM-DD')` write it. -/
class Calendar where
  format : ℕ → GoString
  injective : Function.Injective format

structure DayCount where
  day : GoString
  count : ℕ := 0
deriving DecidableEq

structure AssigneeCount where
  assigneeID : GoString
  assigneeName : GoString := []
  count : ℕ := 0
deriving DecidableEq

structure Stats where
  total : ℕ := 0
  byStatus : List (GoString × ℕ)
  byPriority : List (GoString × ℕ)
  byAssignee : List AssigneeCount := []
  unassignedOpen : ℕ := 0
  createdPerDay : List DayCount
  resolvedPerDay : List DayCount

def statuses : List Status := [.open, .inProgress, .pending, .resolved, .closed]

def priorities : List Priority := [.low, .normal, .high, .urgent]

/-- `t.Truncate(24 * time.Hour)`. -/
def truncateDay (t : Time) : Time := t - t % dayLength

section Days

variable [Calendar]

def dayOf (t : Time) : GoString := Calendar.format (t / dayLength)

/-- The days from `d` on; `room` is how many there may still be. -/
def daysFrom (last : Time) : (room : ℕ) → (d : Time) → List DayCount
  | 0, _ => []
  | room + 1, d => if d ≤ last then { day := dayOf d } :: daysFrom last room (d + dayLength) else []

def daySeries (since now : Time) : List DayCount := daysFrom (truncateDay now) 3661 (truncateDay since)

def bumpDay (series : List DayCount) (t : Time) : List DayCount :=
  match series with
  | [] => []
  | d :: ds => if d.day = dayOf t then { d with count := d.count + 1 } :: ds else d :: bumpDay ds t

end Days

def fill (series : List DayCount) (days : List (GoString × ℕ)) : List DayCount :=
  series.map fun d => { d with count := Tally.get days d.day }

def isResolution (since : Time) (h : History) : Bool :=
  h.field = .status && h.newValue = Status.resolved.text && since ≤ h.createdAt

def noStatuses : List (GoString × ℕ) := statuses.map fun s => (s.text, 0)

def noPriorities : List (GoString × ℕ) := priorities.map fun p => (p.text, 0)

section Memory

variable [Calendar]

def noStats (since now : Time) : Stats where
  byStatus := noStatuses
  byPriority := noPriorities
  createdPerDay := daySeries since now
  resolvedPerDay := daySeries since now

def countAssignee (counts : List AssigneeCount) (t : Ticket) : List AssigneeCount :=
  match counts with
  | [] => [⟨t.assigneeID, t.assigneeName, 1⟩]
  | ac :: rest =>
    if ac.assigneeID = t.assigneeID then
      { ac with
        assigneeName := if ac.assigneeName = [] then t.assigneeName else ac.assigneeName,
        count := ac.count + 1 } :: rest
    else ac :: countAssignee rest t

def isUnassignedOpen (t : Ticket) : Bool := active t.status && t.assigneeID = []

def isAssignedOpen (t : Ticket) : Bool := active t.status && t.assigneeID ≠ []

def countTicket (since : Time) (st : Stats) (t : Ticket) : Stats where
  total := st.total + 1
  byStatus := Tally.add 1 st.byStatus t.status.text
  byPriority := Tally.add 1 st.byPriority t.priority.text
  byAssignee := if isAssignedOpen t then countAssignee st.byAssignee t else st.byAssignee
  unassignedOpen := if isUnassignedOpen t then st.unassignedOpen + 1 else st.unassignedOpen
  createdPerDay := if since ≤ t.createdAt then bumpDay st.createdPerDay t.createdAt else st.createdPerDay
  resolvedPerDay := st.resolvedPerDay

def lessAssignee (less : GoString → GoString → Bool) (a b : AssigneeCount) : Bool :=
  if a.count ≠ b.count then b.count < a.count else less a.assigneeID b.assigneeID

/-- `Mem.TicketStats`. -/
def memTicketStats (m : Mem) (now : Time) (tenantID : GoString) (since : Time) : Stats :=
  let st := (m.tickets.rows.filter (·.tenantID = tenantID)).foldl (countTicket since) (noStats since now)
  let resolutions := m.history.filter fun h => h.tenantID = tenantID && isResolution since h
  { st with
    byAssignee := sortSlice (lessAssignee lessString) st.byAssignee
    resolvedPerDay := resolutions.foldl (fun series h => bumpDay series h.createdAt) st.resolvedPerDay }

end Memory

section Database

variable [Calendar] (c : Collation)

def maxText (ts : List GoString) : GoString :=
  ts.tail.foldl (fun m t => if c.text m t then t else m) (ts.headD [])

/-- `DB.TicketStats` over the rows of the tenant, which row-level security selects. -/
def dbTicketStats (tickets : List Ticket) (history : List History) (now : Time)
    (tenantID : GoString) (since : Time) : Stats :=
  let tickets := tickets.filter (·.tenantID = tenantID)
  let history := history.filter (·.tenantID = tenantID)
  let byStatus := (Tally.groups (tickets.map (·.status.text))).foldl Tally.set noStatuses
  let assigned := tickets.filter isAssignedOpen
  { total := Tally.sum byStatus
    byStatus := byStatus
    byPriority := (Tally.groups (tickets.map (·.priority.text))).foldl Tally.set noPriorities
    byAssignee := sortSlice (lessAssignee c.text) ((Tally.groups (assigned.map (·.assigneeID))).map fun g =>
      ⟨g.1, maxText c ((assigned.filter (·.assigneeID = g.1)).map (·.assigneeName)), g.2⟩)
    unassignedOpen := (tickets.filter isUnassignedOpen).length
    createdPerDay := fill (daySeries since now)
      (Tally.groups ((tickets.filter (since ≤ ·.createdAt)).map fun t => dayOf t.createdAt))
    resolvedPerDay := fill (daySeries since now)
      (Tally.groups ((history.filter (isResolution since)).map fun h => dayOf h.createdAt)) }

end Database

def defaultDays : ℤ := 30

def maxDays : ℤ := 365

def clamp (days : ℤ) : ℤ := if days ≤ 0 then defaultDays else if days > maxDays then maxDays else days

/-- The first instant of the window of `days` days that ends today. -/
def windowStart (now : Time) (days : ℤ) : Time := truncateDay now - (clamp days - 1).toNat * dayLength

/-- `Service.Get`. -/
def getStats (ticketStats : (tenantID : GoString) → (since : Time) → Except RepoErr Stats)
    (now : Time) (subj : Subjects) (days : ℤ) : Except Err Stats :=
  if subj.tenantID = [] then .error (.forbidden "tenant required")
  else (ticketStats subj.tenantID (windowStart now days)).mapError .repo

end TangraTicket.Services.Dashboard
