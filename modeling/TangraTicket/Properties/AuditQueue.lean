import TangraTicket.Services.AuditWriter

/-!
What becomes of the audit rows, in any order of the calls and of the goroutine: every queued row is
handed to the store once, in the order of the queue. A `Close` that meets a `Flush` being served
keeps the goroutine handing over zero rows for good.
-/

namespace TangraTicket.Services.Audit

open GoText Machine

-- what was received and not handed over yet
def Loop.hand : Loop → List (Option AuditRow)
  | .writing row _ => [row]
  | _ => []

-- the `Flush` call being served
def Loop.flush? : Loop → Option ℕ
  | .writing _ flush => flush
  | .draining n => some n
  | _ => none

@[simp] theorem Loop.hand_writing (row : Option AuditRow) (flush : Option ℕ) :
    (writing row flush).hand = [row] := rfl

@[simp] theorem Loop.hand_stopped : stopped.hand = [] := rfl

@[simp] theorem Loop.hand_idle (flush : Option ℕ) : (idle flush).hand = [] := by cases flush <;> rfl

@[simp] theorem Loop.flush?_idle (flush : Option ℕ) : (idle flush).flush? = flush := by cases flush <;> rfl

@[simp] theorem Loop.flush?_writing (row : Option AuditRow) (flush : Option ℕ) :
    (writing row flush).flush? = flush := rfl

theorem Loop.idle_ne_stopped (flush : Option ℕ) : idle flush ≠ .stopped := by cases flush <;> rintro ⟨⟩

variable {room : ℕ} {s s' : Run}

inductive Step (s : Run) : Action → Run → Prop
  | same {a : Action} (ha : a.ofLoop = false) : Step s a s
  | drop (e : Event) (id : GoString) (now : Store.Time) :
    Step s (.record e id now)
      { s with writer := { s.writer with dropped := s.writer.dropped + 1 }, recorded := s.recorded + 1 }
  | queue (e : Event) (id : GoString) (now : Store.Time) (row : AuditRow) (hopen : s.writer.closed = false)
    (hroom : s.writer.queue.length < s.writer.room) :
    Step s (.record e id now)
      { s with
        writer := { s.writer with queue := s.writer.queue ++ [row] }
        recorded := s.recorded + 1, accepted := s.accepted ++ [row] }
  | ask (hopen : s.writer.closed = false) : Step s .flush
      { s with waiting := s.waiting ++ [s.accepted.length] }
  | giveUp (k : ℕ) : Step s (.giveUp k) { s with waiting := s.waiting.eraseIdx k }
  | close : Step s .close { s with writer := { s.writer with closed := true } }
  | take {r : AuditRow} {rest : List AuditRow} {flush : Option ℕ} (hloop : s.loop = .idle flush)
    (hq : s.writer.queue = r :: rest) :
    Step s .take { s with writer := { s.writer with queue := rest }, loop := .writing (some r) flush }
  | zero {n : ℕ} (hloop : s.loop = .idle (some n)) (hq : s.writer.queue = [])
      (hclosed : s.writer.closed = true) :
    Step s .take { s with loop := .writing none (some n) }
  | serve {n k : ℕ} (hloop : s.loop = .idle none) (hn : n ∈ s.waiting) :
    Step s (.serve k) { s with loop := .idle (some n), waiting := s.waiting.eraseIdx k }
  | write {row : Option AuditRow} {flush : Option ℕ} (hloop : s.loop = .writing row flush) :
    Step s .write { s with handed := s.handed ++ [row], loop := .idle flush }
  | drained {n : ℕ} (hloop : s.loop = .idle (some n)) (hq : s.writer.queue = [])
      (hopen : s.writer.closed = false) :
    Step s .drained { s with loop := .idle none, flushed := s.flushed ++ [n] }
  | stop (hloop : s.loop = .idle none) (hq : s.writer.queue = []) (hclosed : s.writer.closed = true) :
    Step s .stop { s with loop := .stopped }

section Steps

variable [GoLibrary]

theorem step_record {e : Event} {id : GoString} {now : Store.Time}
    (hn : s.next (.record e id now) = some s') :
    Step s (.record e id now) s' := by
  simp only [Run.next, Writer.record] at hn
  cases hvalid : validate e with
  | error err =>
    rw [hvalid] at hn
    obtain rfl := Option.some.inj hn
    exact .same rfl
  | ok u =>
    rw [hvalid] at hn
    obtain rfl := Option.some.inj hn
    by_cases hclosed : s.writer.closed = true
    · simpa [hclosed] using Step.drop (s := s) e id now
    · by_cases hroom : s.writer.queue.length < s.writer.room
      · have hopen : s.writer.closed = false := by simpa using hclosed
        simpa [hopen, hroom] using Step.queue (s := s) e id now (rowOf e id now) hopen hroom
      · simpa [hclosed, hroom] using Step.drop (s := s) e id now

theorem step_of_next {a : Action} (hn : s.next a = some s') : Step s a s' := by
  cases a with
  | record e id now => exact step_record hn
  | flush =>
    obtain rfl := Option.some.inj hn
    cases hclosed : s.writer.closed with
    | true => exact .same rfl
    | false => exact .ask hclosed
  | giveUp k =>
    obtain rfl := Option.some.inj hn
    exact .giveUp k
  | close =>
    obtain rfl := Option.some.inj hn
    exact .close
  | take =>
    simp only [Run.next] at hn
    split at hn
    · obtain rfl := Option.some.inj hn
      have hloop : s.loop = .idle none := ‹_›
      exact .take hloop ‹_›
    · obtain rfl := Option.some.inj hn
      have hloop : s.loop = .idle (some _) := ‹_›
      exact .take hloop ‹_›
    · split at hn
      · obtain rfl := Option.some.inj hn
        exact .zero ‹_› ‹_› ‹_›
      · cases hn
    · cases hn
  | serve k =>
    simp only [Run.next] at hn
    split at hn
    · rename_i hloop hk
      obtain rfl := Option.some.inj hn
      exact .serve hloop (List.mem_of_getElem? hk)
    · cases hn
  | write =>
    simp only [Run.next] at hn
    split at hn
    · obtain rfl := Option.some.inj hn
      exact .write ‹_›
    · cases hn
  | drained =>
    simp only [Run.next] at hn
    split at hn
    · split at hn
      · cases hn
      · rename_i hopen
        obtain rfl := Option.some.inj hn
        exact .drained ‹_› ‹_› (by simpa using hopen)
    · cases hn
  | stop =>
    simp only [Run.next] at hn
    split at hn
    · split at hn
      · obtain rfl := Option.some.inj hn
        exact .stop ‹_› ‹_› ‹_›
      · cases hn
    · cases hn

end Steps

structure Split (zeros : ℕ) (s : Run) : Prop where
  rows : s.handed ++ s.loop.hand ++ s.writer.queue.map some = s.accepted.map some ++
    List.replicate zeros none
  zeros : zeros ≠ 0 → s.writer.closed = true ∧ s.loop.flush?.isSome = true ∧ s.writer.queue = []

structure Accounted (room : ℕ) (s : Run) : Prop where
  split : ∃ zeros, Split zeros s
  counted : s.accepted.length + s.writer.dropped = s.recorded
  room_eq : s.writer.room = room
  bounded : s.writer.queue.length ≤ room
  waits : ∀ n ∈ s.waiting, n ≤ s.accepted.length
  served : ∀ n ∈ s.loop.flush?, n ≤ s.accepted.length
  flushes : ∀ n ∈ s.flushed, n ≤ s.accepted.length ∧ (s.accepted.take n).map some <+: s.handed
  stopped : s.loop = .stopped → s.writer.closed = true ∧ s.writer.queue = []

theorem Split.open_ {zeros : ℕ} (h : Split zeros s) (hopen : s.writer.closed = false) : zeros = 0 := by
  by_contra hz
  rw [(h.zeros hz).1] at hopen
  cases hopen

theorem Split.unserved {zeros : ℕ} (h : Split zeros s) (hflush : s.loop.flush? = none) : zeros = 0 := by
  by_contra hz
  have hserved := (h.zeros hz).2.1
  rw [hflush] at hserved
  cases hserved

theorem exists_split
    (h : s.handed ++ s.loop.hand ++ s.writer.queue.map some = s.accepted.map some) :
    ∃ zeros, Split zeros s :=
  ⟨0, by rw [h, List.replicate_zero, List.append_nil], fun hz => absurd rfl hz⟩

theorem Split.handed (h : Split 0 s) (hhand : s.loop.hand = []) (hq : s.writer.queue = []) :
    s.handed = s.accepted.map some := by
  simpa [hhand, hq] using h.rows

theorem Split.step {zeros : ℕ} (h : Split zeros s) {a : Action} (hstep : Step s a s') :
    ∃ zeros, Split zeros s' := by
  have hrows := h.rows
  cases hstep with
  | same | drop | ask | giveUp => exact ⟨zeros, hrows, h.zeros⟩
  | queue e id now row hopen hroom =>
    obtain rfl := h.open_ hopen
    apply exists_split
    rw [List.replicate_zero, List.append_nil] at hrows
    simp [← hrows]
  | close => exact ⟨zeros, hrows, fun hz => ⟨rfl, (h.zeros hz).2⟩⟩
  | take hloop hq =>
    -- a row was queued, so no zero row was read
    have hzero : zeros = 0 := by
      by_contra hz
      cases hq.symm.trans (h.zeros hz).2.2
    subst hzero
    exact exists_split (by simpa [hloop, hq] using hrows)
  | zero hloop hq hclosed =>
    refine ⟨zeros + 1, ?_, fun _ => ⟨hclosed, rfl, hq⟩⟩
    simpa [hloop, hq, List.replicate_succ', ← List.append_assoc] using hrows
  | serve hloop hn =>
    obtain rfl := h.unserved (by rw [hloop]; rfl)
    exact exists_split (by simpa [hloop] using hrows)
  | write hloop =>
    have hzeros := h.zeros
    rw [hloop] at hzeros
    refine ⟨zeros, ?_, by simpa using hzeros⟩
    simpa [hloop] using hrows
  | drained hloop hq hopen =>
    obtain rfl := h.open_ hopen
    exact exists_split (by simpa [hloop] using hrows)
  | stop hloop hq hclosed =>
    obtain rfl := h.unserved (by rw [hloop]; rfl)
    exact exists_split (by simpa [hloop] using hrows)

theorem accounted_start (room : ℕ) : Accounted room (.start room) where
  split := exists_split rfl
  counted := rfl
  room_eq := rfl
  bounded := Nat.zero_le room
  waits := by rintro _ ⟨⟩
  served := by rintro _ ⟨⟩
  flushes := by rintro _ ⟨⟩
  stopped := by rintro ⟨⟩

theorem Accounted.step (h : Accounted room s) {a : Action} (hstep : Step s a s') : Accounted room s' := by
  obtain ⟨⟨zeros, hsplit⟩, hcounted, hroom_eq, hbounded, hwaits, hserved, hflushes, hstopped⟩ := h
  have hsplit' := hsplit.step hstep
  cases hstep with
  | same ha => exact ⟨hsplit', hcounted, hroom_eq, hbounded, hwaits, hserved, hflushes, hstopped⟩
  | drop e id now =>
    refine ⟨hsplit', ?_, hroom_eq, hbounded, hwaits, hserved, hflushes, hstopped⟩
    simp only
    omega
  | queue e id now row hopen hroom =>
    have hlonger : ∀ n, n ≤ s.accepted.length → n ≤ (s.accepted ++ [row]).length := by
      intro n hle
      simp
      omega
    refine ⟨hsplit', ?_, hroom_eq, ?_, fun n hn => hlonger n (hwaits n hn), fun n hn =>
      hlonger n (hserved n hn), ?_, ?_⟩
    · simp
      omega
    · simp
      omega
    · intro n hn
      obtain ⟨hle, hfront⟩ := hflushes n hn
      exact ⟨hlonger n hle, by rwa [List.take_append_of_le_length hle]⟩
    · intro hstop
      rw [(hstopped hstop).1] at hopen
      cases hopen
  | ask hopen =>
    refine ⟨hsplit', hcounted, hroom_eq, hbounded, ?_, hserved, hflushes, hstopped⟩
    intro n hn
    rcases List.mem_append.mp hn with hn | hn
    · exact hwaits n hn
    · exact (List.mem_singleton.mp hn).le
  | giveUp k =>
    refine ⟨hsplit', hcounted, hroom_eq, hbounded, fun n hn => ?_, hserved, hflushes, hstopped⟩
    exact hwaits n (List.mem_of_mem_eraseIdx hn)
  | close =>
    exact ⟨hsplit', hcounted, hroom_eq, hbounded, hwaits, hserved, hflushes, fun hstop =>
      ⟨rfl, (hstopped hstop).2⟩⟩
  | take hloop hq =>
    rw [hloop, Loop.flush?_idle] at hserved
    rw [hq] at hbounded
    refine ⟨hsplit', hcounted, hroom_eq, ?_, hwaits, hserved, hflushes, by rintro ⟨⟩⟩
    simp at hbounded ⊢
    omega
  | zero hloop hq hclosed =>
    rw [hloop, Loop.flush?_idle] at hserved
    exact ⟨hsplit', hcounted, hroom_eq, hbounded, hwaits, hserved, hflushes, by rintro ⟨⟩⟩
  | serve hloop hn =>
    refine ⟨hsplit', hcounted, hroom_eq, hbounded, fun n hn =>
      hwaits n (List.mem_of_mem_eraseIdx hn), ?_, hflushes, by rintro ⟨⟩⟩
    intro m hm
    obtain rfl := Option.some.inj hm
    exact hwaits _ hn
  | @write row flush hloop =>
    rw [hloop] at hserved
    refine ⟨hsplit', hcounted, hroom_eq, hbounded, hwaits, ?_, fun n hn => ?_,
      fun hstop => absurd hstop (Loop.idle_ne_stopped flush)⟩
    · simpa using hserved
    · obtain ⟨hle, hfront⟩ := hflushes n hn
      exact ⟨hle, hfront.trans (List.prefix_append _ _)⟩
  | drained hloop hq hopen =>
    obtain rfl := hsplit.open_ hopen
    have hall := hsplit.handed (by rw [hloop, Loop.hand_idle]) hq
    rw [hloop, Loop.flush?_idle] at hserved
    refine ⟨hsplit', hcounted, hroom_eq, hbounded, hwaits, by rintro _ ⟨⟩, ?_, by rintro ⟨⟩⟩
    intro m hm
    rcases List.mem_append.mp hm with hm | hm
    · exact hflushes m hm
    · obtain rfl := List.mem_singleton.mp hm
      exact ⟨hserved m rfl, hall ▸ (List.take_prefix m s.accepted).map some⟩
  | stop hloop hq hclosed =>
    exact ⟨hsplit', hcounted, hroom_eq, hbounded, hwaits, by rintro _ ⟨⟩, hflushes, fun _ => ⟨hclosed, hq⟩⟩

abbrev Reached [GoLibrary] (s s' : Run) : Prop := Reach Run.next (fun _ _ => True) s s'

theorem accounted_of_reached [GoLibrary] (h : Reached (.start room) s) : Accounted room s :=
  h.invariant (accounted_start room) fun _ _ _ hI _ hn => hI.step (step_of_next hn)

theorem Accounted.handed (h : Accounted room s) (hstop : s.loop = .stopped) :
    s.handed = s.accepted.map some := by
  obtain ⟨zeros, hsplit⟩ := h.split
  obtain rfl := hsplit.unserved (by rw [hstop]; rfl)
  exact hsplit.handed (by rw [hstop]; rfl) (h.stopped hstop).2

/-- At every point of every interleaving: what was handed to the store, the row in hand and the
queue are the accepted rows in the order they were queued, followed by zero rows only while a
`Flush` is being served after `Close`; a valid event was queued or counted as dropped; an answered
`Flush` has seen every earlier row handed over; and once the goroutine has stopped, the accepted
rows were handed over and nothing else. -/
theorem audit_rows_accounted [GoLibrary] (h : Reached (.start room) s) :
    (∃ zeros, s.handed ++ s.loop.hand ++ s.writer.queue.map some = s.accepted.map some ++
      List.replicate zeros none ∧
      (zeros ≠ 0 → s.writer.closed = true ∧ s.loop.flush?.isSome = true ∧ s.writer.queue = [])) ∧
      s.accepted.length + s.writer.dropped = s.recorded ∧ s.writer.queue.length ≤ room ∧
      (∀ n ∈ s.flushed, (s.accepted.take n).map some <+: s.handed) ∧
      (s.loop = .stopped → s.writer.closed = true ∧ s.handed = s.accepted.map some) := by
  have hI := accounted_of_reached h
  obtain ⟨zeros, hsplit⟩ := hI.split
  refine ⟨⟨zeros, hsplit.rows, hsplit.zeros⟩, hI.counted, hI.bounded, fun n hn =>
    (hI.flushes n hn).2, fun hstop => ?_⟩
  exact ⟨(hI.stopped hstop).1, hI.handed hstop⟩

section Example

def opened : Event where
  tenantID := "t"
  eventType := "ticket.create"
  actorKind := "agent"
  subjectKind := "ticket"
  outcome := "ok"

-- a row, a `Flush` that waits for it, then a second one that is being served at `Close`
def closedInFlush : List Action :=
  [.record opened "1" 0, .flush, .serve 0, .take, .write, .drained, .flush, .serve 0, .close, .take, .write]

def afterClose : Run :=
  letI := asciiLibrary
  { writer := { room := 1, closed := true }
    loop := .draining 1
    handed := [some (rowOf opened "1" 0), none]
    accepted := [rowOf opened "1" 0]
    recorded := 1
    flushed := [1] }

theorem reached_afterClose : @Reached asciiLibrary (.start 1) afterClose :=
  @Reach.perform _ _ (@Run.next asciiLibrary) _ _ _ (fun _ _ => true) _ (fun _ _ _ => trivial) .refl
    closedInFlush rfl

theorem audit_rows_accounted_afterClose :
    (∃ zeros, afterClose.handed = afterClose.accepted.map some ++ List.replicate zeros none) ∧
      (afterClose.accepted.take 1).map some <+: afterClose.handed := by
  obtain ⟨⟨zeros, hrows, -⟩, -, -, hflushed, -⟩ :=
    @audit_rows_accounted 1 afterClose asciiLibrary reached_afterClose
  have hhanded : afterClose.handed ++ afterClose.loop.hand ++ afterClose.writer.queue.map some =
      afterClose.handed :=
    List.append_nil _
  exact ⟨⟨zeros, hhanded.symm.trans hrows⟩, hflushed 1 (List.mem_singleton_self 1)⟩

end Example

-- a closed queue keeps a served `Flush` reading
theorem serving_step (hclosed : s.writer.closed = true) (hserved : s.loop.flush?.isSome = true) {a : Action}
    (hstep : Step s a s') : s'.writer.closed = true ∧ s'.loop.flush?.isSome = true := by
  cases hstep with
  | same | drop | queue | ask | giveUp => exact ⟨hclosed, hserved⟩
  | close => exact ⟨rfl, hserved⟩
  | take hloop hq =>
    rw [hloop, Loop.flush?_idle] at hserved
    exact ⟨hclosed, hserved⟩
  | zero => exact ⟨hclosed, rfl⟩
  | serve => exact ⟨hclosed, rfl⟩
  | write hloop =>
    rw [hloop] at hserved
    exact ⟨hclosed, by simpa using hserved⟩
  | drained hloop hq hopen =>
    rw [hclosed] at hopen
    cases hopen
  | stop hloop hq hclosed' =>
    rw [hloop] at hserved
    cases hserved

/-- The steps of the goroutine that are left once the queue is closed and no `Flush` is served any more. -/
def Run.work (s : Run) : ℕ :=
  2 * s.writer.queue.length + match s.loop with
    | .stopped => 0
    | .selecting => 1
    | _ => 2

structure Quiet (s : Run) : Prop where
  closed : s.writer.closed = true
  unserved : s.loop.flush? = none
  unasked : s.waiting = []

theorem Quiet.step (h : Quiet s) {a : Action} (hstep : Step s a s') :
    Quiet s' ∧ s'.work ≤ s.work ∧ (a.ofLoop = true → s'.work < s.work) := by
  have hkept := h
  obtain ⟨hclosed, hserved, hasked⟩ := h
  cases hstep with
  | same ha => exact ⟨hkept, le_rfl, fun hloop => absurd hloop (by simp [ha])⟩
  | drop => exact ⟨⟨hclosed, hserved, hasked⟩, le_rfl, by rintro ⟨⟩⟩
  | queue e id now row hopen hroom =>
    rw [hclosed] at hopen
    cases hopen
  | ask hopen =>
    rw [hclosed] at hopen
    cases hopen
  | giveUp k => exact ⟨⟨hclosed, hserved, by simp [hasked]⟩, le_rfl, by rintro ⟨⟩⟩
  | close => exact ⟨⟨rfl, hserved, hasked⟩, le_rfl, by rintro ⟨⟩⟩
  | @take r rest flush hloop hq =>
    rw [hloop, Loop.flush?_idle] at hserved
    subst hserved
    have hless : 2 * rest.length + 2 < s.work := by
      simp only [Run.work, hloop, hq, Loop.idle, Option.elim_none, List.length_cons]
      omega
    exact ⟨⟨hclosed, rfl, hasked⟩, hless.le, fun _ => hless⟩
  | zero hloop =>
    rw [hloop] at hserved
    cases hserved
  | serve hloop hn =>
    rw [hasked] at hn
    cases hn
  | @write row flush hloop =>
    rw [hloop] at hserved
    obtain rfl : flush = none := hserved
    have hless : 2 * s.writer.queue.length + 1 < s.work := by
      simp only [Run.work, hloop]
      omega
    exact ⟨⟨hclosed, rfl, hasked⟩, hless.le, fun _ => hless⟩
  | drained hloop =>
    rw [hloop] at hserved
    cases hserved
  | stop hloop =>
    have hless : 2 * s.writer.queue.length < s.work := by
      simp only [Run.work, hloop, Loop.idle, Option.elim_none]
      omega
    exact ⟨⟨hclosed, rfl, hasked⟩, hless.le, fun _ => hless⟩

theorem Quiet.enabled [GoLibrary] (h : Quiet s) (hloop : s.loop ≠ .stopped) :
    ∃ a, a.ofLoop = true ∧ (s.next a).isSome = true := by
  cases hl : s.loop with
  | selecting =>
    cases hq : s.writer.queue with
    | nil => exact ⟨.stop, rfl, by simp [Run.next, hl, hq, h.closed]⟩
    | cons r rest => exact ⟨.take, rfl, by simp [Run.next, hl, hq]⟩
  | writing row flush => exact ⟨.write, rfl, by simp [Run.next, hl]⟩
  | draining n =>
    have hserved := h.unserved
    rw [hl] at hserved
    cases hserved
  | stopped => exact absurd hl hloop

/-- Once the queue is closed: if a `Flush` is being served then, the goroutine never stops and
`Close` does not return. If none is served and none waits, the goroutine is never held up, has only
so many steps left, and hands over every accepted row once and nothing else. -/
theorem audit_close_returns [GoLibrary] (h : Reached (.start room) s) (hclosed : s.writer.closed = true) :
    (s.loop.flush?.isSome = true → ∀ t, Reached s t → t.loop ≠ .stopped) ∧
      (s.loop.flush? = none → s.waiting = [] → ∀ t, Reached s t →
        (t.loop = .stopped → t.handed = t.accepted.map some) ∧
        (t.loop ≠ .stopped → ∃ a, a.ofLoop = true ∧ (t.next a).isSome = true) ∧
        ∀ a t', t.next a = some t' → t'.work ≤ t.work ∧ (a.ofLoop = true → t'.work < t.work)) := by
  constructor
  · intro hserved t ht hstop
    have hserving : t.writer.closed = true ∧ t.loop.flush?.isSome = true :=
      ht.invariant (I := fun t => t.writer.closed = true ∧ t.loop.flush?.isSome = true) ⟨hclosed, hserved⟩
        fun _ _ _ hI _ hn => serving_step hI.1 hI.2 (step_of_next hn)
    rw [hstop] at hserving
    cases hserving.2
  · intro hserved hasked t ht
    have hquiet : Quiet t :=
      ht.invariant ⟨hclosed, hserved, hasked⟩ fun _ _ _ hI _ hn => (hI.step (step_of_next hn)).1
    have hreached := h.trans ht
    exact ⟨(accounted_of_reached hreached).handed, hquiet.enabled, fun a t' hn =>
      (hquiet.step (step_of_next hn)).2⟩

-- the queue is closed with one row in it
def closing : Run :=
  letI := asciiLibrary
  { writer := { room := 1, closed := true, queue := [rowOf opened "1" 0] }
    accepted := [rowOf opened "1" 0]
    recorded := 1 }

theorem reached_closing : @Reached asciiLibrary (.start 1) closing :=
  @Reach.perform _ _ (@Run.next asciiLibrary) _ _ _ (fun _ _ => true) _ (fun _ _ _ => trivial) .refl
    [.record opened "1" 0, .close] rfl

theorem audit_close_returns_closing :
    closing.work = 3 ∧ (∃ a, a.ofLoop = true ∧ (@Run.next asciiLibrary closing a).isSome = true) :=
  ⟨rfl, (((@audit_close_returns 1 closing asciiLibrary reached_closing rfl).2 rfl rfl) closing
    .refl).2.1 (by rintro ⟨⟩)⟩

end TangraTicket.Services.Audit
