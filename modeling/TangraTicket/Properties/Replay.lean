import TangraTicket.Stream.Hub

/-!
What a client that resumes finds in its queue. The replay walks the stream and fills a queue of
`connBuffer` places; a push into a full queue moves the mark and drops the event, and what `MAXLEN`
trimmed from the stream is not missed by anyone.
-/

namespace TangraTicket.Stream

open GoText

variable {cfg : Config} {h h' : Hub} {now : ℤ} {last user tenantID lastID : GoString} {history : List Entry}
  {s : Subscription} {entries : List Entry}

def missed (user lastID : GoString) (entries : List Entry) : List Entry :=
  entries.filter fun e => targets e.to_ user && less lastID e.id

theorem stored_eq_drop (cfg : Config) (history : List Entry) :
    stored cfg history = history.drop (history.length - cfg.maxLen) := by
  have hpos := cfg.maxLen_pos
  induction history using List.reverseRecOn with
  | nil => simp [stored]
  | append_singleton history e ih =>
    rw [stored, List.foldl_concat, ← stored, ih, Memory.xadd]
    have hlen : (history.drop (history.length - cfg.maxLen) ++ [e]).length =
        min history.length cfg.maxLen + 1 := by
      simp only [List.length_append, List.length_drop, List.length_singleton]
      omega
    rw [hlen]
    split
    · rename_i hfull
      have h1 : min history.length cfg.maxLen + 1 - cfg.maxLen = 1 := by omega
      have h2 : history.length - cfg.maxLen + 1 ≤ history.length := by omega
      have h3 : (history ++ [e]).length - cfg.maxLen = history.length - cfg.maxLen + 1 := by simp; omega
      rw [h1, h3, List.drop_append_of_le_length h2, List.drop_append_of_le_length (by simp; omega),
        List.drop_drop]
    · have h1 : history.length - cfg.maxLen = 0 := by omega
      have h2 : (history ++ [e]).length - cfg.maxLen = 0 := by simp; omega
      rw [h1, h2, List.drop_zero, List.drop_zero]

theorem length_stored (cfg : Config) (history : List Entry) : (stored cfg history).length ≤ cfg.maxLen := by
  rw [stored_eq_drop, List.length_drop]
  omega

theorem ne_nil_of_parseID (h : (parseID lastID).ok = true) : lastID ≠ [] := by
  rintro rfl
  exact absurd h (by decide)

-- `XRANGE` asks for at most `maxLen` entries, and the stream never has more
theorem after_stored (hid : lastID ≠ []) :
    Memory.after (stored cfg history) lastID cfg.maxLen = (stored cfg history).filter fun e =>
    less lastID e.id := by
  have hlen : ((stored cfg history).filter fun e => less lastID e.id).length ≤ cfg.maxLen :=
    (List.length_filter_le _ _).trans (length_stored cfg history)
  simp only [Memory.after, hid, decide_false, Bool.false_or, cfg.maxLen_pos, if_true]
  exact List.take_of_length_le hlen

structure Behind (s : Subscription) (entries : List Entry) : Prop where
  opened : s.closed = false
  older : ∀ e ∈ entries, s.last ≠ [] → rank s.last < rank e.id

theorem Behind.accepts {e : Entry} (hb : Behind s (e :: entries)) : s.refuses e.event = false := by
  rw [Subscription.refuses, hb.opened, Bool.false_or]
  by_cases hl : s.last = []
  · simp [hl]
  · have hnew := (less_iff s.last e.event.id).mpr (hb.older e List.mem_cons_self hl)
    simp [hnew]

theorem push_queue {ev : Event} (h : s.refuses ev = false) :
    (s.push ev).2.ch = (s.ch ++ [ev]).take connBuffer ∨
    connBuffer < s.ch.length := by
  by_cases hroom : s.ch.length < connBuffer
  · left
    rw [List.take_of_length_le (by simp; omega)]
    simp [Subscription.push, h, hroom]
  · by_cases hfull : s.ch.length = connBuffer
    · left
      rw [List.take_append_of_le_length (by omega), ← hfull, List.take_length]
      simp [Subscription.push, h, hfull]
    · right
      omega

theorem push_last {ev : Event} (h : s.refuses ev = false) (hid : ev.id ≠ []) :
    (s.push ev).2.last = ev.id := by
  rw [Subscription.push, if_neg (by simp [h]), if_pos hid]
  split <;> rfl

theorem push_closed (s : Subscription) (ev : Event) : (s.push ev).2.closed = s.closed := by
  rw [Subscription.push]
  split
  · rfl
  · split <;> rfl

theorem push_user (s : Subscription) (ev : Event) : (s.push ev).2.user = s.user := by
  rw [Subscription.push]
  split
  · rfl
  · split <;> rfl

theorem pushTargeted_eq (s : Subscription) (entries : List Entry) : s.pushTargeted entries =
    (entries.filter fun e => targets e.to_ s.user).foldl (fun s e => (s.push e.event).2) s := by
  induction entries generalizing s with
  | nil => rfl
  | cons e entries ih =>
    rw [Subscription.pushTargeted, List.foldl_cons, ← Subscription.pushTargeted, List.filter_cons]
    split
    · rw [List.foldl_cons, ih, push_user]
    · exact ih s

theorem take_take_append {α : Type} (n : ℕ) (a b : List α) : (a.take n ++ b).take n = (a ++ b).take n := by
  have hroom : n - (a.take n).length = n - a.length := by
    rw [List.length_take]
    omega
  rw [List.take_append, List.take_append, List.take_take, Nat.min_self, hroom]

theorem foldl_push (hs : s.ch.length ≤ connBuffer) (hb : Behind s entries)
    (hid : ∀ e ∈ entries, e.id ≠ []) (hsorted : entries.Pairwise fun e f => rank e.id < rank f.id) :
    (entries.foldl (fun s e => (s.push e.event).2) s).ch =
    (s.ch ++ entries.map Entry.event).take connBuffer ∧
      (entries.foldl (fun s e => (s.push e.event).2) s).closed = false := by
  induction entries generalizing s with
  | nil => simp [List.take_of_length_le hs, hb.opened]
  | cons e entries ih =>
    rw [List.pairwise_cons] at hsorted
    have hacc := hb.accepts
    have hmark : (s.push e.event).2.last = e.id := push_last hacc (hid e List.mem_cons_self)
    have hqueue := (push_queue hacc).resolve_right (by omega)
    have hroom : (s.push e.event).2.ch.length ≤ connBuffer := by rw [hqueue]; simp
    have hbehind : Behind (s.push e.event).2 entries := by
      refine ⟨(push_closed s _).trans hb.opened, fun f hf _ => ?_⟩
      rw [hmark]
      exact hsorted.1 f hf
    have hrest := ih hroom hbehind (fun f hf => hid f (List.mem_cons_of_mem e hf)) hsorted.2
    refine ⟨?_, hrest.2⟩
    rw [List.foldl_cons, hrest.1, hqueue, take_take_append, List.append_assoc,
      List.singleton_append, List.map_cons]

theorem missed_sublist (user lastID : GoString) (entries : List Entry) :
    (missed user lastID entries).Sublist entries :=
  List.filter_sublist

theorem missed_stored (cfg : Config) (user lastID : GoString) (history : List Entry) :
    missed user lastID history = missed user lastID (history.take (history.length - cfg.maxLen)) ++
      missed user lastID (stored cfg history) := by
  rw [stored_eq_drop, missed, missed, missed, ← List.filter_append, List.take_append_drop]

theorem pushTargeted_queue (cfg : Config) (user : GoString) (hord : Ordered history) (hid : lastID ≠ []) :
    (Subscription.pushTargeted ⟨user, [], [], false⟩
      (Memory.after (stored cfg history) lastID cfg.maxLen)).ch =
      ((missed user lastID (stored cfg history)).map Entry.event).take connBuffer ∧
    (Subscription.pushTargeted ⟨user, [], [], false⟩
      (Memory.after (stored cfg history) lastID cfg.maxLen)).closed = false := by
  have hsub : (missed user lastID (stored cfg history)).Sublist history := by
    apply (missed_sublist user lastID _).trans
    rw [stored_eq_drop]
    exact List.drop_sublist _ _
  have hids : ∀ e ∈ missed user lastID (stored cfg history), e.id ≠ [] :=
    fun e he => ne_nil_of_parseID (hord.formed e (hsub.subset he))
  have hfresh : Behind ⟨user, [], [], false⟩ (missed user lastID (stored cfg history)) :=
    ⟨rfl, fun _ _ h => absurd rfl h⟩
  rw [after_stored hid, pushTargeted_eq, List.filter_filter]
  exact foldl_push (Nat.zero_le _) hfresh hids (hord.increasing.sublist hsub)

def Event.isReset (ev : Event) : Prop := ev.id = [] ∧ ev.type = goString "reset"

/-- The client can tell what it missed: it is disconnected, told to reload, or has every missed
event in order. -/
def Gapless (s : Subscription) (expected : List Event) : Prop :=
  s.closed = true ∨ (∃ ev ∈ s.ch, ev.isReset) ∨ s.ch = expected

/-- Nothing for the user was trimmed after `lastID`, and what is left fits into the queue. -/
def Replayable (cfg : Config) (user lastID : GoString) (history : List Entry) : Prop :=
  missed user lastID (history.take (history.length - cfg.maxLen)) = [] ∧
    (missed user lastID history).length ≤ connBuffer

theorem take_eq_append_iff {α : Type} (n : ℕ) (a b : List α) :
    b.take n = a ++ b ↔ a = [] ∧ (a ++ b).length ≤ n := by
  constructor
  · intro heq
    have hlen := congrArg List.length heq
    simp only [List.length_take, List.length_append] at hlen
    have ha : a.length = 0 := by omega
    exact ⟨List.length_eq_zero_iff.mp ha, by simp only [List.length_append]; omega⟩
  · rintro ⟨rfl, hle⟩
    exact List.take_of_length_le hle

-- no queued entry is a reset, since entries have ids
theorem gapless_pushTargeted_iff (hord : Ordered history) (hid : lastID ≠ []) :
    Gapless (Subscription.pushTargeted ⟨user, [], [], false⟩
      (Memory.after (stored cfg history) lastID cfg.maxLen))
      ((missed user lastID history).map Entry.event) ↔ Replayable cfg user lastID history := by
  obtain ⟨hqueue, hopen⟩ := pushTargeted_queue cfg user hord hid
  have hnoreset :
      ¬ ∃ ev ∈ ((missed user lastID (stored cfg history)).map Entry.event).take connBuffer,
      ev.isReset := by
    rintro ⟨ev, hev, hreset, -⟩
    obtain ⟨e, he, rfl⟩ := List.mem_map.mp (List.mem_of_mem_take hev)
    have hmem : e ∈ history := by
      have hstored := (missed_sublist user lastID _).subset he
      rw [stored_eq_drop] at hstored
      exact List.mem_of_mem_drop hstored
    exact ne_nil_of_parseID (hord.formed e hmem) hreset
  rw [Gapless, hqueue, hopen]
  simp only [Bool.false_eq_true, hnoreset, false_or]
  rw [Replayable, missed_stored cfg user lastID history, List.map_append, take_eq_append_iff,
    List.map_eq_nil_iff, ← List.map_append, List.length_map]

theorem subscribe_replays (hid : lastID ≠ []) {xlast : Except Unit GoString}
    {range : GoString → ℕ → Except Unit (List Entry)}
    (hsub : subscribe cfg h now xlast range tenantID user lastID = .ok (s, h')) :
    s = replay cfg now range ⟨user, [], [], false⟩ lastID := by
  simp only [subscribe, hid, ne_eq, not_false_eq_true, if_true] at hsub
  split at hsub
  · cases hsub
  · cases htenant : h.tenant tenantID xlast with
    | error e => rw [htenant] at hsub; cases hsub
    | ok t =>
      rw [htenant] at hsub
      simp only [bind, Except.bind] at hsub
      split at hsub
      · cases hsub
      · simp only [pure, Except.pure, Except.ok.injEq, Prod.mk.injEq] at hsub
        exact hsub.1.symm

/-- A subscription that resumes inside the window leaves no silent gap exactly when the range query
failed, which queues a reset, or nothing was lost on the way: to the trimming or to the full queue. -/
theorem resume_gapless_iff (cfg : Config) (h h' : Hub) (now : ℤ) (xlast : Except Unit GoString)
    (available : Bool) (history : List Entry) (tenantID user lastID : GoString) (s : Subscription)
    (hord : Ordered history) (hformed : (parseID lastID).ok = true)
    (hwindow : outsideWindow cfg now lastID = false)
    (hsub : subscribe cfg h now xlast (ranges available (stored cfg history)) tenantID user lastID =
      .ok (s, h')) :
    Gapless s ((missed user lastID history).map Entry.event) ↔
      available = false ∨ Replayable cfg user lastID history := by
  have hid := ne_nil_of_parseID hformed
  obtain rfl := subscribe_replays hid hsub
  rw [replay, hwindow, if_neg Bool.false_ne_true]
  cases available with
  | false =>
    have hreset : Gapless ((Subscription.mk user [] [] false).push (resetEvent "replay_unavailable")).2
        ((missed user lastID history).map Entry.event) :=
      .inr (.inl ⟨resetEvent "replay_unavailable", List.mem_singleton_self _, rfl, rfl⟩)
    exact ⟨fun _ => .inl rfl, fun _ => hreset⟩
  | true =>
    simp only [ranges, if_true, Bool.true_eq_false, false_or]
    exact gapless_pushTargeted_iff hord hid

-- one event for everyone in each of the first `n` sequence numbers of a millisecond
def busy (n : ℕ) : List Entry :=
  (List.range n).map fun i => ⟨goString "1000-" ++ goString (toString (i + 1)), "*", "comment", "\x7b\x7d"⟩

theorem resume_gapless_two :
    Gapless (replay {} 1000000000 (ranges true (stored {} (busy 2))) ⟨"u", [], [], false⟩ "1000-0")
      ((missed "u" "1000-0" (busy 2)).map Entry.event) :=
  (resume_gapless_iff {} {} _ 1000000000 (.ok []) true (busy 2) "t" "u" "1000-0" _ (by decide) (by decide)
    (by decide) rfl).mpr (.inr ⟨by decide, by decide⟩)

theorem busy_ordered : Ordered (busy 33) := by decide +kernel

theorem subscribe_first {stream : List Entry} (hid : lastID ≠ [])
    (hwindow : outsideWindow {} now lastID = false) :
    subscribe {} {} now (.ok last) (ranges true stream) tenantID user lastID =
      .ok (Subscription.pushTargeted ⟨user, [], [], false⟩ (Memory.after stream lastID 10000),
        Hub.put {} tenantID ⟨[user], startOf last⟩) := by
  simp only [subscribe, replay, hwindow, hid, ne_eq, not_false_eq_true, Bool.false_eq_true,
    if_true, if_false]
  rfl

/-- Of 33 events missed within the window the last one is dropped, and nothing tells the client. -/
theorem resume_drops_last : ∃ s h', Ordered (busy 33) ∧ (parseID "1000-0").ok = true ∧
    outsideWindow {} 1000000000 "1000-0" = false ∧
    subscribe {} {} 1000000000 (.ok "1000-33")
      (ranges true (stored {} (busy 33))) "t" "u" "1000-0" = .ok (s, h') ∧
    ¬ Gapless s ((missed "u" "1000-0" (busy 33)).map Entry.event) := by
  have hwindow : outsideWindow {} 1000000000 "1000-0" = false := by decide
  refine ⟨_, _, busy_ordered, by decide, hwindow, subscribe_first (by decide) hwindow, fun hgapless => ?_⟩
  have hfits := ((gapless_pushTargeted_iff busy_ordered (by decide)).mp hgapless).2
  exact absurd hfits (by decide +kernel)

end TangraTicket.Stream
