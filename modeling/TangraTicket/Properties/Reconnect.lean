import TangraTicket.Stream.Session
import TangraTicket.Properties.LiveReplay

/-!
A tab sees the events that are pushed to it live, and only those: the id it resumes from travels in
a header, the handler looks for it in the query, and no reconnect replays anything.
-/

namespace TangraTicket.Stream

open GoText

namespace Session

variable {cfg : Config} {now : ℤ} {carriesTicket : GoString → Bool} {user last : GoString} {s s' : Session}
  {e f : Entry} {l : Loop} {c : Connection} {rest : List Entry}

theorem stream_sublist (cfg : Config) (s : Session) : (s.stream cfg).Sublist s.history := by
  rw [stream, stored_eq_drop]
  exact List.drop_sublist _ _

theorem ordered_stream (cfg : Config) (h : Ordered s.history) : Ordered (s.stream cfg) :=
  ⟨fun e he => h.formed e ((stream_sublist cfg s).subset he), fun e he =>
    h.positive e ((stream_sublist cfg s).subset he), h.increasing.sublist (stream_sublist cfg s)⟩

theorem mem_stored_append (cfg : Config) (history : List Entry) (e : Entry) :
    e ∈ stored cfg (history ++ [e]) := by
  have hpos := cfg.maxLen_pos
  have hlen : (history ++ [e]).length - cfg.maxLen ≤ history.length := by
    simp only [List.length_append, List.length_singleton]
    omega
  rw [stored_eq_drop, List.drop_append_of_le_length hlen]
  exact List.mem_append_right _ (List.mem_singleton_self e)

def unread (cfg : Config) (s : Session) (f : Entry) : Bool :=
  s.loop.any fun l => (s.stream cfg).contains f && less l.last f.id && l.batch.all fun b => less b.id f.id

def coming (cfg : Config) (s : Session) (f : Entry) : Bool :=
  s.unread cfg f || s.loop.any fun l => l.pushing = some f || l.batch.contains f

def queued (s : Session) (f : Entry) : Bool := s.conn.any fun c => c.sub.ch.contains f.event

def onWire (s : Session) (f : Entry) : Bool := s.conn.any fun c => c.wire.contains f.event.framed

/-- An event for the user is published only while the tab is registered, and trims none that the
loop has still to read. A connection ends only while no event is on its way to it: a stalled reader
is cut off when the loop carries none, a server says bye when none is queued either, and the line
breaks when none is on the wire either. -/
def undisturbed (cfg : Config) (carriesTicket : GoString → Bool) (user : GoString) (s : Session) :
    SessionAction → Bool
  | .xadd e => (s.registered || !(s.connected && wants carriesTicket user e)) &&
      s.owed.all fun f => !s.unread cfg f || (stored cfg (s.history ++ [e])).contains f
  | .livePush => (s.conn.all fun c => c.sub.ch.length < connBuffer) || s.owed.all fun f => !s.coming cfg f
  | .bye => s.owed.all fun f => !s.coming cfg f && !s.queued f
  | .drop => s.owed.all fun f => !s.coming cfg f && !s.queued f && !s.onWire f
  | _ => true

-- where an owed event is on the loop's side of the queue
def Travels (cfg : Config) (s : Session) (l : Loop) (f : Entry) : Prop :=
  l.pushing = some f ∨ f ∈ l.batch ∨
    (f ∈ s.stream cfg ∧ rank l.last < rank f.id ∧ ∀ b ∈ l.batch, rank b.id < rank f.id)

def Underway (cfg : Config) (s : Session) (f : Entry) : Prop :=
  ∃ c, s.conn = some c ∧ (f.event.framed ∈ c.wire ∨ f.event ∈ c.sub.ch ∨
    c.sub.closed = false ∧ ∃ l, s.loop = some l ∧ Travels cfg s l f)

theorem unread_eq_true (hl : s.loop = some l) : s.unread cfg f = true ↔
    f ∈ s.stream cfg ∧ rank l.last < rank f.id ∧ ∀ b ∈ l.batch, rank b.id < rank f.id := by
  simp only [unread, hl, Option.any_some, Bool.and_eq_true, List.contains_iff_mem, List.all_eq_true,
    less_iff, and_assoc]

theorem coming_eq_true (hl : s.loop = some l) : s.coming cfg f = true ↔ Travels cfg s l f := by
  rw [coming, Bool.or_eq_true, unread_eq_true hl, hl, Travels, or_comm]
  simp only [Option.any_some, Bool.or_eq_true, decide_eq_true_eq, List.contains_iff_mem, or_assoc]

theorem queued_eq_true (hc : s.conn = some c) : s.queued f = true ↔ f.event ∈ c.sub.ch := by
  rw [queued, hc, Option.any_some, List.contains_iff_mem]

theorem onWire_eq_true (hc : s.conn = some c) : s.onWire f = true ↔ f.event.framed ∈ c.wire := by
  rw [onWire, hc, Option.any_some, List.contains_iff_mem]

-- the subscription takes whatever the loop pushes next
def Marks (sub : Subscription) (l : Loop) : Prop :=
  sub.last = [] ∨ rank sub.last ≤ rank l.last ∧ (l.pushing ≠ none → rank sub.last < rank l.last)

structure Sound (cfg : Config) (carriesTicket : GoString → Bool) (user : GoString) (s : Session) :
    Prop where
  ordered : Ordered s.history
  running : s.registered = true → s.loop ≠ none
  pointed : ∀ l, s.loop = some l → Pointed s.history l
  pushing : ∀ l, s.loop = some l → l.pushing ≠ none → s.registered = true
  behind : ∀ c l, s.conn = some c → c.sub.closed = false → s.loop = some l → Marks c.sub l
  wanted : ∀ f ∈ s.owed, wants carriesTicket user f = true
  kept : ∀ f ∈ s.owed, f.event.framed ∈ s.handled ∨ Underway cfg s f

theorem Sound.looped (h : Sound cfg carriesTicket user s) : Pointed s.history (s.looped cfg) := by
  cases hloop : s.loop with
  | none =>
    rw [Session.looped, hloop]
    exact (pointed_start (s.stream cfg)).mono (stream_sublist cfg s).subset
  | some l =>
    rw [Session.looped, hloop]
    exact h.pointed l hloop

theorem registered_of_conn (hc : s.conn = some c) (hopen : c.sub.closed = false) : s.registered = true := by
  simp [registered, hc, hopen]

theorem conn_of_registered (h : s.registered = true) : ∃ c, s.conn = some c ∧ c.sub.closed = false := by
  cases hc : s.conn with
  | none => simp [registered, hc] at h
  | some c => exact ⟨c, rfl, by simpa [registered, hc] using h⟩

theorem Sound.xadd (h : Sound cfg carriesTicket user s) (hord : Ordered (s.history ++ [e]))
    (hquiet : undisturbed cfg carriesTicket user s (.xadd e) = true) :
    Sound cfg carriesTicket user { s with
      history := s.history ++ [e]
      owed := if s.connected && wants carriesTicket user e then s.owed ++ [e] else s.owed } := by
  simp only [undisturbed, Bool.and_eq_true, List.all_eq_true, Bool.or_eq_true, Bool.not_eq_true',
    List.contains_iff_mem] at hquiet
  obtain ⟨hreg, hstay⟩ := hquiet
  have hold : ∀ f ∈ s.owed, f.event.framed ∈ s.handled ∨
      Underway cfg { s with history := s.history ++ [e] } f := by
    intro f hf
    refine (h.kept f hf).imp_right ?_
    rintro ⟨c, hc, hw | hq | ⟨hopen, l, hl, htravels⟩⟩
    · exact ⟨c, hc, .inl hw⟩
    · exact ⟨c, hc, .inr (.inl hq)⟩
    · refine ⟨c, hc,
        .inr (.inr ⟨hopen, l, hl, htravels.imp_right (Or.imp_right fun hlate => ⟨?_, hlate.2⟩)⟩)⟩
      refine (hstay f hf).resolve_left ?_
      rw [(unread_eq_true hl).mpr hlate]
      rintro ⟨⟩
  refine ⟨hord, h.running, fun l hl => (h.pointed l hl).mono (List.subset_append_left _ _),
    h.pushing, h.behind, ?_, ?_⟩
  · intro f hf
    simp only at hf
    split at hf
    · rename_i howed
      rcases List.mem_append.mp hf with hf | hf
      · exact h.wanted f hf
      · rw [List.mem_singleton.mp hf]
        exact (Bool.and_eq_true_iff.mp howed).2
    · exact h.wanted f hf
  · intro f hf
    simp only at hf
    split at hf
    · rename_i howed
      rcases List.mem_append.mp hf with hf | hf
      · exact hold f hf
      · obtain rfl := List.mem_singleton.mp hf
        have hon : s.registered = true := by simpa [howed] using hreg
        obtain ⟨l, hl⟩ := Option.ne_none_iff_exists'.mp (h.running hon)
        obtain ⟨c, hc, hopen⟩ := conn_of_registered hon
        have hpointed := h.pointed l hl
        exact .inr ⟨c, hc, .inr (.inr ⟨hopen, l, hl, .inr (.inr ⟨mem_stored_append cfg s.history f,
          hpointed.behind_newer hord, fun b hb => hord.newer (hpointed.members b hb).1⟩)⟩)⟩
    · exact hold f hf

theorem Sound.handled_of_none (h : Sound cfg carriesTicket user s) (hconn : s.conn = none)
    (hf : f ∈ s.owed) :
    f.event.framed ∈ s.handled := by
  rcases h.kept f hf with hdone | ⟨c, hc, -⟩
  · exact hdone
  · rw [hconn] at hc
    cases hc

-- only the loop changes, and the events it carries with it
theorem Sound.turn (h : Sound cfg carriesTicket user s) {l' : Loop} (hpointed : Pointed s.history l')
    (hpushing : l'.pushing ≠ none → s.registered = true)
    (hbehind : ∀ (c : Connection) (l : Loop), s.loop = some l → Marks c.sub l → Marks c.sub l')
    (hloop : s.loop ≠ none) (hkept : ∀ l f, s.loop = some l → s.registered = true →
      wants carriesTicket user f = true →
      Travels cfg s l f → Travels cfg s l' f) :
    Sound cfg carriesTicket user { s with loop := some l' } := by
  obtain ⟨l, hl⟩ := Option.ne_none_iff_exists'.mp hloop
  refine ⟨h.ordered, fun _ => nofun, ?_, ?_, ?_, h.wanted, fun f hf => (h.kept f hf).imp_right ?_⟩
  · intro l₁ hl₁
    obtain rfl := Option.some.inj hl₁
    exact hpointed
  · intro l₁ hl₁
    obtain rfl := Option.some.inj hl₁
    exact hpushing
  · intro c l₁ hc hopen hl₁
    obtain rfl := Option.some.inj hl₁
    exact hbehind c l hl (h.behind c l hc hopen hl)
  · rintro ⟨c, hc, hw | hq | ⟨hopen, l₁, hl₁, htravels⟩⟩
    · exact ⟨c, hc, .inl hw⟩
    · exact ⟨c, hc, .inr (.inl hq)⟩
    · have hreg := registered_of_conn hc hopen
      exact ⟨c, hc, .inr (.inr ⟨hopen, l', rfl, hkept l₁ f hl₁ hreg (h.wanted f hf) htravels⟩)⟩

theorem Sound.xread (h : Sound cfg carriesTicket user s) (hloop : s.loop = some ⟨last, [], none⟩) :
    Sound cfg carriesTicket user
      { s with loop := some ⟨last, Memory.after (s.stream cfg) last 100, none⟩ } := by
  have hord := ordered_stream cfg h.ordered
  have hpointed := h.pointed _ hloop
  refine h.turn ⟨hpointed.position, after_sorted hord, fun b hb => ?_, nofun⟩ (fun hne => absurd rfl hne) ?_
    (by rw [hloop]; nofun) ?_
  · exact ((mem_of_mem_after hord hb).imp_left fun hmem => (stream_sublist cfg s).subset hmem)
  · intro c l hl hmark
    rw [hloop] at hl
    obtain rfl := Option.some.inj hl
    exact hmark
  · intro l f hl _ _ htravels
    rw [hloop] at hl
    obtain rfl := Option.some.inj hl
    rcases htravels with hp | hb | ⟨hmem, hlt, -⟩
    · cases hp
    · cases hb
    · rcases after_covers hord hmem hlt with hread | hlate
      · exact .inr (.inl hread)
      · exact .inr (.inr ⟨hmem, hlt, hlate⟩)

theorem Sound.dispatch (h : Sound cfg carriesTicket user s)
    (hloop : s.loop = some ⟨last, e :: rest, none⟩) :
    Sound cfg carriesTicket user
      { s with
        loop :=
          some ⟨e.id, rest, if s.registered && targets e.to_ user then some e else none⟩ } := by
  have hpointed := h.pointed _ hloop
  have hhead := (hpointed.members e List.mem_cons_self).2
  refine h.turn (hpointed.dispatch ?_) ?_ ?_ (by rw [hloop]; nofun) ?_
  · split
    · exact .inl rfl
    · exact .inr rfl
  · intro hne
    by_contra hreg
    simp [hreg] at hne
  · intro c l hl hmark
    rw [hloop] at hl
    obtain rfl := Option.some.inj hl
    exact hmark.imp_right fun hle => ⟨(hle.1.trans_lt hhead).le, fun _ => hle.1.trans_lt hhead⟩
  · intro l f hl hreg hwants htravels
    rw [hloop] at hl
    obtain rfl := Option.some.inj hl
    have htarget : targets f.to_ user = true := (Bool.and_eq_true_iff.mp hwants).1
    rcases htravels with hp | hb | ⟨hmem, hlt, hlate⟩
    · cases hp
    · rcases List.mem_cons.mp hb with rfl | hb
      · exact .inl (by simp [hreg, htarget])
      · exact .inr (.inl hb)
    · exact .inr (.inr ⟨hmem, hlate e List.mem_cons_self, fun b hb => hlate b (List.mem_cons_of_mem e hb)⟩)

-- the connection may change as long as it takes along what is queued and on the wire
theorem Sound.renew (h : Sound cfg carriesTicket user s) (loop : Option Loop)
    (conn : Option Connection) (connected : Bool) (hkept : ∀ f ∈ s.owed, f.event.framed ∈ s.handled ∨
      ∃ c, conn = some c ∧ (f.event.framed ∈ c.wire ∨ f.event ∈ c.sub.ch))
    (hpointed : ∀ l, loop = some l → Pointed s.history l)
    (hrunning : (∃ c, conn = some c ∧ c.sub.closed = false) → loop ≠ none)
    (hpushing : ∀ l, loop = some l → l.pushing ≠ none → ∃ c, conn = some c ∧ c.sub.closed = false)
    (hbehind : ∀ c l, conn = some c → c.sub.closed = false → loop = some l → Marks c.sub l) :
    Sound cfg carriesTicket user { s with loop := loop, conn := conn, connected := connected } := by
  refine ⟨h.ordered, fun hreg => hrunning (conn_of_registered hreg), hpointed, fun l hl hne =>
    ?_, hbehind, h.wanted, fun f hf => (hkept f hf).imp_right ?_⟩
  · obtain ⟨c, hc, hopen⟩ := hpushing l hl hne
    exact registered_of_conn hc hopen
  · rintro ⟨c, hc, hw | hq⟩
    · exact ⟨c, hc, .inl hw⟩
    · exact ⟨c, hc, .inr (.inl hq)⟩

-- a subscription that is gone gets no more from the loop
theorem Sound.kept_of_gone (h : Sound cfg carriesTicket user s) (hgone : s.registered = false)
    (hf : f ∈ s.owed) :
    f.event.framed ∈ s.handled ∨ ∃ c, s.conn = some c ∧ (f.event.framed ∈ c.wire ∨ f.event ∈ c.sub.ch) := by
  refine (h.kept f hf).imp_right ?_
  rintro ⟨c, hc, hw | hq | ⟨hopen, -⟩⟩
  · exact ⟨c, hc, .inl hw⟩
  · exact ⟨c, hc, .inr hq⟩
  · rw [registered_of_conn hc hopen] at hgone
    cases hgone

-- neither does one that the loop carries nothing for
theorem Sound.kept_of_not_coming (h : Sound cfg carriesTicket user s) (hf : f ∈ s.owed)
    (hnot : s.coming cfg f = false) :
    f.event.framed ∈ s.handled ∨ ∃ c, s.conn = some c ∧ (f.event.framed ∈ c.wire ∨ f.event ∈ c.sub.ch) := by
  refine (h.kept f hf).imp_right ?_
  rintro ⟨c, hc, hw | hq | ⟨-, l, hl, htravels⟩⟩
  · exact ⟨c, hc, .inl hw⟩
  · exact ⟨c, hc, .inr hq⟩
  · rw [(coming_eq_true hl).mpr htravels] at hnot
    cases hnot

theorem Sound.detached (h : Sound cfg carriesTicket user s) (hl : s.detached = some l) :
    Pointed s.history l ∧ l.pushing = none := by
  obtain ⟨l₁, hl₁, rfl⟩ := Option.map_eq_some_iff.mp hl
  exact ⟨(h.pointed l₁ hl₁).pushed, rfl⟩

theorem Sound.connect (h : Sound cfg carriesTicket user s) (hconn : s.conn = none) :
    Sound cfg carriesTicket user { s with
      loop := some (s.looped cfg), conn := some { sub := s.opened cfg now user }, connected := true } := by
  refine h.renew _ _ true (fun f hf => .inl (h.handled_of_none hconn hf))
    (fun l hl => Option.some.inj hl ▸ h.looped)
    (fun _ => nofun) (fun _ _ _ => ⟨_, rfl, rfl⟩) fun c l hc _ _ => .inl ?_
  obtain rfl := Option.some.inj hc
  rfl

theorem Sound.otherOpens (h : Sound cfg carriesTicket user s) :
    Sound cfg carriesTicket user { s with loop := some (s.looped cfg) } := by
  cases hloop : s.loop with
  | none =>
    have hgone : s.registered = false := by
      by_contra hreg
      exact h.running (by simpa using hreg) hloop
    have hlooped : s.looped cfg = { last := startOf (Memory.xlast (s.stream cfg)) } := by
      rw [Session.looped, hloop]; rfl
    refine h.renew (some (s.looped cfg)) s.conn s.connected (fun f hf => h.kept_of_gone hgone hf)
      (fun l hl => Option.some.inj hl ▸ h.looped) (fun _ => nofun) (fun l hl hne => ?_)
      fun c l hc hopen _ => ?_
    · rw [← Option.some.inj hl, hlooped] at hne
      exact absurd rfl hne
    · exact absurd (registered_of_conn hc hopen) (by simp [hgone])
  | some l =>
    have hlooped : s.looped cfg = l := by rw [Session.looped, hloop]; rfl
    rw [hlooped, ← hloop]
    exact h

theorem Sound.othersClose (h : Sound cfg carriesTicket user s) (hgone : s.registered = false) :
    Sound cfg carriesTicket user { s with loop := none } := by
  refine h.renew none s.conn s.connected (fun f hf => h.kept_of_gone hgone hf) nofun (fun hon => ?_) nofun
    fun _ _ _ _ => nofun
  obtain ⟨c, hc, hopen⟩ := hon
  exact absurd (registered_of_conn hc hopen) (by simp [hgone])

-- the subscription is gone, and so is what the loop held for it
theorem Sound.depart {conn : Option Connection} (h : Sound cfg carriesTicket user s)
    (hkept : ∀ f ∈ s.owed, f.event.framed ∈ s.handled ∨
      ∃ c, conn = some c ∧ (f.event.framed ∈ c.wire ∨ f.event ∈ c.sub.ch))
    (hclosed : ∀ c, conn = some c → c.sub.closed = true) :
    Sound cfg carriesTicket user { s with loop := s.detached, conn := conn } := by
  have hnone : ¬ ∃ c, conn = some c ∧ c.sub.closed = false := by
    rintro ⟨c, hc, hopen⟩
    rw [hclosed c hc] at hopen
    cases hopen
  exact h.renew s.detached conn s.connected hkept (fun l hl => (h.detached hl).1)
    (fun hon => absurd hon hnone)
    (fun l hl hne => absurd (h.detached hl).2 hne) fun c l hc hopen _ => absurd ⟨c, hc, hopen⟩ hnone

theorem Sound.bye {sub : Subscription} {wire : List Event} (h : Sound cfg carriesTicket user s)
    (hconn : s.conn = some ⟨sub, wire⟩) (hquiet : undisturbed cfg carriesTicket user s .bye = true) :
    Sound cfg carriesTicket user
      { s with loop := s.detached, conn := some ⟨{ sub with ch := [], closed := true }, wire⟩ } := by
  simp only [undisturbed, List.all_eq_true, Bool.and_eq_true, Bool.not_eq_true'] at hquiet
  refine h.depart (fun f hf => ?_) fun c hc => ?_
  · obtain ⟨hcoming, hqueued⟩ := hquiet f hf
    refine (h.kept_of_not_coming hf hcoming).imp_right ?_
    rintro ⟨c, hc, hw | hq⟩
    · rw [hconn] at hc
      obtain rfl := Option.some.inj hc
      exact ⟨_, rfl, .inl hw⟩
    · rw [(queued_eq_true hc).mpr hq] at hqueued
      cases hqueued
  · obtain rfl := Option.some.inj hc
    rfl

theorem Sound.drop (h : Sound cfg carriesTicket user s)
    (hquiet : undisturbed cfg carriesTicket user s .drop = true) :
    Sound cfg carriesTicket user { s with loop := s.detached, conn := none } := by
  simp only [undisturbed, List.all_eq_true, Bool.and_eq_true, Bool.not_eq_true'] at hquiet
  refine h.depart (fun f hf => .inl ?_) nofun
  obtain ⟨⟨hcoming, hqueued⟩, hwire⟩ := hquiet f hf
  rcases h.kept_of_not_coming hf hcoming with hdone | ⟨c, hc, hw | hq⟩
  · exact hdone
  · rw [(onWire_eq_true hc).mpr hw] at hwire
    cases hwire
  · rw [(queued_eq_true hc).mpr hq] at hqueued
    cases hqueued

theorem Sound.finish (h : Sound cfg carriesTicket user s) (hconn : s.conn = some c)
    (hclosed : c.sub.closed = true) (hch : c.sub.ch = []) (hwire : c.wire = []) :
    Sound cfg carriesTicket user { s with conn := none } := by
  have hgone : s.registered = false := by simp [registered, hconn, hclosed]
  refine h.renew s.loop none s.connected (fun f hf => .inl ?_) h.pointed nofun (fun l hl hne => ?_) nofun
  · rcases h.kept_of_gone hgone hf with hdone | ⟨c', hc', hw | hq⟩
    · exact hdone
    · rw [hconn] at hc'
      rw [← Option.some.inj hc', hwire] at hw
      cases hw
    · rw [hconn] at hc'
      rw [← Option.some.inj hc', hch] at hq
      cases hq
  · rw [h.pushing l hl hne] at hgone
    cases hgone

theorem Sound.write {ev : Event} {ch wire : List Event} (h : Sound cfg carriesTicket user s)
    (sub : Subscription) (hconn : s.conn = some ⟨{ sub with ch := ev :: ch }, wire⟩) :
    Sound cfg carriesTicket user { s with conn := some ⟨{ sub with ch := ch }, wire ++ [ev.framed]⟩ } := by
  have hsame : ∀ s' : Session, s'.conn = some ⟨{ sub with ch := ch }, wire ++ [ev.framed]⟩ →
      s'.registered = s.registered := by
    intro s' hs'
    simp [registered, hconn, hs']
  refine ⟨h.ordered, fun hreg => h.running ((hsame _ rfl).symm.trans hreg), h.pointed,
    fun l hl hne => (hsame _ rfl).trans (h.pushing l hl hne), ?_, h.wanted, fun f hf =>
      (h.kept f hf).imp_right ?_⟩
  · intro c l hc hopen hl
    obtain rfl := Option.some.inj hc
    have hmark := h.behind _ l hconn hopen hl
    exact hmark
  · rintro ⟨c, hc, hplace⟩
    rw [hconn] at hc
    obtain rfl := Option.some.inj hc
    refine ⟨_, rfl, ?_⟩
    rcases hplace with hw | hq | hrest
    · exact .inl (List.mem_append_left _ hw)
    · rcases List.mem_cons.mp hq with rfl | hq
      · exact .inl (List.mem_append_right _ (List.mem_singleton_self _))
      · exact .inr (.inl hq)
    · exact .inr (.inr hrest)

theorem Sound.receive {sub : Subscription} {ev : Event} {wire : List Event}
    (h : Sound cfg carriesTicket user s) (hconn : s.conn = some ⟨sub, ev :: wire⟩) :
    Sound cfg carriesTicket user ({ s with conn := some ⟨sub, wire⟩ }.handle carriesTicket ev) := by
  have hsame : ∀ s' : Session, s'.conn = some ⟨sub, wire⟩ → s'.registered = s.registered := by
    intro s' hs'
    simp [registered, hconn, hs']
  have hkeep : s.handled ⊆ ({ s with conn := some ⟨sub, wire⟩ }.handle carriesTicket ev).handled := by
    simp only [handle]
    split
    · exact List.subset_append_left _ _
    · exact List.Subset.refl _
  refine ⟨h.ordered, fun hreg => h.running ((hsame _ rfl).symm.trans hreg), h.pointed,
    fun l hl hne => (hsame _ rfl).trans (h.pushing l hl hne), ?_, h.wanted, fun f hf => ?_⟩
  · intro c l hc hopen hl
    obtain rfl := Option.some.inj hc
    have hmark := h.behind _ l hconn hopen hl
    exact hmark
  · rcases h.kept f hf with hdone | ⟨c, hc, hplace⟩
    · exact .inl (hkeep hdone)
    · rw [hconn] at hc
      obtain rfl := Option.some.inj hc
      rcases hplace with hw | hrest
      · rcases List.mem_cons.mp hw with rfl | hw
        · have hticket : isTicketEvent carriesTicket f.event.framed = true :=
            (Bool.and_eq_true_iff.mp (h.wanted f hf)).2
          exact .inl (by simp [handle, hticket])
        · exact .inr ⟨_, rfl, .inl hw⟩
      · exact .inr ⟨_, rfl, .inr hrest⟩

theorem push_roomy {sub : Subscription} (ev : Event) (hroom : sub.ch.length < connBuffer) :
    (sub.push ev).1 = true := by
  rw [Subscription.push]
  split
  · rfl
  · rfl

theorem Sound.livePush (h : Sound cfg carriesTicket user s) (hloop : s.loop = some ⟨last, rest, some e⟩)
    (hconn : s.conn = some c) (hquiet : undisturbed cfg carriesTicket user s .livePush = true) :
    Sound cfg carriesTicket user { s with
      loop := some ⟨last, rest, none⟩, conn := some { c with sub := afterPush c.sub e.event } } := by
  have hpointed := h.pointed _ hloop
  have hreg := h.pushing _ hloop (by rintro ⟨⟩)
  obtain ⟨c₁, hc₁, hopen⟩ := conn_of_registered hreg
  rw [hconn] at hc₁
  obtain rfl := Option.some.inj hc₁
  obtain ⟨he, hid⟩ := hpointed.pushing e rfl
  have hahead : Ahead c.sub e := (h.behind c _ hconn hopen hloop).imp_right fun hmark =>
    hid ▸ hmark.2 (by rintro ⟨⟩)
  have hloop' : ∀ l, some (Loop.mk last rest none) = some l → Pointed s.history l := by
    intro l hl
    obtain rfl := Option.some.inj hl
    exact hpointed.pushed
  by_cases hroom : c.sub.ch.length < connBuffer
  · have hsub : afterPush c.sub e.event = { c.sub with last := e.id, ch := c.sub.ch ++ [e.event] } := by
      rw [afterPush, push_roomy _ hroom, if_pos rfl]
      rcases push_entry hopen hroom (h.ordered.id_ne_nil he) with ⟨hnot, -⟩ | ⟨-, hpush⟩
      · exact absurd hahead hnot
      · exact hpush
    rw [hsub]
    refine ⟨h.ordered, by rintro _ ⟨⟩, hloop', fun l hl hne => ?_, ?_, h.wanted, fun f hf => (h.kept
      f hf).imp_right ?_⟩
    · obtain rfl := Option.some.inj hl
      exact absurd rfl hne
    · intro c' l hc' _ hl
      obtain rfl := Option.some.inj hc'
      obtain rfl := Option.some.inj hl
      exact .inr ⟨hid ▸ le_rfl, fun hne => absurd rfl hne⟩
    · rintro ⟨c', hc', hplace⟩
      rw [hconn] at hc'
      obtain rfl := Option.some.inj hc'
      refine ⟨_, rfl, ?_⟩
      rcases hplace with hw | hq | ⟨-, l, hl, htravels⟩
      · exact .inl hw
      · exact .inr (.inl (List.mem_append_left _ hq))
      · rw [hloop] at hl
        obtain rfl := Option.some.inj hl
        rcases htravels with hp | hrest
        · obtain rfl := Option.some.inj hp
          exact .inr (.inl (List.mem_append_right _ (List.mem_singleton_self _)))
        · exact .inr (.inr ⟨hopen, _, rfl, .inr hrest⟩)
  · -- the queue is full: what it holds is still written, and the loop carries nothing that is owed
    have hcoming : ∀ f ∈ s.owed, s.coming cfg f = false := by simpa [undisturbed, hconn, hroom] using hquiet
    have hqueue : (afterPush c.sub e.event).ch = c.sub.ch := by
      rw [afterPush, Subscription.push]
      split_ifs <;> rfl
    have hclosed : (afterPush c.sub e.event).closed = true := by
      have hacc : c.sub.refuses e.event = false := by
        rcases hahead with hl | hl
        · simp [Subscription.refuses, hopen, hl]
        · simp [Subscription.refuses, hopen, Entry.event, (less_iff c.sub.last e.id).mpr hl]
      simp [afterPush, Subscription.push, hacc, hroom]
    refine h.renew _ _ s.connected
      (fun f hf => (h.kept_of_not_coming hf (hcoming f hf)).imp_right ?_) hloop' (by rintro _ ⟨⟩)
      (fun l hl hne => ?_) fun c' l hc' hopen' _ => ?_
    · rintro ⟨c', hc', hplace⟩
      rw [hconn] at hc'
      obtain rfl := Option.some.inj hc'
      exact ⟨_, rfl, hplace.imp_right fun hq => hqueue ▸ hq⟩
    · obtain rfl := Option.some.inj hl
      exact absurd rfl hne
    · obtain rfl := Option.some.inj hc'
      rw [hclosed] at hopen'
      cases hopen'

theorem session_step {a : SessionAction} (h : Sound cfg carriesTicket user s)
    (hquiet : undisturbed cfg carriesTicket user s a = true)
    (hnext : s.next cfg now carriesTicket user a = some s') :
    Sound cfg carriesTicket user s' := by
  cases a with
  | xadd e =>
    simp only [next, Option.ite_none_right_eq_some, Option.some.injEq] at hnext
    obtain ⟨hord, rfl⟩ := hnext
    exact h.xadd hord hquiet
  | otherOpens =>
    obtain rfl := Option.some.inj hnext
    exact h.otherOpens
  | othersClose =>
    simp only [next, Option.ite_none_left_eq_some, Option.some.injEq] at hnext
    obtain ⟨hgone, rfl⟩ := hnext
    exact h.othersClose (by simpa using hgone)
  | connect =>
    simp only [next, Option.ite_none_right_eq_some, Option.some.injEq] at hnext
    obtain ⟨hconn, rfl⟩ := hnext
    exact h.connect hconn
  | xread =>
    simp only [next] at hnext
    split at hnext
    · rename_i last hloop
      obtain rfl := Option.some.inj hnext
      exact h.xread hloop
    · cases hnext
  | dispatch =>
    simp only [next] at hnext
    split at hnext
    · rename_i last e rest hloop
      obtain rfl := Option.some.inj hnext
      exact h.dispatch hloop
    · cases hnext
  | livePush =>
    simp only [next] at hnext
    split at hnext
    · rename_i last rest e c hloop hconn
      obtain rfl := Option.some.inj hnext
      exact h.livePush hloop hconn hquiet
    · cases hnext
  | write =>
    simp only [next] at hnext
    split at hnext
    · rename_i u ev ch last closed wire hconn
      obtain rfl := Option.some.inj hnext
      exact h.write ⟨u, [], last, closed⟩ hconn
    · cases hnext
  | receive =>
    simp only [next] at hnext
    split at hnext
    · rename_i sub ev wire hconn
      obtain rfl := Option.some.inj hnext
      exact h.receive hconn
    · cases hnext
  | bye =>
    simp only [next] at hnext
    split at hnext
    · rename_i sub wire hconn
      split at hnext
      · cases hnext
      · obtain rfl := Option.some.inj hnext
        exact h.bye hconn hquiet
    · cases hnext
  | finish =>
    simp only [next] at hnext
    split at hnext
    · rename_i hconn
      obtain rfl := Option.some.inj hnext
      exact h.finish hconn rfl rfl rfl
    · cases hnext
  | drop =>
    simp only [next, Option.ite_none_left_eq_some, Option.some.injEq] at hnext
    obtain ⟨-, rfl⟩ := hnext
    exact h.drop hquiet

def start (history : List Entry) : Session := { history := history }

theorem sound_start {history : List Entry} (hord : Ordered history) :
    Sound cfg carriesTicket user (start history) :=
  ⟨hord, nofun, nofun, nofun, nofun, nofun, nofun⟩

theorem Sound.quiet (h : Sound cfg carriesTicket user s) (hquiet : s.Quiet cfg) (hf : f ∈ s.owed) :
    f.event.framed ∈ s.handled := by
  obtain ⟨⟨c, hc, -, hch, hwire⟩, last, hloop, hbehind⟩ := hquiet
  rcases h.kept f hf with hdone | ⟨c₁, hc₁, hplace⟩
  · exact hdone
  · rw [hc] at hc₁
    obtain rfl := Option.some.inj hc₁
    rcases hplace with hw | hq | ⟨-, l, hl, htravels⟩
    · rw [hwire] at hw
      cases hw
    · rw [hch] at hq
      cases hq
    · rw [hloop] at hl
      obtain rfl := Option.some.inj hl
      rcases htravels with hp | hb | ⟨hmem, hlt, -⟩
      · cases hp
      · cases hb
      · exact absurd hlt (not_lt.mpr ((not_less_iff _ _).mp (hbehind f hmem)))

/-- In every undisturbed run, a tab that is connected with nothing on its way has handled every
event it is owed, or was told to reload. -/
theorem reconnect_complete (cfg : Config) (now : ℤ) (carriesTicket : GoString → Bool) (user : GoString)
    (history : List Entry) (s : Session) (hord : Ordered history)
    (hrun : Machine.Reach (next cfg now carriesTicket user)
      (fun s a => undisturbed cfg carriesTicket user s a = true) (start history) s) (hquiet : s.Quiet cfg) :
    ∀ f ∈ s.owed, f.event.framed ∈ s.handled ∨ s.reset = true := by
  have hsound : Sound cfg carriesTicket user s :=
    hrun.invariant (sound_start hord) fun s a s' hs hc hnext => session_step hs hc hnext
  exact fun f hf => .inl (hsound.quiet hquiet hf)

def created : Entry := ⟨"1000-1", "*", "ticket.created", "\x7b\"ticket_id\":\"n\"\x7d"⟩

def commented : Entry := ⟨"2000-1", "u", "ticket.commented", "\x7b\"ticket_id\":\"n\"\x7d"⟩

def reconnecting : List SessionAction :=
  [.connect, .xadd created, .xread, .dispatch, .livePush, .write, .bye, .receive, .finish,
    .othersClose, .connect, .xadd commented, .xread, .dispatch, .livePush, .write, .receive]

def shown : Session :=
  { history := [created, commented], loop := some { last := "2000-1" },
    conn := some { sub := { user := "u", last := "2000-1" } }, connected := true, lastEventID := "2000-1",
    handled := [created.event, commented.event], owed := [created, commented] }

theorem reconnect_complete_shown :
    shown.owed = [created, commented] ∧ ∀ f ∈ shown.owed, f.event.framed ∈ shown.handled ∨
    shown.reset = true := by
  have hrun : Machine.Reach (next {} 0 (fun _ => true) "u")
      (fun s a => undisturbed {} (fun _ => true) "u" s a = true)
      (start []) shown :=
    Machine.Reach.perform (c := undisturbed {} (fun _ => true) "u")
      (fun _ _ h => h) .refl reconnecting (by decide +kernel)
  exact ⟨rfl, reconnect_complete {} 0 (fun _ => true) "u" [] shown (by decide) hrun
    ⟨⟨_, rfl, rfl, rfl, rfl⟩, _, rfl, by decide⟩⟩

def unseen : Session :=
  { history := [created], loop := some { last := "1000-1" }, conn := some { sub := { user := "u" } },
    connected := true, owed := [created] }

/-- The event is published between the bye and the next connect: the tab never sees it, and nothing
tells it so. -/
theorem reconnect_misses_event :
    Machine.Reach (next {} 0 (fun _ => true) "u") (fun _ _ => True) (start []) unseen ∧ unseen.Quiet {} ∧
      created ∈ unseen.owed ∧ created.event.framed ∉ unseen.handled ∧ unseen.reset = false := by
  have hrun : Machine.Reach (next {} 0 (fun _ => true) "u") (fun _ _ => True) (start []) unseen :=
    Machine.Reach.perform (c := fun _ _ => true) (fun _ _ _ => trivial) .refl
      [.connect, .bye, .finish, .othersClose, .xadd created, .connect] (by decide +kernel)
  exact ⟨hrun, ⟨⟨_, rfl, rfl, rfl, rfl⟩, _, rfl, by decide⟩, by decide, by decide, rfl⟩

end Session

end TangraTicket.Stream
