import TangraTicket.Stream.Delivery
import TangraTicket.Properties.Replay

/-!
Replay and live delivery share one mark per subscription. Events arrive in the order of their ids
whatever the interleaving; an event is lost exactly where a live push overtakes an older one that
the replay still holds.
-/

namespace TangraTicket.Stream

open GoText

variable {cfg : Config} {now : ℤ} {user lastID last : GoString} {stream rest : List Entry}
  {sub : Subscription}
  {got received : List Event} {d d' : Delivery} {e f : Entry} {l : Loop}

theorem Ordered.newer (h : Ordered (stream ++ [e])) (hf : f ∈ stream) : rank f.id < rank e.id :=
  (List.pairwise_append.mp h.increasing).2.2 f hf e (List.mem_singleton_self e)

theorem Ordered.id_ne_nil (h : Ordered stream) (he : e ∈ stream) : e.id ≠ [] :=
  ne_nil_of_parseID (h.formed e he)

theorem Ordered.lt_or_eq_or_gt (h : Ordered stream) (he : e ∈ stream) (hf : f ∈ stream) :
    rank e.id < rank f.id ∨ e = f ∨ rank f.id < rank e.id := by
  obtain ⟨i, hi, rfl⟩ := List.getElem_of_mem he
  obtain ⟨j, hj, rfl⟩ := List.getElem_of_mem hf
  have hlt := List.pairwise_iff_getElem.mp h.increasing
  rcases Nat.lt_trichotomy i j with hij | rfl | hij
  · exact .inl (hlt i j hi hj hij)
  · exact .inr (.inl rfl)
  · exact .inr (.inr (hlt j i hj hi hij))

-- an entry the subscription would still take
def Ahead (sub : Subscription) (f : Entry) : Prop := sub.last = [] ∨ rank sub.last < rank f.id

theorem push_entry (hopen : sub.closed = false) (hroom : sub.ch.length < connBuffer) (hid : e.id ≠ []) :
    (¬ Ahead sub e ∧ (sub.push e.event).2 = sub) ∨
      (Ahead sub e ∧ (sub.push e.event).2 = { sub with last := e.id, ch := sub.ch ++ [e.event] }) := by
  have hev : e.event.id = e.id := rfl
  by_cases hahead : Ahead sub e
  · right
    refine ⟨hahead, ?_⟩
    have hacc : sub.refuses e.event = false := by
      rcases hahead with hl | hl
      · simp [Subscription.refuses, hopen, hl]
      · simp [Subscription.refuses, hopen, hev, (less_iff sub.last e.id).mpr hl]
    simp [Subscription.push, hacc, hroom, hev, hid]
  · left
    refine ⟨hahead, ?_⟩
    rw [Ahead, not_or, not_lt] at hahead
    have hless := (not_less_iff sub.last e.id).mpr hahead.2
    have href : sub.refuses e.event = true := by
      simp [Subscription.refuses, hopen, hev, hid, hahead.1, hless]
    simp [Subscription.push, href]

structure Tracked (stream : List Entry) (sub : Subscription) (got : List Event) : Prop where
  opened : sub.closed = false
  known : ∀ ev ∈ got, ∃ e ∈ stream, e.event = ev
  increasing : got.Pairwise fun a b => rank a.id < rank b.id
  marked : ∀ ev ∈ got, sub.last ≠ [] ∧ rank ev.id ≤ rank sub.last
  mark : sub.last = [] ∨ ∃ e ∈ stream, e.id = sub.last

theorem Tracked.extend (h : Tracked stream sub got) : Tracked (stream ++ [e]) sub got := by
  refine ⟨h.opened, fun ev hev => ?_, h.increasing, h.marked, h.mark.imp_right ?_⟩
  · obtain ⟨f, hf, rfl⟩ := h.known ev hev
    exact ⟨f, List.mem_append_left _ hf, rfl⟩
  · rintro ⟨f, hf, hid⟩
    exact ⟨f, List.mem_append_left _ hf, hid⟩

theorem Tracked.ahead_of_newer (h : Tracked stream sub got) (hord : Ordered (stream ++ [e])) :
    Ahead sub e := by
  rcases h.mark with hl | ⟨f, hf, hid⟩
  · exact .inl hl
  · exact .inr (hid ▸ hord.newer hf)

theorem Tracked.push (h : Tracked stream sub (received ++ sub.ch)) (he : e ∈ stream) (hord : Ordered stream)
    (hroom : sub.ch.length < connBuffer) :
    Tracked stream (sub.push e.event).2 (received ++ (sub.push e.event).2.ch) := by
  have hid := hord.id_ne_nil he
  rcases push_entry h.opened hroom hid with ⟨-, hsub⟩ | ⟨hahead, hsub⟩
  · rw [hsub]
    exact h
  · have hlt : ∀ ev ∈ received ++ sub.ch, rank ev.id < rank e.id := by
      intro ev hev
      obtain ⟨hne, hle⟩ := h.marked ev hev
      exact hle.trans_lt (hahead.resolve_left hne)
    rw [hsub, ← List.append_assoc]
    refine ⟨h.opened, ?_, ?_, ?_, .inr ⟨e, he, rfl⟩⟩
    · intro ev hev
      rcases List.mem_append.mp hev with hev | hev
      · exact h.known ev hev
      · exact ⟨e, he, (List.mem_singleton.mp hev).symm⟩
    · refine List.pairwise_append.mpr ⟨h.increasing, List.pairwise_singleton _ _, ?_⟩
      intro a ha b hb
      rw [List.mem_singleton.mp hb]
      exact hlt a ha
    · intro ev hev
      refine ⟨hid, ?_⟩
      rcases List.mem_append.mp hev with hev | hev
      · exact (hlt ev hev).le
      · rw [List.mem_singleton.mp hev]
        exact le_rfl

structure Pointed (stream : List Entry) (l : Loop) : Prop where
  position : l.last = goString "0-0" ∨ ∃ e ∈ stream, e.id = l.last
  sorted : l.batch.Pairwise fun a b => rank a.id < rank b.id
  members : ∀ b ∈ l.batch, b ∈ stream ∧ rank l.last < rank b.id
  pushing : ∀ e, l.pushing = some e → e ∈ stream ∧ e.id = l.last

theorem Pointed.behind_newer (h : Pointed stream l) (hord : Ordered (stream ++ [e])) :
    rank l.last < rank e.id := by
  rcases h.position with hl | ⟨f, hf, hid⟩
  · rw [hl]
    exact hord.positive e (List.mem_append_right _ (List.mem_singleton_self e))
  · exact hid ▸ hord.newer hf

theorem Pointed.mono {history : List Entry} (h : Pointed stream l) (hsub : stream ⊆ history) :
    Pointed history l := by
  refine ⟨h.position.imp_right ?_, h.sorted, fun b hb => ?_, fun f hf => ?_⟩
  · rintro ⟨f, hf, hid⟩
    exact ⟨f, hsub hf, hid⟩
  · exact ⟨hsub (h.members b hb).1, (h.members b hb).2⟩
  · exact ⟨hsub (h.pushing f hf).1, (h.pushing f hf).2⟩

theorem Pointed.pushed (h : Pointed stream l) : Pointed stream { l with pushing := none } :=
  ⟨h.position, h.sorted, h.members, nofun⟩

theorem pointed_start (stream : List Entry) : Pointed stream { last := startOf (Memory.xlast stream) } := by
  refine ⟨?_, List.Pairwise.nil, nofun, nofun⟩
  cases hlast : stream.getLast? with
  | none => exact .inl (by simp [startOf, Memory.xlast, hlast])
  | some e =>
    by_cases hid : e.id = []
    · exact .inl (by simp [startOf, Memory.xlast, hlast, hid])
    · exact .inr ⟨e, List.mem_of_getLast? hlast, by simp [startOf, Memory.xlast, hlast, hid]⟩

theorem filter_after (hord : Ordered stream) {id : GoString} :
    stream.filter (fun e => id = [] || less id e.id) = stream.filter fun e => less id e.id := by
  refine List.filter_congr fun e he => ?_
  by_cases hid : id = []
  · have hpos : less [] e.id = true := (less_iff [] e.id).mpr (hord.positive e he)
    simp [hid, hpos]
  · simp [hid]

theorem after_hundred (hord : Ordered stream) :
    Memory.after stream last 100 = (stream.filter fun e => less last e.id).take 100 := by
  rw [Memory.after, filter_after hord]
  rfl

theorem mem_of_mem_after (hord : Ordered stream) (he : e ∈ Memory.after stream last 100) :
    e ∈ stream ∧ rank last < rank e.id := by
  rw [after_hundred hord] at he
  have hmem := List.mem_filter.mp (List.mem_of_mem_take he)
  exact ⟨hmem.1, (less_iff _ _).mp hmem.2⟩

theorem after_sorted (hord : Ordered stream) :
    (Memory.after stream last 100).Pairwise fun a b => rank a.id < rank b.id := by
  rw [after_hundred hord]
  exact hord.increasing.sublist ((List.take_sublist _ _).trans List.filter_sublist)

-- what a read leaves for later is newer than what it returns
theorem after_covers (hord : Ordered stream) (hf : f ∈ stream) (hlt : rank last < rank f.id) :
    f ∈ Memory.after stream last 100 ∨ ∀ b ∈ Memory.after stream last 100, rank b.id < rank f.id := by
  have hmem : f ∈ stream.filter fun e => less last e.id := List.mem_filter.mpr ⟨hf, (less_iff _ _).mpr hlt⟩
  have hsorted := hord.increasing.sublist (List.filter_sublist (p := fun e => less last e.id))
  rw [after_hundred hord]
  rw [← List.take_append_drop 100 (stream.filter fun e => less last e.id)] at hmem hsorted
  rcases List.mem_append.mp hmem with hmem | hmem
  · exact .inl hmem
  · exact .inr fun b hb => (List.pairwise_append.mp hsorted).2.2 b hb f hmem

theorem Pointed.read (h : Pointed stream ⟨last, [], none⟩) (hord : Ordered stream) :
    Pointed stream ⟨last, Memory.after stream last 100, none⟩ :=
  ⟨h.position, after_sorted hord, fun _ hb => mem_of_mem_after hord hb, nofun⟩

theorem Pointed.dispatch {p : Option Entry} (h : Pointed stream ⟨last, e :: rest, none⟩)
    (hp : p = some e ∨ p = none) :
    Pointed stream ⟨e.id, rest, p⟩ := by
  have hhead := h.members e List.mem_cons_self
  have hsorted := List.pairwise_cons.mp h.sorted
  refine ⟨.inr ⟨e, hhead.1, rfl⟩, hsorted.2, fun b hb => ?_, fun g hg => ?_⟩
  · exact ⟨(h.members b (List.mem_cons_of_mem e hb)).1, hsorted.1 b hb⟩
  · rcases hp with rfl | rfl
    · obtain rfl := Option.some.inj hg
      exact ⟨hhead.1, rfl⟩
    · cases hg

structure Reading (stream : List Entry) (l : Loop) : Prop extends Pointed stream l where
  covers : ∀ f ∈ stream, rank l.last < rank f.id → f ∈ l.batch ∨ ∀ b ∈ l.batch, rank b.id < rank f.id

theorem Reading.extend (h : Reading stream l) (hord : Ordered (stream ++ [e])) :
    Reading (stream ++ [e]) l := by
  refine ⟨h.toPointed.mono (List.subset_append_left _ _), fun f hf hlt => ?_⟩
  rcases List.mem_append.mp hf with hf | hf
  · exact h.covers f hf hlt
  · rw [List.mem_singleton.mp hf]
    exact .inr fun b hb => hord.newer (h.members b hb).1

theorem Reading.dispatch {p : Option Entry} (h : Reading stream ⟨last, e :: rest, none⟩)
    (hp : p = some e ∨ p = none) :
    Reading stream ⟨e.id, rest, p⟩ := by
  refine ⟨h.toPointed.dispatch hp, fun f hf hlt => ?_⟩
  rcases h.covers f hf ((h.members e List.mem_cons_self).2.trans hlt) with hmem | hnewer
  · rcases List.mem_cons.mp hmem with rfl | hmem
    · exact absurd hlt (lt_irrefl _)
    · exact .inl hmem
  · exact .inr fun b hb => hnewer b (List.mem_cons_of_mem e hb)

def Delivery.delivered (d : Delivery) : List Event := d.received ++ d.sub.ch

def Wanted (user lastID : GoString) (f : Entry) : Prop :=
  targets f.to_ user = true ∧ less lastID f.id = true

def Pending (loop : Option Loop) : Phase → Entry → Prop
  | .replaying rest, f => f ∈ rest ∨ ((∀ r ∈ rest, rank r.id < rank f.id) ∧
      ∃ l, loop = some l ∧ (rank l.last < rank f.id ∨ l.pushing = some f))
  | _, _ => True

def overtakes (user lastID : GoString) (d : Delivery) (e : Entry) : Bool :=
  d.stream.any fun f => (targets f.to_ user && less lastID f.id) &&
    (d.sub.last = [] || less d.sub.last f.id) &&
    less f.id e.id

theorem overtakes_of_ahead (hf : f ∈ d.stream) (hw : Wanted user lastID f) (hahead : Ahead d.sub f)
    (hlt : rank f.id < rank e.id) : overtakes user lastID d e = true := by
  have hmark : (d.sub.last = [] || less d.sub.last f.id) = true := by
    rcases hahead with hl | hl
    · simp [hl]
    · simp [(less_iff _ _).mpr hl]
  exact List.any_eq_true.mpr
    ⟨f, hf, by simp only [hw.1, hw.2, hmark, (less_iff _ _).mpr hlt, Bool.and_self]⟩

/-- The condition on a step: a live push overtakes nothing. -/
def inTurn (user lastID : GoString) (d : Delivery) : Action → Bool
  | .livePush =>
    match d.loop with
    | some ⟨_, _, some e⟩ => !overtakes user lastID d e
    | _ => true
  | _ => true

structure Sound (cfg : Config) (user lastID : GoString) (d : Delivery) : Prop where
  ordered : Ordered d.stream
  fits : d.stream.length ≤ cfg.maxLen
  owner : d.sub.user = user
  tracked : Tracked d.stream d.sub d.delivered
  reading : ∀ l, d.loop = some l → Reading d.stream l
  running : d.phase ≠ .idle → d.loop ≠ none
  rest : ∀ rest, d.phase = .replaying rest → rest.Sublist d.stream
  complete : ∀ f ∈ d.stream, Wanted user lastID f →
    f.event ∈ d.delivered ∨ (Ahead d.sub f ∧ Pending d.loop d.phase f)

theorem Sound.xadd (h : Sound cfg user lastID d) (hord : Ordered (d.stream ++ [e]))
    (hroom : d.stream.length < cfg.maxLen) :
    Sound cfg user lastID { d with stream := Memory.xadd cfg.maxLen d.stream e } := by
  have hlen : (d.stream ++ [e]).length ≤ cfg.maxLen := by
    simp only [List.length_append, List.length_singleton]; omega
  have hkeep : Memory.xadd cfg.maxLen d.stream e = d.stream ++ [e] := by rw [Memory.xadd, if_neg (by omega)]
  rw [hkeep]
  refine ⟨hord, hlen, h.owner, h.tracked.extend, fun l hl => (h.reading l hl).extend hord, h.running,
    fun rest hrest => (h.rest rest hrest).trans (List.sublist_append_left _ _), fun f hf hw => ?_⟩
  rcases List.mem_append.mp hf with hf | hf
  · exact h.complete f hf hw
  · obtain rfl := List.mem_singleton.mp hf
    refine .inr ⟨h.tracked.ahead_of_newer hord, ?_⟩
    cases hphase : d.phase with
    | replaying rest =>
      have hrun : d.loop ≠ none := h.running (by rw [hphase]; rintro ⟨⟩)
      obtain ⟨l, hl⟩ := Option.ne_none_iff_exists'.mp hrun
      exact .inr ⟨fun r hr => hord.newer ((h.rest rest hphase).subset hr), l, hl,
        .inl ((h.reading l hl).behind_newer hord)⟩
    | _ => trivial

-- before the range query nothing is owed to anyone else than the query
theorem Sound.early {loop : Option Loop} {phase : Phase} (h : Sound cfg user lastID d)
    (hloop : ∀ l, loop = some l → Reading d.stream l) (hrun : phase ≠ .idle → loop ≠ none)
    (hphase : ∀ rest, phase ≠ .replaying rest) :
    Sound cfg user lastID { d with loop := loop, phase := phase } := by
  refine ⟨h.ordered, h.fits, h.owner, h.tracked, hloop, hrun, fun rest hrest => absurd hrest (hphase rest),
    fun f hf hw => (h.complete f hf hw).imp_right fun hp => ⟨hp.1, ?_⟩⟩
  cases phase with
  | replaying rest => exact absurd rfl (hphase rest)
  | _ => trivial

theorem Sound.looped (h : Sound cfg user lastID d) : Reading d.stream d.looped := by
  cases hloop : d.loop with
  | none =>
    rw [Delivery.looped, hloop]
    exact ⟨pointed_start d.stream, fun _ _ _ => .inr nofun⟩
  | some l =>
    rw [Delivery.looped, hloop]
    exact h.reading l hloop

theorem Sound.xrange (h : Sound cfg user lastID d) (hphase : d.phase = .registered) :
    Sound cfg user lastID { d with phase := .replaying (Memory.after d.stream lastID cfg.maxLen) } := by
  have hlen : (d.stream.filter fun e => less lastID e.id).length ≤ cfg.maxLen :=
    (List.length_filter_le _ _).trans h.fits
  have hafter : Memory.after d.stream lastID cfg.maxLen = d.stream.filter fun e => less lastID e.id := by
    rw [Memory.after, filter_after h.ordered, if_pos cfg.maxLen_pos, List.take_of_length_le hlen]
  rw [hafter]
  refine ⟨h.ordered, h.fits, h.owner, h.tracked, h.reading, fun _ =>
    h.running (by rw [hphase]; rintro ⟨⟩), ?_, fun f hf hw => (h.complete f hf hw).imp_right
      fun hp => ⟨hp.1, .inl (List.mem_filter.mpr ⟨hf, hw.2⟩)⟩⟩
  rintro rest hrest
  obtain rfl := Phase.replaying.inj hrest
  exact List.filter_sublist

theorem Sound.skip (h : Sound cfg user lastID d) (hphase : d.phase = .replaying (e :: rest))
    (hskip : ¬ targets e.to_ user = true) : Sound cfg user lastID { d with phase := .replaying rest } := by
  refine ⟨h.ordered, h.fits, h.owner, h.tracked, h.reading, fun _ => h.running (by rw [hphase]; nofun), ?_,
    fun f hf hw => (h.complete f hf hw).imp_right fun hp => ⟨hp.1, ?_⟩⟩
  · rintro tail htail
    obtain rfl := Phase.replaying.inj htail
    exact (List.sublist_cons_self e _).trans (h.rest _ hphase)
  · have hpending := hp.2
    rw [hphase] at hpending
    rcases hpending with hmem | ⟨hnewer, hl⟩
    · rcases List.mem_cons.mp hmem with rfl | hmem
      · exact absurd hw.1 hskip
      · exact .inl hmem
    · exact .inr ⟨fun r hr => hnewer r (List.mem_cons_of_mem e hr), hl⟩

theorem delivered_pushed (d : Delivery) (ev : Event) : d.delivered ⊆ (d.pushed ev).delivered := by
  have hch : d.sub.ch ⊆ (d.sub.push ev).2.ch := by
    rw [Subscription.push]
    split
    · exact List.Subset.refl _
    · split
      · exact List.subset_append_left _ _
      · exact List.Subset.refl _
  exact List.append_subset.mpr
    ⟨List.subset_append_left _ _, List.Subset.trans hch (List.subset_append_right _ _)⟩

theorem Sound.after_push (h : Sound cfg user lastID d) (he : e ∈ d.stream)
    (hroom : d.sub.ch.length < connBuffer) (hahead : Ahead d.sub f)
    (hturn : f ≠ e → rank e.id < rank f.id) :
    f.event ∈ (d.pushed e.event).delivered ∨ (f ≠ e ∧ Ahead (d.sub.push e.event).2 f) := by
  rw [Delivery.delivered, Delivery.pushed]
  rcases push_entry h.tracked.opened hroom (h.ordered.id_ne_nil he) with ⟨hnot, hsub⟩ | ⟨-, hsub⟩
  · rw [hsub]
    refine .inr ⟨?_, hahead⟩
    rintro rfl
    exact hnot hahead
  · rw [hsub]
    by_cases hfe : f = e
    · exact .inl (by simp [hfe])
    · exact .inr ⟨hfe, .inr (hturn hfe)⟩

theorem Sound.replayPush (h : Sound cfg user lastID d) (hphase : d.phase = .replaying (e :: rest))
    (hroom : d.sub.ch.length < connBuffer) :
    Sound cfg user lastID ({ d with phase := .replaying rest }.pushed e.event) := by
  have hsub := h.rest _ hphase
  have hsorted := List.pairwise_cons.mp (h.ordered.increasing.sublist hsub)
  have he : e ∈ d.stream := hsub.subset List.mem_cons_self
  refine ⟨h.ordered, h.fits, (push_user _ _).trans h.owner, h.tracked.push he h.ordered hroom, h.reading,
    fun _ => h.running (by rw [hphase]; nofun), ?_, fun f hf hw => ?_⟩
  · rintro tail htail
    obtain rfl := Phase.replaying.inj htail
    exact (List.sublist_cons_self e _).trans hsub
  · rcases h.complete f hf hw with hgot | ⟨hahead, hpending⟩
    · exact .inl (delivered_pushed d e.event hgot)
    · rw [hphase] at hpending
      refine (h.after_push he hroom hahead fun hfe => ?_).imp_right fun hp => ⟨hp.2, ?_⟩
      · rcases hpending with hmem | ⟨hnewer, -⟩
        · exact hsorted.1 f ((List.mem_cons.mp hmem).resolve_left hfe)
        · exact hnewer e List.mem_cons_self
      · rcases hpending with hmem | ⟨hnewer, hl⟩
        · exact .inl ((List.mem_cons.mp hmem).resolve_left hp.1)
        · exact .inr ⟨fun r hr => hnewer r (List.mem_cons_of_mem e hr), hl⟩

theorem Sound.livePush (h : Sound cfg user lastID d) (hloop : d.loop = some ⟨last, rest, some e⟩)
    (hroom : d.sub.ch.length < connBuffer) (hturn : overtakes user lastID d e = false) :
    Sound cfg user lastID ({ d with loop := some ⟨last, rest, none⟩ }.pushed e.event) := by
  have hread := h.reading _ hloop
  have he : e ∈ d.stream := (hread.pushing e rfl).1
  refine ⟨h.ordered, h.fits, (push_user _ _).trans h.owner, h.tracked.push he h.ordered hroom, ?_,
    fun _ => nofun, h.rest, fun f hf hw => ?_⟩
  · rintro l hl
    obtain rfl := Option.some.inj hl
    exact ⟨hread.toPointed.pushed, hread.covers⟩
  · rcases h.complete f hf hw with hgot | ⟨hahead, hpending⟩
    · exact .inl (delivered_pushed d e.event hgot)
    · refine (h.after_push he hroom hahead fun hfe => ?_).imp_right fun hp => ⟨hp.2, ?_⟩
      · rcases h.ordered.lt_or_eq_or_gt he hf with hlt | rfl | hlt
        · exact hlt
        · exact absurd rfl hfe
        · have hover : overtakes user lastID d e = true := overtakes_of_ahead hf hw hahead hlt
          rw [hturn] at hover
          cases hover
      · rw [hloop] at hpending
        change Pending (some ⟨last, rest, none⟩) d.phase f
        cases hphase : d.phase with
        | replaying entries =>
          rw [hphase] at hpending
          rcases hpending with hmem | ⟨hnewer, l, hl, hl'⟩
          · exact .inl hmem
          · obtain rfl := Option.some.inj hl
            rcases hl' with hlt | hpush
            · exact .inr ⟨hnewer, _, rfl, .inl hlt⟩
            · exact absurd (Option.some.inj hpush).symm hp.1
        | _ => trivial

theorem Sound.dispatch (h : Sound cfg user lastID d) (hloop : d.loop = some ⟨last, e :: rest, none⟩) :
    Sound cfg user lastID { d with loop := some ⟨e.id, rest,
      if d.phase ≠ .idle ∧ targets e.to_ d.sub.user then some e else none⟩ } := by
  have hread := h.reading _ hloop
  refine ⟨h.ordered, h.fits, h.owner, h.tracked, ?_, fun _ => nofun, h.rest,
    fun f hf hw => (h.complete f hf hw).imp_right fun hp => ⟨hp.1, ?_⟩⟩
  · rintro l hl
    obtain rfl := Option.some.inj hl
    refine hread.dispatch ?_
    split
    · exact .inl rfl
    · exact .inr rfl
  · have hpending := hp.2
    rw [hloop] at hpending
    cases hphase : d.phase with
    | replaying entries =>
      rw [hphase] at hpending
      rcases hpending with hmem | ⟨hnewer, l, hl, hl'⟩
      · exact .inl hmem
      · obtain rfl := Option.some.inj hl
        refine .inr ⟨hnewer, _, rfl, ?_⟩
        have hlt := hl'.resolve_right nofun
        -- the head of the batch is the next entry of the stream
        rcases hread.covers f hf hlt with hmem | hafter
        · rcases List.mem_cons.mp hmem with rfl | hmem
          · have htarget : targets f.to_ d.sub.user = true := h.owner ▸ hw.1
            exact .inr (by simp [htarget])
          · exact .inl ((List.pairwise_cons.mp hread.sorted).1 f hmem)
        · exact .inl (hafter e List.mem_cons_self)
    | _ => trivial

theorem Sound.xread (h : Sound cfg user lastID d) (hloop : d.loop = some ⟨last, [], none⟩) :
    Sound cfg user lastID { d with loop := some ⟨last, Memory.after d.stream last 100, none⟩ } := by
  refine ⟨h.ordered, h.fits, h.owner, h.tracked, ?_, fun _ => nofun, h.rest,
    fun f hf hw => (h.complete f hf hw).imp_right fun hp => ⟨hp.1, ?_⟩⟩
  · rintro l hl
    obtain rfl := Option.some.inj hl
    exact ⟨(h.reading _ hloop).toPointed.read h.ordered, fun f hf => after_covers h.ordered hf⟩
  · have hpending := hp.2
    rw [hloop] at hpending
    cases hphase : d.phase with
    | replaying entries =>
      rw [hphase] at hpending
      rcases hpending with hmem | ⟨hnewer, l, hl, hl'⟩
      · exact .inl hmem
      · obtain rfl := Option.some.inj hl
        exact .inr ⟨hnewer, _, rfl, hl'⟩
    | _ => trivial

theorem Sound.receive {ev : Event} {ch : List Event} (h : Sound cfg user lastID d)
    (hch : d.sub.ch = ev :: ch) :
    Sound cfg user lastID { d with sub := { d.sub with ch := ch }, received := d.received ++ [ev] } := by
  have hsame : (d.received ++ [ev]) ++ ch = d.delivered := by
    rw [Delivery.delivered, hch, List.append_assoc, List.singleton_append]
  refine ⟨h.ordered, h.fits, h.owner, ?_, h.reading, h.running, h.rest, fun f hf hw => ?_⟩
  · have htracked := h.tracked
    rw [← hsame] at htracked
    exact ⟨htracked.opened, htracked.known, htracked.increasing, htracked.marked, htracked.mark⟩
  · have hcomplete := h.complete f hf hw
    rw [← hsame] at hcomplete
    exact hcomplete

theorem sound_step {a : Action} (hid : lastID ≠ []) (hwindow : outsideWindow cfg now lastID = false)
    (h : Sound cfg user lastID d) (hturn : inTurn user lastID d a = true)
    (hnext : d.next cfg now lastID a = some d') :
    Sound cfg user lastID d' := by
  cases a with
  | xadd e =>
    simp only [Delivery.next, Option.ite_none_right_eq_some, Option.some.injEq] at hnext
    obtain ⟨⟨hord, hroom⟩, rfl⟩ := hnext
    exact h.xadd hord hroom
  | otherOpens =>
    simp only [Delivery.next, Option.ite_none_right_eq_some, Option.some.injEq] at hnext
    obtain ⟨hphase, rfl⟩ := hnext
    exact h.early (fun l hl => Option.some.inj hl ▸ h.looped) (fun _ => nofun) (by rw [hphase]; nofun)
  | othersClose =>
    simp only [Delivery.next, Option.ite_none_right_eq_some, Option.some.injEq] at hnext
    obtain ⟨hphase, rfl⟩ := hnext
    exact h.early nofun (fun hne => absurd hphase hne) (by rw [hphase]; nofun)
  | lock =>
    simp only [Delivery.next, Option.ite_none_right_eq_some, Option.some.injEq] at hnext
    obtain ⟨hphase, rfl⟩ := hnext
    exact h.early (fun l hl => Option.some.inj hl ▸ h.looped) (fun _ => nofun) nofun
  | register =>
    simp only [Delivery.next, Option.ite_none_right_eq_some, Option.some.injEq] at hnext
    obtain ⟨hphase, rfl⟩ := hnext
    exact h.early h.reading (fun _ => h.running (by rw [hphase]; nofun)) nofun
  | xrange =>
    simp only [Delivery.next, hid, hwindow, Bool.false_eq_true, if_false, Option.ite_none_right_eq_some,
      Option.some.injEq] at hnext
    obtain ⟨hphase, rfl⟩ := hnext
    exact h.xrange hphase
  | replayPush =>
    simp only [Delivery.next] at hnext
    split at hnext
    · rename_i e rest hphase
      split at hnext
      · cases hnext
      · split at hnext
        · obtain rfl := Option.some.inj hnext
          exact h.replayPush hphase (by omega)
        · obtain rfl := Option.some.inj hnext
          exact h.skip hphase (by rwa [← h.owner])
    · cases hnext
  | xread =>
    simp only [Delivery.next] at hnext
    split at hnext
    · rename_i last hloop
      obtain rfl := Option.some.inj hnext
      exact h.xread hloop
    · cases hnext
  | dispatch =>
    simp only [Delivery.next] at hnext
    split at hnext
    · rename_i last e rest hloop
      split at hnext
      · cases hnext
      · obtain rfl := Option.some.inj hnext
        exact h.dispatch hloop
    · cases hnext
  | livePush =>
    simp only [Delivery.next] at hnext
    split at hnext
    · rename_i last rest e hloop
      split at hnext
      · cases hnext
      · obtain rfl := Option.some.inj hnext
        simp only [inTurn, hloop, Bool.not_eq_true'] at hturn
        exact h.livePush hloop (by omega) hturn
    · cases hnext
  | receive =>
    simp only [Delivery.next] at hnext
    split at hnext
    · rename_i ev ch hch
      obtain rfl := Option.some.inj hnext
      exact h.receive hch
    · cases hnext

/-- Nobody has subscribed yet. -/
def Delivery.start (stream : List Entry) (user : GoString) : Delivery :=
  { stream := stream, sub := { user := user } }

theorem sound_start (hord : Ordered stream) (hfits : stream.length ≤ cfg.maxLen) :
    Sound cfg user lastID (.start stream user) := by
  have htracked : Tracked stream ⟨user, [], [], false⟩ [] :=
    ⟨rfl, nofun, List.Pairwise.nil, nofun, .inl rfl⟩
  exact ⟨hord, hfits, rfl, htracked, nofun, fun h => absurd rfl h, nofun, fun _ _ _ =>
    .inr ⟨.inl rfl, trivial⟩⟩

theorem Sound.quiescent (h : Sound cfg user lastID d) (hq : d.Quiescent) (hf : f ∈ d.stream)
    (hw : Wanted user lastID f) : d.received.count f.event = 1 := by
  obtain ⟨hphase, hch, last, hloop, hbehind⟩ := hq
  have hgot : d.delivered = d.received := by rw [Delivery.delivered, hch, List.append_nil]
  have hmem : f.event ∈ d.received := by
    rcases h.complete f hf hw with hmem | ⟨-, hpending⟩
    · rwa [hgot] at hmem
    · rw [hphase, hloop] at hpending
      rcases hpending with hmem | ⟨-, l, hl, hlt | hpush⟩
      · cases hmem
      · obtain rfl := Option.some.inj hl
        exact absurd hlt (not_lt.mpr ((not_less_iff _ _).mp (hbehind f hf)))
      · obtain rfl := Option.some.inj hl
        cases hpush
  have hnodup : d.received.Nodup := by
    have hincreasing := h.tracked.increasing
    rw [hgot] at hincreasing
    exact hincreasing.imp fun {a b} hlt => show a ≠ b from fun heq => lt_irrefl _ (heq ▸ hlt)
  exact List.count_eq_one_of_mem hnodup hmem

/-- In every run whose live pushes overtake nothing, the events arrive in the order of their ids,
and once the replay is over and the loop has caught up every wanted entry has arrived once. -/
theorem live_replay_delivers (cfg : Config) (now : ℤ) (stream : List Entry) (user lastID : GoString)
    (d : Delivery) (hord : Ordered stream) (hfits : stream.length ≤ cfg.maxLen)
    (hformed : (parseID lastID).ok = true) (hwindow : outsideWindow cfg now lastID = false)
    (hrun : Machine.Reach (Delivery.next cfg now lastID) (fun d a => inTurn user lastID d a = true)
      (.start stream user) d) :
    (d.received.Pairwise fun a b => less a.id b.id = true) ∧
      (d.Quiescent → ∀ f ∈ d.stream, Wanted user lastID f → d.received.count f.event = 1) := by
  have hsound : Sound cfg user lastID d := hrun.invariant (sound_start hord hfits)
      fun s a s' hs hturn hnext =>
    sound_step (ne_nil_of_parseID hformed) hwindow hs hturn hnext
  refine ⟨?_, fun hq f hf hw => hsound.quiescent hq hf hw⟩
  have hincreasing := (List.pairwise_append.mp hsound.tracked.increasing).1
  exact hincreasing.imp fun hlt => (less_iff _ _).mpr hlt

def note (seq : GoString) : Entry := ⟨goString "1000-" ++ seq, "*", "comment", "\x7b\x7d"⟩

def early : List Entry := [note "1", note "2", note "3"]

-- the client has seen the first entry; the fourth is published after the registration
def resumed : List Action := [.lock, .register, .xadd (note "4"), .xread, .dispatch]

def replayed : List Action := [.xrange, .replayPush, .replayPush, .replayPush]

def drained (n : ℕ) : List Action := List.replicate n .receive

def settled : Delivery :=
  { stream := early ++ [note "4"], loop := some { last := "1000-4" }, phase := .replaying [],
    sub := { user := "u", last := "1000-4" },
    received := [(note "2").event, (note "3").event, (note "4").event] }

theorem live_replay_delivers_replayed : settled.received.count (note "3").event = 1 := by
  have hrun : Machine.Reach (Delivery.next {} 1000000000 "1000-1")
      (fun d a => inTurn "u" "1000-1" d a = true)
      (.start early "u") settled :=
    Machine.Reach.perform (c := inTurn "u" "1000-1") (fun _ _ h => h) .refl
      (resumed ++ replayed ++ [.livePush] ++ drained 3) (by decide +kernel)
  have hquiet : settled.Quiescent := ⟨rfl, rfl, _, rfl, by decide⟩
  exact (live_replay_delivers {} 1000000000 early "u" "1000-1" settled (by decide) (by decide)
    (by decide) (by decide)
    hrun).2 hquiet (note "3") (by decide) ⟨by decide, by decide⟩

def overtaken : Delivery := { settled with received := [(note "4").event] }

/-- The live push of the fourth entry comes before the replay: the second and the third are refused
and lost. -/
theorem live_push_overtakes_replay : Ordered early ∧ outsideWindow {} 1000000000 "1000-1" = false ∧
    Machine.Reach (Delivery.next {} 1000000000 "1000-1") (fun _ _ => True) (.start early "u") overtaken ∧
    overtaken.Quiescent ∧ Wanted "u" "1000-1" (note "2") ∧ overtaken.received.count
      (note "2").event = 0 := by
  have hrun : Machine.Reach (Delivery.next {} 1000000000 "1000-1") (fun _ _ => True)
      (.start early "u") overtaken :=
    Machine.Reach.perform (c := fun _ _ => true) (fun _ _ _ => trivial) .refl
      (resumed ++ [.livePush] ++ replayed ++ drained 1) (by decide +kernel)
  exact ⟨by decide, by decide, hrun, ⟨rfl, rfl, _, rfl, by decide⟩, ⟨by decide, by decide⟩, by decide⟩

end TangraTicket.Stream
