import TangraTicket.Database.Rules

/-!
Concurrent replacements of one ticket's tags. A replacement deletes the links it finds and inserts
its own; the links that another commits in between are not found, and stay.
-/

namespace TangraTicket.Database

open GoText Store KeyedTable CallProgram ReadCommitted

variable {ξ : Type} [DecidableEq ξ] {T id : GoString}

def isLink : Row → Bool
  | .link _ => true
  | _ => false

def OwnedLink (T id : GoString) : Row → Prop
  | .link l => l.ticketID = id → l.tenantID = T
  | _ => True

structure LinksOwned (T id : GoString) (s : Db schema ξ) : Prop where
  rows : ∀ r ∈ s.rows.rows, OwnedLink T id r
  pending : ∀ y w, (y, w) ∈ s.pending → ∀ r, w.row? = some r → OwnedLink T id r

theorem links_robust (T id : GoString) : Robust (ξ := ξ) (LinksOwned T id) (fun _ _ _ => True) where
  idle _ _ _ _ _ := trivial
  trans _ _ _ _ _ _ := trivial
  found _ _ hrows hpending h := ⟨hrows ▸ h.rows, hpending ▸ h.pending⟩
  abort _ _ h := ⟨h.rows, fun y w hw => h.pending y w (mem_pending_drop.mp hw).1⟩

theorem linksOwned_view {s : Db schema ξ} (h : LinksOwned T id s) (x : ξ) :
    ∀ r ∈ (s.view x).rows, OwnedLink T id r := by
  intro r hr
  have hget : (s.view x).get? r.key = some r := Table.get?_eq_some.mpr ⟨hr, rfl⟩
  obtain ⟨w, hw, hrow⟩ | ⟨hold, -⟩ := get?_writeAll_some hget
  · exact h.pending x w (Db.mem_mine.mp hw) r hrow
  · exact h.rows r (Table.get?_eq_some.mp hold).1

theorem linksOwned_commit {s : Db schema ξ} (h : LinksOwned T id s) (x : ξ) :
    LinksOwned T id (s.commit x) :=
  ⟨linksOwned_view h x, fun y w hw => h.pending y w (mem_pending_drop.mp hw).1⟩

omit [DecidableEq ξ] in
theorem linksOwned_extend {s : Db schema ξ} {x : ξ} {ws : List (Write Key Row)} (h : LinksOwned T id s)
    (hws : ∀ w ∈ ws, ∀ r, w.row? = some r → OwnedLink T id r) : LinksOwned T id (s.extend x ws) := by
  refine ⟨h.rows, fun y w hw => ?_⟩
  rcases List.mem_append.mp hw with hw | hw
  · exact h.pending y w hw
  · obtain ⟨w', hw', he⟩ := List.mem_map.mp hw
    obtain ⟨-, rfl⟩ := Prod.mk.inj he
    exact hws w' hw'

def linkRow (T id tagID : GoString) : Row := .link { tenantID := T, ticketID := id, tagID := tagID }

theorem linksOf_iff {r : Row} : linksOf T id r = true ↔ ∃ tagID, r = linkRow T id tagID := by
  constructor
  · intro h
    cases r with
    | link l =>
      obtain ⟨T', id', tagID⟩ := l
      simp only [linksOf, Bool.and_eq_true, decide_eq_true_eq] at h
      obtain ⟨rfl, rfl⟩ := h
      exact ⟨tagID, rfl⟩
    | _ => cases h
  · rintro ⟨tagID, rfl⟩
    simp [linksOf, linkRow]

structure Replaced (T id : GoString) (tags : List GoString) (x : ξ) (log : Log schema ξ)
    (s : Db schema ξ) : Prop where
  asked : linksOf T id ∈ reads log
  writes : ∃ (ks : List Key) (new : List Row), s.mine x = ks.map .remove ++ new.map .insert ∧
    (∀ tagID, linkRow T id tagID ∈ s.rows.rows → (linkRow T id tagID).key ∈ ks) ∧
    ∀ r, r ∈ new ↔ ∃ tagID ∈ tags, r = linkRow T id tagID

theorem Replaced.steady {tags : List GoString} {x : ξ} {log : Log schema ξ} {s s' : Db schema ξ}
    (h : Replaced T id tags x log s) (hs : Steady isLink x log s s') : Replaced T id tags x log s' := by
  obtain ⟨ks, new, hmine, hgone, hnew⟩ := h.writes
  refine ⟨h.asked, ks, new, hs.mine.trans hmine, fun tagID hrow => hgone tagID ?_, hnew⟩
  exact (hs.seen _ h.asked _ rfl (linksOf_iff.mpr ⟨tagID, rfl⟩)).mp hrow

theorem Replaced.gone {tags : List GoString} {x : ξ} {log : Log schema ξ} {s : Db schema ξ}
    (h : Replaced T id tags x log s) {tagID : GoString} :
    linkRow T id tagID ∈ (s.view x).rows ↔ tagID ∈ tags := by
  obtain ⟨ks, new, hmine, hgone, hnew⟩ := h.writes
  have hrow : ∀ t : Table Key Row Row.key, linkRow T id tagID ∈ t.rows ↔
      t.get? (linkRow T id tagID).key = some (linkRow T id tagID) := fun t => by
    simp [Table.get?_eq_some]
  constructor
  · intro hin
    obtain ⟨w, hw, hwrow⟩ | ⟨hold, hfree⟩ := get?_writeAll_some ((hrow _).mp hin)
    · rw [hmine, List.mem_append, List.mem_map, List.mem_map] at hw
      obtain ⟨k, -, rfl⟩ | ⟨r, hr, rfl⟩ := hw
      · cases hwrow
      · obtain rfl := Option.some.inj hwrow
        obtain ⟨tagID', htag, he⟩ := (hnew _).mp hr
        simp only [linkRow, Row.link.injEq, TagLink.mk.injEq, true_and] at he
        exact he ▸ htag
    · have hk := hgone tagID (Table.get?_eq_some.mp hold).1
      refine absurd rfl (hfree (.remove (linkRow T id tagID).key) ?_)
      rw [hmine]
      exact List.mem_append_left _ (List.mem_map_of_mem hk)
  · intro htag
    have hin : linkRow T id tagID ∈ new := (hnew _).mpr ⟨tagID, htag, rfl⟩
    refine (hrow _).mpr ?_
    rw [Db.view, hmine, writeAll_append, get?_writeAll]
    cases hl : left schema.key (new.map Write.insert) (linkRow T id tagID).key with
    | none => exact absurd rfl (left_eq_none.mp hl _ (List.mem_map_of_mem hin))
    | some o =>
      -- the last insert under this key is of the same link
      obtain ⟨w, hw, htarget, rfl⟩ := left_eq_some hl
      obtain ⟨r, hr, rfl⟩ := List.mem_map.mp hw
      obtain ⟨tagID', -, rfl⟩ := (hnew r).mp hr
      have hkey : Key.link id tagID' = .link id tagID := htarget
      rw [(Key.link.inj hkey).2]
      rfl

variable {x : ξ} {log : Log schema ξ} {s : Db schema ξ}

theorem replaced_by_none {l : Log schema ξ} (hmine : s.mine x = []) (hasked : linksOf T id ∈ reads l)
    (hhits : ∀ r, r ∈ s.hits x (linksOf T id) ↔ r ∈ s.rows.rows ∧ linksOf T id r) :
    Replaced T id [] x l (s.extend x (schema.removals (s.view x) (s.hits x (linksOf T id)))) := by
  have hlinks : ∀ r ∈ s.hits x (linksOf T id), ∃ l, r = .link l := by
    intro r hr
    obtain ⟨tagID, rfl⟩ := linksOf_iff.mp ((hhits r).mp hr).2
    exact ⟨_, rfl⟩
  refine ⟨hasked, (s.hits x (linksOf T id)).map Row.key, [], ?_, ?_, by simp⟩
  · rw [Db.mine_extend_self, hmine, removals_links hlinks]
    simp
  · intro tagID hrow
    exact List.mem_map_of_mem ((hhits _).mpr ⟨hrow, linksOf_iff.mpr ⟨tagID, rfl⟩⟩)

theorem Replaced.insert {tags : List GoString} {new : List Row} {l : Log schema ξ}
    (h : Replaced T id [] x log s) (howned : LinksOwned T id s)
    (hnew : schema.insertable true (s.view x) (tags.map (linkRow T id)) = some new)
    (hl : reads log ⊆ reads l) : Replaced T id tags x l (s.extend x (new.map .insert)) := by
  obtain ⟨ks, new₀, hmine, hgone, hnone⟩ := h.writes
  obtain rfl : new₀ = [] := List.eq_nil_iff_forall_not_mem.mpr fun r hr => by simpa using (hnone r).mp hr
  have hmem : ∀ r ∈ new, ∃ tagID ∈ tags, r = linkRow T id tagID := by
    intro r hr
    obtain ⟨tagID, htag, rfl⟩ := List.mem_map.mp ((insertable_sublist hnew).subset hr)
    exact ⟨tagID, htag, rfl⟩
  refine ⟨hl h.asked, ks, new, ?_, hgone, fun r => ⟨hmem r, ?_⟩⟩
  · rw [Db.mine_extend_self, hmine]
    simp
  · rintro ⟨tagID, htag, rfl⟩
    obtain hin | ⟨r', hr' | hr', hrival⟩ := insertable_or_rival hnew _ (List.mem_map_of_mem htag)
    · exact hin
    · exfalso
      cases r' with
      | link l' =>
        obtain ⟨T', id', tagID'⟩ := l'
        simp only [Row.rivals, linkRow, Bool.and_eq_true, decide_eq_true_eq] at hrival
        obtain ⟨rfl, rfl⟩ := hrival
        obtain rfl : T' = T := linksOwned_view howned x _ hr' rfl
        simpa using h.gone.mp hr'
      | _ => cases hrival
    · obtain ⟨tagID', -, rfl⟩ := hmem r' hr'
      simp only [Row.rivals, linkRow, Bool.and_eq_true, decide_eq_true_eq] at hrival
      rw [hrival.2]
      exact hr'

section Runs

variable [Uuids]

def TagSet (T id : GoString) (texts : List GoString) (rows : Table Key Row Row.key) : Prop :=
  ∀ tagID, linkRow T id tagID ∈ rows.rows ↔ ∃ text ∈ texts, Uuids.parse text = some tagID

theorem Replaced.ready {tags texts : List GoString} (h : Replaced T id tags x log s)
    (htags : ∀ tagID, tagID ∈ tags ↔ ∃ text ∈ texts, Uuids.parse text = some tagID) :
    Ready isLink (LinksOwned T id) (fun _ _ _ => True)
      (fun _ s => TagSet T id texts (s.commit x).rows) x log s := by
  intro s' _ hI' hr
  have hset : TagSet T id texts (s'.commit x).rows := fun tagID =>
    (h.steady hr.steady).gone.trans (htags tagID)
  exact ⟨hset, linksOwned_commit hI' x, fun _ _ => trivial⟩

theorem setTicketTags_assured {tenantID ticketID : GoString} {tagIDs : List GoString}
    (hT : Uuids.parse tenantID = some T) (hid : Uuids.parse ticketID = some id) (hmine : s.mine x = []) :
    Assured isLink (LinksOwned T id) (fun _ _ _ => True) (fun _ s => TagSet T id tagIDs (s.commit x).rows) x
      (setTicketTags x tenantID ticketID tagIDs)
      (fun r l _ => Committed x (fun _ _ => True) r l) log s := by
  have hrob : Robust (ξ := ξ) (LinksOwned T id) (fun _ _ _ => True) := links_robust T id
  refine Assured.transact hrob (assured_cast fun T' hT' => assured_cast fun id' hid' => ?_)
  obtain rfl := Option.some.inj (hT.symm.trans hT')
  obtain rfl := Option.some.inj (hid.symm.trans hid')
  refine Secure.onward (assured_checkTicketAndTags hrob fun l₀ s₀ hmine₀ => ?_)
  refine Secure.onward (Assured.deleteWhere hrob fun s₁ s₂ ws _ _ h₁ _ hI₂ h₂ hws => ?_)
  have hmine₁ := h₁.steady.mine.trans (hmine₀.trans hmine)
  have hhits := fun r => mem_hits_of_steady (p := linksOf T id) (r := r)
    (fun r hr => (linksOf_iff.mp hr).choose_spec ▸ rfl) hmine₁ h₂.steady (by simp [reads, readOf])
  have hlinks : ∀ r ∈ s₂.hits x (linksOf T id), ∃ l, r = .link l := by
    intro r hr
    obtain ⟨tagID, rfl⟩ := linksOf_iff.mp ((hhits r).mp hr).2
    exact ⟨_, rfl⟩
  subst hws
  refine ⟨linksOwned_extend hI₂ fun w hw r hrow => ?_, ?_⟩
  · rw [removals_links hlinks] at hw
    obtain ⟨k, -, rfl⟩ := List.mem_map.mp hw
    cases hrow
  · have hnone := replaced_by_none (l := l₀ ++ [⟨⟨x, .aim (linksOf T id)⟩, .ok ()⟩] ++
      [⟨⟨x, .delete (linksOf T id)⟩, .ok (s₂.hits x (linksOf T id)).length⟩]) (h₂.steady.mine.trans hmine₁)
      (by simp [reads, readOf]) hhits
    split_ifs with hempty
    · refine ⟨hnone.ready fun tagID => ?_, trivial⟩
      have hnil : tagIDs = [] := List.eq_nil_iff_forall_not_mem.mpr fun text ht => by
        have := List.mem_eraseDups.mpr ht
        rw [List.length_eq_zero_iff.mp hempty] at this
        cases this
      simp [hnil]
    · refine assured_castAll fun ids hids => Assured.insertInto hrob fun s₃ new _ hI₃ h₃ hnew =>
        ⟨?_, ?_, trivial⟩
      · refine linksOwned_extend hI₃ fun w hw r hrow => ?_
        obtain ⟨r', hr', rfl⟩ := List.mem_map.mp hw
        obtain rfl := Option.some.inj hrow
        obtain ⟨tagID, -, rfl⟩ := List.mem_map.mp ((insertable_sublist hnew).subset hr')
        exact fun _ => rfl
      · refine ((hnone.steady h₃.steady).insert hI₃ hnew ?_).ready fun tagID => ?_
        · exact reads_subset_append _ _
        · rw [mem_of_casts hids]
          simp [List.mem_eraseDups]

omit [DecidableEq ξ] [Uuids] in
theorem linksOwned_start {t₀ : Table Key Row Row.key} (hvalid : Valid t₀) {t : Ticket}
    (ht : .ticket t ∈ t₀.rows) :
    LinksOwned t.tenantID t.id (⟨t₀, [], []⟩ : Db schema ξ) := by
  refine ⟨fun r hr => ?_, fun _ _ hw => absurd hw List.not_mem_nil⟩
  cases r with
  | link l =>
    intro hid
    have hparent : Key.ticket l.tenantID l.ticketID ∈ (Row.link l).parents := by
      simp [Row.parents, Row.cascades]
    have hthere := hvalid.closed _ _ (Table.get?_eq_some.mpr ⟨hr, rfl⟩) _ hparent
    obtain ⟨r', hr'⟩ := Option.ne_none_iff_exists'.mp hthere
    obtain ⟨hmem, hkey⟩ := Table.get?_eq_some.mp hr'
    cases r' with
    | ticket t' =>
      obtain ⟨hten, hid'⟩ := Key.ticket.inj hkey
      have hsame := hvalid.unique _ hmem _ ht (by simp [Row.rivals, hid', hid])
      rw [← hten, Row.ticket.inj hsame]
    | _ => cases hkey
  | _ => trivial

/-- Where no commit writes a link that another open transaction has looked for, the tags of the
ticket are, as soon as one call has succeeded, those of one of the calls. -/
theorem replacement_serialisable {tenantID ticketID : GoString} (tagIDs : ξ → List GoString)
    {t₀ : Table Key Row Row.key} (hvalid : Valid t₀) {t : Ticket} (ht : .ticket t ∈ t₀.rows)
    (hT : Uuids.parse tenantID = some t.tenantID) (hid : Uuids.parse ticketID = some t.id)
    {cfg : Config ξ (Call schema ξ) Call.Answer (Except RepoErr Unit) (Db schema ξ)}
    (h : Reaches step (Unstale isLink)
      (Config.start ⟨t₀, [], []⟩ fun i => setTicketTags i tenantID ticketID (tagIDs i)) cfg)
    {i : ξ} (hret : (cfg.threads i).prog = .ret (.ok ())) :
    ∃ j, TagSet t.tenantID t.id (tagIDs j) cfg.state.rows := by
  have hassured : ∀ i, Assured isLink (LinksOwned t.tenantID t.id) (fun _ _ _ => True)
      (fun _ s => TagSet t.tenantID t.id (tagIDs i) (s.commit i).rows) i
      (setTicketTags i tenantID ticketID (tagIDs i)) (fun r l _ => Committed i (fun _ _ => True) r l) []
      (⟨t₀, [], []⟩ : Db schema ξ) := fun i => setTicketTags_assured hT hid rfl
  refine holds_of_returned (P := fun _ _ rows => ∃ j, TagSet t.tenantID t.id (tagIDs j) rows)
    (links_robust t.tenantID t.id) h (sound_of_closed hvalid.closed)
    (linksOwned_start hvalid ht) hassured ?_ ?_ ?_ hret
  · exact fun i r => transact_ne_ret _ _ _ _
  · exact fun i _ _ s _ _ hset _ => ⟨i, hset⟩
  · exact fun _ _ j _ s _ _ hset _ => ⟨j, hset⟩

end Runs

def taggedTicket : Ticket := { id := ticketUuid, tenantID := tenantUuid, subject := "printer" }

def twoTags : Table Key Row Row.key :=
  ⟨[.ticket taggedTicket, .tag { id := uuid 0x61, tenantID := tenantUuid, name := "red" },
    .tag { id := uuid 0x62, tenantID := tenantUuid, name := "blue" }], by decide⟩

def tagRace : Bool → List GoString
  | true => [uuid 0x61]
  | false => [uuid 0x62]

abbrev tagStart : Config Bool (Call schema Bool) Call.Answer (Except RepoErr Unit) (Db schema Bool) :=
  letI := hyphenated
  Config.start ⟨twoTags, [], []⟩ fun i => setTicketTags i tenantUuid ticketUuid (tagRace i)

def tagRun (picks : List (Bool × Bool)) :
    Config Bool (Call schema Bool) Call.Answer (Except RepoErr Unit) (Db schema Bool) :=
  tagStart.schedule step picks

def overlapping : List (Bool × Bool) :=
  List.replicate 5 (true, false) ++ List.replicate 6 (false, false) ++ List.replicate 1 (true, false)

/-- Both replacements found no link to delete; the ticket has the tags of both. -/
theorem replacements_unite :
    (∀ i, ((tagRun overlapping).threads i).prog.result? = some (.ok ())) ∧
      (tagRun overlapping).state.rows.rows.filter isLink =
      [linkRow tenantUuid ticketUuid (uuid 0x62), linkRow tenantUuid ticketUuid (uuid 0x61)] := by
  exact ⟨by decide +kernel, by decide +kernel⟩

def apart : List (Bool × Bool) :=
  List.replicate 2 (false, false) ++ List.replicate 6 (true, false) ++ List.replicate 4 (false, false)

theorem replacement_serialisable_apart :
    (∀ i, ((tagRun apart).threads i).prog.result? = some (.ok ())) ∧
      ∃ j, @TagSet hyphenated tenantUuid ticketUuid (tagRace j) (tagRun apart).state.rows := by
  have hdone : ∀ i, ((tagRun apart).threads i).prog.result? = some (.ok ()) := by decide +kernel
  have hvalid : Valid twoTags := by
    refine ⟨fun k r hr => ?_, by decide⟩
    obtain ⟨hmem, -⟩ := Table.get?_eq_some.mp hr
    have hnone : ∀ r ∈ twoTags.rows, r.parents = [] := by decide
    rw [hnone r hmem]
    exact nofun
  have hrun : Reaches step (Unstale isLink) tagStart (tagRun apart) := by
    refine Reaches.refl.schedule _ ⟨?_, ?_, ?_, ?_, ?_, ?_, ?_, ?_, ?_, ?_, ?_, ?_, trivial⟩ <;>
      unfold Unstale <;>
      decide +kernel
  refine ⟨hdone, ?_⟩
  exact @replacement_serialisable Bool _ hyphenated tenantUuid ticketUuid tagRace twoTags hvalid
    taggedTicket (by decide) rfl rfl _
    hrun true (Prog.eq_ret_of_result? (hdone true))

end TangraTicket.Database
