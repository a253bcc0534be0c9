import TangraTicket.Database.Rules

/-!
The comment counter of a ticket beside its comment rows. `DeleteComment` does not look at how many
rows its DELETE removed, so two deletions of one comment each take one off the counter.
-/

namespace TangraTicket.Database

open GoText Store KeyedTable CallProgram ReadCommitted

variable {ξ : Type} [DecidableEq ξ]

inductive CommentTask
  | createComment (now : Time) (c : Comment)
  | deleteComment (tenantID id : GoString)

def CommentTask.program [Uuids] (x : ξ) : CommentTask → Prog (Call schema ξ) Call.Answer Unit
  | .createComment now c => do
    let _ ← Database.createComment x now c
    pure ()
  | .deleteComment tenantID id => do
    let _ ← Database.deleteComment x tenantID id
    pure ()

def isComment : Row → Bool
  | .comment _ => true
  | _ => false

def commentsOn (T id : GoString) : Row → Bool
  | .comment c => c.tenantID = T && c.ticketID = id
  | _ => false

def CountsExact (rows : Table Key Row Row.key) : Prop :=
  ∀ t, .ticket t ∈ rows.rows → t.commentCount = (rows.rows.filter (commentsOn t.tenantID t.id)).length

def UpdatesTicket (rows : Table Key Row Row.key) (w : Write Key Row) : Prop :=
  ∀ T id, w.target Row.key = .ticket T id →
    ∃ t t', w = .update (.ticket t') ∧ rows.get? (.ticket T id) = some (.ticket t)

structure Counted (s : Db schema ξ) : Prop where
  exact : CountsExact s.rows
  updates : ∀ y w, (y, w) ∈ s.pending → UpdatesTicket s.rows w

structure SameTickets (x : ξ) (s s' : Db schema ξ) : Prop where
  rows : ∀ T id, s'.rows.get? (.ticket T id) = none ↔ s.rows.get? (.ticket T id) = none
  found : ∀ T id, (x, .ticket T id) ∈ s.found → (x, .ticket T id) ∈ s'.found

theorem counted_robust : Robust (ξ := ξ) Counted SameTickets where
  idle y s s' hrows hfound := ⟨fun _ _ => by rw [hrows], fun T id => (hfound _).mpr⟩
  trans y s s' s'' h h' :=
    ⟨fun T id => (h'.rows T id).trans (h.rows T id), fun T id hk => h'.found T id (h.found T id hk)⟩
  found s s' hrows hpending h := ⟨hrows ▸ h.exact, by
    rw [hpending, hrows]
    exact h.updates⟩
  abort s x h := ⟨h.exact, fun y w hw => h.updates y w (mem_pending_drop.mp hw).1⟩

variable {x : ξ} {s : Db schema ξ} {T id : GoString}

theorem sameTickets_commit (h : Counted s) {y : ξ} (hy : y ≠ x) : SameTickets y s (s.commit x) := by
  refine ⟨fun T id => ?_, fun T id hk =>
    mem_found_commit.mpr ⟨hk, hy, List.any_eq_false.mpr fun w hw => ?_⟩⟩
  · change (s.view x).get? (.ticket T id) = none ↔ _
    rw [Db.view, get?_writeAll]
    cases hl : left schema.key (s.mine x) (.ticket T id) with
    | none => exact Iff.rfl
    | some o =>
      obtain ⟨w, hw, htarget, rfl⟩ := left_eq_some hl
      obtain ⟨t, t', rfl, hget⟩ := h.updates x w (Db.mem_mine.mp hw) T id htarget
      simp [hget, Write.row?]
  · intro hremove
    simp only [Bool.and_eq_true, decide_eq_true_eq] at hremove
    obtain ⟨t, t', rfl, -⟩ := h.updates x w (Db.mem_mine.mp hw) T id hremove.2
    cases hremove.1

theorem updates_commit (hs : Sound s) (h : Counted s) :
    ∀ y w, (y, w) ∈ (s.commit x).pending → UpdatesTicket (s.commit x).rows w := by
  intro y w hw T id hk
  obtain ⟨hw, hy⟩ := mem_pending_drop.mp hw
  obtain ⟨t, t', rfl, hget⟩ := h.updates y w hw T id hk
  refine ⟨t, t', rfl, ?_⟩
  have hsame : (s.view x).get? (Write.target schema.key (.update (.ticket t'))) = _ :=
    hs.untouched hy (Db.mem_mine.mpr hw)
  rw [show Write.target schema.key (.update (.ticket t')) = .ticket T id from hk] at hsame
  exact hsame.trans hget

omit [DecidableEq ξ] in
theorem counted_extend {ws : List (Write Key Row)} (h : Counted s)
    (hws : ∀ w ∈ ws, UpdatesTicket s.rows w) :
    Counted (s.extend x ws) := by
  refine ⟨h.exact, fun y w hw => ?_⟩
  rcases List.mem_append.mp hw with hw | hw
  · exact h.updates y w hw
  · obtain ⟨w', hw', he⟩ := List.mem_map.mp hw
    obtain ⟨-, rfl⟩ := Prod.mk.inj he
    exact hws w' hw'

theorem isComment_of_commentsOn {r : Row} (h : commentsOn T id r = true) : isComment r = true := by
  cases r with
  | comment c => rfl
  | _ => cases h

theorem countsExact_of_change {rows rows' : Table Key Row Row.key} (h : CountsExact rows) (f : ℕ → ℕ)
    (hothers : ∀ t, .ticket t ∈ rows'.rows → (Row.ticket t).key ≠ .ticket T id → .ticket t ∈ rows.rows)
    (hticket : ∀ t', .ticket t' ∈ rows'.rows → (Row.ticket t').key = .ticket T id →
      ∃ t, .ticket t ∈ rows.rows ∧ (Row.ticket t).key = .ticket T id ∧ t'.commentCount = f t.commentCount)
    (hcomments : (rows'.rows.filter (commentsOn T id)).length =
      f (rows.rows.filter (commentsOn T id)).length)
    (hrest : ∀ T' id', Key.ticket T' id' ≠ .ticket T id →
      (rows'.rows.filter (commentsOn T' id')).length = (rows.rows.filter (commentsOn T' id')).length) :
    CountsExact rows' := by
  intro t' ht'
  by_cases hk : (Row.ticket t').key = .ticket T id
  · obtain ⟨t, ht, hkt, hcount⟩ := hticket t' ht' hk
    obtain ⟨rfl, rfl⟩ := Key.ticket.inj hk
    obtain ⟨hT, hid⟩ := Key.ticket.inj hkt
    rw [hcount, h t ht, hT, hid, hcomments]
  · rw [h t' (hothers t' ht' hk), hrest _ _ hk]

structure Creating (T id : GoString) (c : Comment) (x : ξ) (s : Db schema ξ) : Prop where
  ticket : ∃ t t', s.mine x = [.update (.ticket t'), .insert (.comment c)] ∧
    s.rows.get? (.ticket T id) = some (.ticket t) ∧ (Row.ticket t').key = .ticket T id ∧
    t'.commentCount = t.commentCount + 1
  fresh : s.rows.get? (Row.comment c).key = none
  tenant : c.tenantID = T
  on : c.ticketID = id

theorem Creating.steady {q : Row → Bool} {log : Log schema ξ} {s' : Db schema ξ} {c : Comment}
    (h : Creating T id c x s) (hs : Steady q x log s s') : Creating T id c x s' := by
  obtain ⟨t, t', hmine, hget, hkey, hcount⟩ := h.ticket
  have hlocked : ∀ w ∈ s.mine x, s'.rows.get? (w.target Row.key) = s.rows.get? (w.target Row.key) :=
    hs.locked
  rw [hmine] at hlocked
  obtain ⟨hticket, hcomment, -⟩ := by simpa only [List.forall_mem_cons] using hlocked
  have hsame : s'.rows.get? (.ticket T id) = s.rows.get? (.ticket T id) := hkey ▸ hticket
  exact ⟨⟨t, t', hs.mine.trans hmine, hsame.trans hget, hkey, hcount⟩, hcomment.trans h.fresh,
    h.tenant, h.on⟩

theorem Creating.exact {c : Comment} (h : Creating T id c x s) (hcounts : CountsExact s.rows) :
    CountsExact (s.commit x).rows := by
  obtain ⟨t, t', hmine, hget, hkey, hcount⟩ := h.ticket
  obtain ⟨ht, hkt⟩ := Table.get?_eq_some.mp hget
  have hrows : (s.commit x).rows = (s.rows.put (.ticket t')).put (.comment c) := by
    change writeAll s.rows (s.mine x) = _
    rw [hmine]
    rfl
  have hnew : ∀ r ∈ s.rows.rows, r.key ≠ (Row.comment c).key := Table.get?_eq_none.mp h.fresh
  have hcomment : ∀ r, isComment r = true →
      (r ∈ (s.commit x).rows.rows ↔ r = .comment c ∨ r ∈ s.rows.rows) := by
    intro r hr
    rw [hrows, Table.mem_put, Table.mem_put]
    cases r with
    | comment c' =>
      refine or_congr_right ?_
      constructor
      · rintro ⟨h | ⟨hin, -⟩, -⟩
        · cases h
        · exact hin
      · exact fun hin => ⟨.inr ⟨hin, nofun⟩, hnew _ hin⟩
    | _ => cases hr
  refine @countsExact_of_change T id _ _ hcounts (· + 1) ?_ ?_ ?_ ?_
  · intro t₁ ht₁ hk₁
    rw [hrows, Table.mem_put, Table.mem_put] at ht₁
    obtain h | ⟨h | ⟨hin, -⟩, -⟩ := ht₁
    · cases h
    · exact absurd (h ▸ hkey) hk₁
    · exact hin
  · intro t₁ ht₁ hk₁
    rw [hrows, Table.mem_put, Table.mem_put] at ht₁
    obtain h | ⟨h | ⟨-, hne⟩, -⟩ := ht₁
    · cases h
    · obtain rfl := Row.ticket.inj h
      exact ⟨t, ht, hkt, hcount⟩
    · exact absurd (hk₁.trans hkey.symm) hne
  · refine Table.length_filter_succ (x := .comment c) ?_ (fun hin => hnew _ hin rfl) fun r hr =>
      hcomment r (isComment_of_commentsOn hr)
    simp [commentsOn, h.tenant, h.on]
  · intro T' id' hne
    refine Table.length_filter_congr fun r hr => (hcomment r (isComment_of_commentsOn hr)).trans
      (or_iff_right ?_)
    rintro rfl
    simp only [commentsOn, h.tenant, h.on, Bool.and_eq_true, decide_eq_true_eq] at hr
    exact hne (by rw [hr.1, hr.2])

inductive Uncounts (rows : Table Key Row Row.key) (T id : GoString) : List (Write Key Row) → Prop
  | gone (h : rows.get? (.ticket T id) = none) : Uncounts rows T id []
  | there (t : Ticket) (h : rows.get? (.ticket T id) = some (.ticket t)) :
      Uncounts rows T id [.update (.ticket { t with commentCount := t.commentCount - 1 })]

structure Deleting (T id : GoString) (c : Comment) (x : ξ) (log : Log schema ξ) (s : Db schema ξ) :
    Prop where
  asked : comments T id ∈ reads log
  there : .comment c ∈ s.rows.rows
  named : comments T id (.comment c) = true
  writes : ∃ (ks : List Key) (us : List (Write Key Row)), s.mine x = ks.map .remove ++ us ∧
    .comment T id ∈ ks ∧
    (∀ k ∈ ks, k = .comment T id ∨ ∃ a, k = .attachment a) ∧ Uncounts s.rows T c.ticketID us

theorem Deleting.steady {log : Log schema ξ} {s' : Db schema ξ} {c : Comment} (h : Deleting T id c x log s)
    (hr : Relies isComment SameTickets x log s s') : Deleting T id c x log s' := by
  obtain ⟨ks, us, hmine, hcomment, hks, hus⟩ := h.writes
  have hthere := (hr.steady.seen _ h.asked _ rfl h.named).mpr h.there
  refine ⟨h.asked, hthere, h.named, ks, us, hr.steady.mine.trans hmine, hcomment, hks, ?_⟩
  cases hus with
  | gone hnone => exact .gone ((hr.others.rows _ _).mpr hnone)
  | there t hget =>
    obtain ⟨-, hkey⟩ := Table.get?_eq_some.mp hget
    have hlocked := hr.steady.locked
      (.update (.ticket { t with commentCount := t.commentCount - 1 })) (by simp [hmine])
    have hsame : s'.rows.get? (.ticket T c.ticketID) = s.rows.get? (.ticket T c.ticketID) := by
      rw [← hkey]
      exact hlocked
    exact .there t (hsame.trans hget)

theorem Deleting.exact {log : Log schema ξ} {c : Comment} (h : Deleting T id c x log s)
    (hcounts : CountsExact s.rows) :
    CountsExact (s.commit x).rows := by
  obtain ⟨ks, us, hmine, hcomment, hks, hus⟩ := h.writes
  have htenant : c.tenantID = T ∧ c.id = id := by simpa [comments] using h.named
  have hckey : (Row.comment c).key = .comment T id := key_of_comments h.named
  have hwrites : ∀ w ∈ s.mine x, (∃ k ∈ ks, w = .remove k) ∨ w ∈ us := by
    intro w hw
    rw [hmine, List.mem_append, List.mem_map] at hw
    rcases hw with ⟨k, hk, he⟩ | hin
    · exact .inl ⟨k, hk, he.symm⟩
    · exact .inr hin
  have hmem : ∀ {r : Row} {t : Table Key Row Row.key}, r ∈ t.rows ↔ t.get? r.key = some r := by
    intro r t
    simp [Table.get?_eq_some]
  have hrow : ∀ w ∈ us, ∀ r, w.row? = some r → ∃ t t', r = .ticket t' ∧
      s.rows.get? (.ticket T c.ticketID) = some (.ticket t) ∧
      (Row.ticket t').key = .ticket T c.ticketID ∧ t'.commentCount = t.commentCount - 1 := by
    intro w hw r hr
    cases hus with
    | gone _ => cases hw
    | there t hget =>
      obtain rfl := List.mem_singleton.mp hw
      obtain rfl := Option.some.inj hr
      exact ⟨t, _, rfl, hget, (Table.get?_eq_some.mp hget).2, rfl⟩
  have hticket : ∀ t₁, .ticket t₁ ∈ (s.commit x).rows.rows →
      (∃ t, s.rows.get? (.ticket T c.ticketID) = some (.ticket t) ∧
        (Row.ticket t₁).key = .ticket T c.ticketID ∧
        t₁.commentCount = t.commentCount - 1) ∨
      s.rows.get? (Row.ticket t₁).key = some (.ticket t₁) ∧ ∀ w ∈ s.mine x, w.target Row.key ≠
      (Row.ticket t₁).key := by
    intro t₁ ht₁
    obtain ⟨w, hw, hwrow⟩ | hold := get?_writeAll_some (hmem.mp ht₁)
    · obtain ⟨k, -, rfl⟩ | hw := hwrites w hw
      · cases hwrow
      · obtain ⟨t, t', he, hget, hkey, hcount⟩ := hrow w hw _ hwrow
        obtain rfl := Row.ticket.inj he
        exact .inl ⟨t, hget, hkey, hcount⟩
    · exact .inr hold
  have hcommentrow : ∀ r, isComment r = true →
      (r ∈ (s.commit x).rows.rows ↔ r ∈ s.rows.rows ∧ r.key ≠ .comment T id) := by
    intro r hr
    constructor
    · intro hin
      obtain ⟨w, hw, hwrow⟩ | ⟨hold, hfree⟩ := get?_writeAll_some (hmem.mp hin)
      · obtain ⟨k, -, rfl⟩ | hw := hwrites w hw
        · cases hwrow
        · obtain ⟨t, t', rfl, -⟩ := hrow w hw _ hwrow
          cases hr
      · refine ⟨hmem.mpr hold, fun hk => hfree (.remove (.comment T id)) ?_ hk.symm⟩
        rw [hmine]
        exact List.mem_append_left _ (List.mem_map_of_mem hcomment)
    · rintro ⟨hin, hne⟩
      refine hmem.mpr ((get?_writeAll_of_untouched fun w hw hk => ?_).trans (hmem.mp hin))
      obtain ⟨k, hk', rfl⟩ | hw := hwrites w hw
      · obtain rfl | ⟨a, rfl⟩ := hks k hk'
        · exact hne hk.symm
        · cases r with
          | comment c' => cases hk
          | _ => cases hr
      · cases hus with
        | gone _ => cases hw
        | there t hget =>
          obtain rfl := List.mem_singleton.mp hw
          cases r with
          | comment c' => cases hk
          | _ => cases hr
  have hremoved : ∀ r, isComment r = true →
      (r ∈ s.rows.rows ↔ r = .comment c ∨ r ∈ (s.commit x).rows.rows) := by
    intro r hr
    rw [hcommentrow r hr]
    constructor
    · intro hin
      by_cases hk : r.key = .comment T id
      · exact .inl (s.rows.eq_of_key hin h.there (hk.trans hckey.symm))
      · exact .inr ⟨hin, hk⟩
    · rintro (rfl | ⟨hin, -⟩)
      · exact h.there
      · exact hin
  have hgone : .comment c ∉ (s.commit x).rows.rows := by
    intro hin
    exact ((hcommentrow _ rfl).mp hin).2 hckey
  refine @countsExact_of_change T c.ticketID _ _ hcounts (· - 1) ?_ ?_ ?_ ?_
  · intro t₁ ht₁ hk₁
    obtain ⟨-, -, hkey, -⟩ | ⟨hold, -⟩ := hticket t₁ ht₁
    · exact absurd hkey hk₁
    · exact hmem.mpr hold
  · intro t₁ ht₁ hk₁
    obtain ⟨t, hget, -, hcount⟩ | ⟨hold, hfree⟩ := hticket t₁ ht₁
    · obtain ⟨hin, hkey⟩ := Table.get?_eq_some.mp hget
      exact ⟨t, hin, hkey, hcount⟩
    · cases hus with
      | gone hnone =>
        rw [hk₁, hnone] at hold
        cases hold
      | there t hget =>
        obtain ⟨-, hkey⟩ := Table.get?_eq_some.mp hget
        refine absurd (hkey.trans hk₁.symm)
          (hfree (.update (.ticket { t with commentCount := t.commentCount - 1 })) ?_)
        rw [hmine]
        exact List.mem_append_right _ (List.mem_singleton_self _)
  · have hone := Table.length_filter_succ (p := commentsOn T c.ticketID) (x := .comment c)
      (by simp [commentsOn, htenant.1]) hgone fun r hr => hremoved r (isComment_of_commentsOn hr)
    omega
  · intro T' id' hne
    symm
    refine Table.length_filter_congr fun r hr => (hremoved r (isComment_of_commentsOn hr)).trans
      (or_iff_right ?_)
    rintro rfl
    simp only [commentsOn, htenant.1, Bool.and_eq_true, decide_eq_true_eq] at hr
    exact hne (by rw [hr.1, hr.2])

section Runs

variable [Uuids] {log : Log schema ξ}

omit [Uuids] in
theorem counted_ready {Pre : Log schema ξ → Db schema ξ → Prop} (hpre : ∀ l s, Pre l s)
    (h : ∀ s', Counted s' → Relies isComment SameTickets x log s s' → CountsExact (s'.commit x).rows) :
    Ready isComment Counted SameTickets Pre x log s := by
  intro s' hs' hI' hr
  exact ⟨hpre _ _, ⟨h s' hI' hr, updates_commit hs' hI'⟩, fun y hy => sameTickets_commit hI' hy⟩

omit [Uuids] [DecidableEq ξ] in
theorem updatesTicket_of_key {rows : Table Key Row Row.key} {w : Write Key Row}
    (h : ∀ T id, w.target Row.key ≠ .ticket T id) : UpdatesTicket rows w :=
  fun T id hk => absurd hk (h T id)

theorem createComment_assured (now : Time) (c : Comment) (hmine : s.mine x = []) :
    Assured isComment Counted SameTickets (fun _ _ => True) x (createComment x now c)
      (fun r l _ => Committed x (fun _ _ => True) r l) log s := by
  refine Assured.transact counted_robust (assured_cast fun T _ => assured_cast fun tid _ => ?_)
  refine Secure.onward (Assured.updateWhere counted_robust fun s₁ s₂ ws _ _ h₁ _ hI₂ h₂ hws => ?_)
  have hmine₂ : s₂.mine x = [] := h₂.steady.mine.trans (h₁.steady.mine.trans hmine)
  obtain hnil | ⟨r, hr, hp, hone⟩ := hits_of_key (s := s₂) (x := x) (p := tickets T tid) fun _ =>
    key_of_tickets
  · rw [hnil] at hws ⊢
    subst hws
    exact ⟨counted_extend hI₂ fun _ hw => absurd hw List.not_mem_nil, trivial⟩
  · rw [hone] at hws ⊢
    subst hws
    rw [view_of_mine_nil hmine₂] at hr
    cases r with
    | ticket t =>
      refine ⟨counted_extend hI₂ fun w hw => ?_, assured_affected fun _ => assured_cast fun id _ => ?_⟩
      · obtain rfl := List.mem_singleton.mp hw
        intro T' id' hk
        have hkey := (Table.get?_eq_some.mp hr).2
        rw [← hk]
        exact ⟨t, _, rfl, Table.get?_eq_some.mpr ⟨(Table.get?_eq_some.mp hr).1, rfl⟩⟩
      · refine Assured.insertInto counted_robust fun s₃ new _ hI₃ h₃ hnew => ?_
        obtain rfl := insertable_one hnew
        refine ⟨counted_extend hI₃ fun w hw => ?_, counted_ready (fun _ _ => trivial)
          fun s₄ hI₄ h₄ => ?_, trivial⟩
        · obtain rfl := List.mem_singleton.mp hw
          exact updatesTicket_of_key (by rintro _ _ ⟨⟩)
        · have hupdate : .update ((bump (orNow now c.createdAt) c).apply (.ticket t)) ∈
              (s₂.extend x [.update ((bump (orNow now c.createdAt) c).apply (.ticket t))]).mine x := by
            rw [Db.mine_extend_self]
            exact List.mem_append_right _ (List.mem_singleton_self _)
          have hmine₃ : s₃.mine x = [.update ((bump (orNow now c.createdAt) c).apply (.ticket t))] := by
            rw [h₃.steady.mine, Db.mine_extend_self, hmine₂]
            rfl
          have hkey := (Table.get?_eq_some.mp hr).2
          have hfresh := get?_of_insertable hnew _ (List.mem_singleton_self _)
          rw [Db.view, hmine₃, get?_writeAll_of_untouched fun w hw => by
            obtain rfl := List.mem_singleton.mp hw
            rintro ⟨⟩] at hfresh
          have hcreating : Creating T tid (commentRow now c T tid id) x
              (s₃.extend x [.insert (.comment (commentRow now c T tid id))]) := by
            have hget : s₃.rows.get? (.ticket T tid) = some (.ticket t) := by
              rw [← hkey]
              exact (h₃.steady.locked _ hupdate).trans
                (Table.get?_eq_some.mpr ⟨(Table.get?_eq_some.mp hr).1, rfl⟩)
            refine ⟨⟨t, { t with
              commentCount := t.commentCount + 1, updatedAt := orNow now c.createdAt
              lastMessageID := if c.messageID ≠ [] ∧ ¬ c.internal then c.messageID else t.lastMessageID },
              ?_, hget, hkey, rfl⟩, hfresh, rfl, rfl⟩
            rw [Db.mine_extend_self, hmine₃]
            rfl
          exact (hcreating.steady h₄.steady).exact hI₄.exact
    | _ => cases hp

omit [Uuids] in
theorem uncounts_of_hits {s' : Db schema ξ} (hfree : ∀ w ∈ s.mine x, w.target Row.key ≠ .ticket T id)
    (hr : Relies isComment SameTickets x log (s.find x (tickets T id)) s') :
    Uncounts s'.rows T id ((s'.hits x (tickets T id)).map fun r => .update (unbump.apply r)) := by
  have hview : (s.view x).get? (.ticket T id) = s.rows.get? (.ticket T id) :=
    get?_writeAll_of_untouched hfree
  have hview' : (s'.view x).get? (.ticket T id) = s'.rows.get? (.ticket T id) :=
    get?_writeAll_of_untouched (by rw [hr.steady.mine]; exact hfree)
  obtain hnil | ⟨r, hget, hp, hone⟩ := hits_of_key (s := s') (x := x) (p := tickets T id) fun _ =>
    key_of_tickets
  · rw [hnil]
    refine .gone (by_contra fun hthere => ?_)
    obtain ⟨r', hr'⟩ := Option.ne_none_iff_exists'.mp hthere
    obtain ⟨r, hr₀⟩ := Option.ne_none_iff_exists'.mp fun hnone => hthere ((hr.others.rows T id).mpr hnone)
    obtain ⟨hin, hkey⟩ := Table.get?_eq_some.mp (hview.trans hr₀)
    obtain ⟨hin', hkey'⟩ := Table.get?_eq_some.mp (hview'.trans hr')
    have hfound : (x, Key.ticket T id) ∈ (s.find x (tickets T id)).found := by
      rw [← hkey]
      exact List.mem_append_right _
        (List.mem_map_of_mem (f := fun r => (x, Row.key r))
          (List.mem_filter.mpr ⟨hin, tickets_of_key hkey⟩))
    have hstill : (x, schema.key r') ∈ s'.found := hkey' ▸ hr.others.found T id hfound
    have hhit : r' ∈ s'.hits x (tickets T id) :=
      List.mem_filter.mpr ⟨hin', by simp [hstill, tickets_of_key hkey']⟩
    rw [hnil] at hhit
    cases hhit
  · rw [hone]
    cases r with
    | ticket t => exact .there t (hview'.symm.trans hget)
    | _ => cases hp

theorem deleteComment_assured (tenantID id : GoString) (hmine : s.mine x = []) :
    Assured isComment Counted SameTickets (fun _ _ => True) x (deleteComment x tenantID id)
      (fun r l _ => Committed x (fun _ _ => True) r l) log s := by
  refine Assured.transact counted_robust (assured_cast fun T _ => assured_cast fun id hid => ?_)
  have hidne : id ≠ [] := Uuids.ne_nil _ _ hid
  refine Secure.onward (Assured.select counted_robust fun s₁ _ _ h₁ => ?_)
  have hmine₁ := h₁.steady.mine.trans hmine
  rw [view_of_mine_nil hmine₁]
  cases hrows : s₁.rows.rows.filter (comments T id) with
  | nil => trivial
  | cons r rest =>
    obtain ⟨hin₁, hp⟩ :=
      List.mem_filter.mp (hrows ▸ List.mem_cons_self : r ∈ s₁.rows.rows.filter (comments T id))
    cases r with
    | comment c =>
      refine assured_collectKeys counted_robust fun s₂ _ _ h₂ => ?_
      refine Secure.onward (Assured.deleteWhere counted_robust fun s₃ s₄ ws _ _ h₃ _ hI₄ h₄ hws => ?_)
      have hmine₃ := h₃.steady.mine.trans (h₂.steady.mine.trans hmine₁)
      have hmine₄ : s₄.mine x = [] := h₄.steady.mine.trans hmine₃
      -- the comment is still there, so the DELETE finds it
      have hin₂ := (h₂.steady.seen (comments T id) (by simp [reads, readOf]) _ rfl hp).mpr hin₁
      have hin₃ := (h₃.steady.seen (comments T id) (by simp [reads, readOf]) _ rfl hp).mpr hin₂
      have hin₄ := (h₄.steady.seen (comments T id) (by simp [reads, readOf]) _ rfl hp).mpr hin₃
      have hhit : .comment c ∈ s₄.hits x (comments T id) :=
        (mem_hits_of_steady (fun r hr => by cases r <;> first | rfl | cases hr) hmine₃ h₄.steady
          (by simp [reads, readOf])).mpr ⟨hin₄, hp⟩
      obtain hnil | ⟨r, -, hpr, hone⟩ := hits_of_key (s := s₄) (x := x) (p := comments T id)
        fun _ => key_of_comments
      · rw [hnil] at hhit
        cases hhit
      · rw [hone, removals_one, key_of_comments hpr, removal_comment hidne, view_of_mine_nil hmine₄] at hws
        subst hws
        refine ⟨counted_extend hI₄ fun w hw => ?_, ?_⟩
        · obtain ⟨k, hk, rfl⟩ := List.mem_map.mp hw
          obtain rfl | ⟨a, -, -, rfl⟩ := (mem_doomed_comment hidne).mp hk
          · exact updatesTicket_of_key (by rintro _ _ ⟨⟩)
          · exact updatesTicket_of_key (by rintro _ _ ⟨⟩)
        · refine Secure.onward (Assured.updateWhere counted_robust fun s₅ s₆ us _ _ h₅ _ hI₆ h₆ hus => ?_)
          have hmine₅ : s₅.mine x = (doomed s₄.rows (.comment T id)).map .remove := by
            rw [h₅.steady.mine, Db.mine_extend_self, hmine₄, List.nil_append]
          have hdoomed : ∀ k ∈ doomed s₄.rows (.comment T id), k = .comment T id ∨
              ∃ a, k = .attachment a := by
            intro k hk
            obtain h | ⟨a, -, -, h⟩ := (mem_doomed_comment hidne).mp hk
            · exact .inl h
            · exact .inr ⟨a.id, h⟩
          have huncounts : Uncounts s₆.rows T c.ticketID us := by
            rw [hus]
            refine uncounts_of_hits (fun w hw => ?_) h₆
            rw [hmine₅] at hw
            obtain ⟨k, hk, rfl⟩ := List.mem_map.mp hw
            obtain rfl | ⟨a, rfl⟩ := hdoomed k hk <;> rintro ⟨⟩
          have hin₅ := (h₅.steady.seen (comments T id) (by simp [reads, readOf]) _ rfl hp).mpr hin₄
          have hin₆ := (h₆.steady.seen (comments T id) (by simp [reads, readOf]) _ rfl hp).mpr hin₅
          refine ⟨counted_extend hI₆ fun w hw => ?_, counted_ready (fun _ _ => trivial)
            fun s₇ hI₇ h₇ => ?_, trivial⟩
          · cases huncounts with
            | gone _ => cases hw
            | there t hget =>
              obtain rfl := List.mem_singleton.mp hw
              intro T' id' hk
              obtain ⟨hmem, hkey⟩ := Table.get?_eq_some.mp hget
              exact ⟨t, _, rfl, Table.get?_eq_some.mpr ⟨hmem, hk⟩⟩
          · have hmine₆ : (s₆.extend x us).mine x = (doomed s₄.rows (.comment T id)).map .remove ++ us := by
              rw [Db.mine_extend_self, h₆.steady.mine]
              exact congrArg (· ++ us) hmine₅
            refine (Deleting.steady (s := s₆.extend x us) ⟨?_, hin₆, hp, _, us, hmine₆, ?_, hdoomed,
              huncounts⟩ h₇).exact
              hI₇.exact
            · simp [reads, readOf]
            · exact (mem_doomed_comment hidne).mpr (.inl rfl)
    | _ => cases hp

theorem CommentTask.assured (task : CommentTask) (hmine : s.mine x = []) :
    Assured isComment Counted SameTickets (fun _ _ => True) x (task.program x)
      (fun _ _ _ => True) log s := by
  cases task with
  | createComment now c =>
    exact Secure.bind ((createComment_assured now c hmine).mono fun _ _ _ _ => trivial)
  | deleteComment tenantID id =>
    exact Secure.bind ((deleteComment_assured tenantID id hmine).mono fun _ _ _ _ => trivial)

/-- Where no commit writes a comment that another open transaction has looked for, the counters are
exact in every state. -/
theorem comment_counts_exact (tasks : ξ → CommentTask) {t₀ : Table Key Row Row.key} (hvalid : Valid t₀)
    (hcounts : CountsExact t₀) {cfg : Config ξ (Call schema ξ) Call.Answer Unit (Db schema ξ)}
    (h : Reaches step (Unstale isComment) (Config.start ⟨t₀, [], []⟩ fun i => (tasks i).program i) cfg) :
    CountsExact cfg.state.rows := by
  have hstart : Counted (⟨t₀, [], []⟩ : Db schema ξ) := ⟨hcounts, fun _ _ hw => absurd hw List.not_mem_nil⟩
  exact (assured_everywhere (Q := fun _ _ _ => True) isComment counted_robust h
    (sound_of_closed hvalid.closed) hstart
    fun i => (tasks i).assured rfl).1.2.exact

end Runs

def twoComments : Table Key Row Row.key :=
  ⟨[.ticket { id := ticketUuid, tenantID := tenantUuid, subject := "printer", commentCount := 2 },
    .comment { id := uuid 0x63, tenantID := tenantUuid, ticketID := ticketUuid, body := "no paper" },
    .comment { id := uuid 0x64, tenantID := tenantUuid, ticketID := ticketUuid, body := "still none" }],
    by decide⟩

abbrev commentStart (ids : Bool → GoString) :
    Config Bool (Call schema Bool) Call.Answer Unit (Db schema Bool) :=
  letI := hyphenated
  Config.start ⟨twoComments, [], []⟩ fun i => CommentTask.program i (.deleteComment tenantUuid (ids i))

def commentRun (ids : Bool → GoString) (picks : List (Bool × Bool)) :
    Config Bool (Call schema Bool) Call.Answer Unit (Db schema Bool) :=
  (commentStart ids).schedule step picks

def sameTwice : List (Bool × Bool) :=
  List.replicate 2 (true, false) ++ List.replicate 7 (false, false) ++ List.replicate 5 (true, false)

/-- The second deletion removes no row and still takes one off the counter. -/
theorem deletions_counted_twice :
    (∀ i, ((commentRun (fun _ => uuid 0x63) sameTwice).threads i).prog.result? = some ()) ∧
      (commentRun (fun _ => uuid 0x63) sameTwice).state.rows.rows =
        [.ticket { id := ticketUuid, tenantID := tenantUuid, subject := "printer", commentCount := 0 },
          .comment
            { id := uuid 0x64, tenantID := tenantUuid, ticketID := ticketUuid
              body := "still none" }] := by
  exact ⟨by decide +kernel, by decide +kernel⟩

def oneEach : Bool → GoString
  | true => uuid 0x63
  | false => uuid 0x64

def alternating : List (Bool × Bool) :=
  List.replicate 4 (true, false) ++ List.replicate 4 (false, false) ++ List.replicate 3 (true, false) ++
    List.replicate 3 (false, false)

theorem comment_counts_exact_apart :
    (∀ i, ((commentRun oneEach alternating).threads i).prog.result? = some ()) ∧
      CountsExact (commentRun oneEach alternating).state.rows := by
  have hvalid : Valid twoComments := by
    refine ⟨fun k r hr => ?_, by decide⟩
    obtain ⟨hmem, -⟩ := Table.get?_eq_some.mp hr
    have hthere : ∀ r ∈ twoComments.rows, ∀ p ∈ r.parents, twoComments.get? p ≠ none := by decide
    exact hthere r hmem
  have hcounts : CountsExact twoComments := by
    intro t ht
    simp only [twoComments, List.mem_cons, Row.ticket.injEq, reduceCtorEq, List.not_mem_nil, or_false] at ht
    subst ht
    decide
  have hrun : Reaches step (Unstale isComment) (commentStart oneEach) (commentRun oneEach alternating) := by
    refine Reaches.refl.schedule _ ⟨?_, ?_, ?_, ?_, ?_, ?_, ?_, ?_, ?_, ?_, ?_, ?_, ?_, ?_,
      trivial⟩ <;> unfold Unstale <;>
      decide +kernel
  exact ⟨by decide +kernel, @comment_counts_exact Bool _ hyphenated (fun i =>
    .deleteComment tenantUuid (oneEach i)) twoComments
    hvalid hcounts _ hrun⟩

end TangraTicket.Database
