import TangraTicket.Database.Rules

/-!
The storage keys a deletion returns beside the attachment rows its cascade removes. They are read
before the DELETE, by a statement that locks nothing.
-/

namespace TangraTicket.Database

open GoText Store KeyedTable CallProgram ReadCommitted

variable {ξ : Type} [DecidableEq ξ]

inductive AttachmentTask
  | deleteTicket (tenantID id : GoString)
  | deleteComment (tenantID id : GoString)
  | createAttachment (now : Time) (a : Attachment)

/-- `CreateAttachment` returns no keys. -/
def AttachmentTask.program [Uuids] (x : ξ) : AttachmentTask → Transaction ξ (List GoString)
  | .deleteTicket tenantID id => Database.deleteTicket x tenantID id
  | .deleteComment tenantID id => Database.deleteComment x tenantID id
  | .createAttachment now a => (Database.createAttachment x now a).bind fun r => .ret (r.map fun _ => [])

def isAttachment : Row → Bool
  | .attachment _ => true
  | _ => false

/-- The storage keys of the attachments that are in `before` and not in `after`. -/
def lostKeys (before after : Table Key Row Row.key) : List GoString :=
  (before.rows.filter fun r => isAttachment r && (after.get? r.key).isNone).filterMap storageKey?

/-- An attachment and its comment are of one ticket. -/
def Agrees (rows : Table Key Row Row.key) (a : Attachment) : Prop :=
  ∀ c, .comment c ∈ rows.rows → (Row.comment c).key ∈ (Row.attachment a).cascades → c.ticketID = a.ticketID

structure Filed (s : Db schema ξ) : Prop where
  committed : ∀ a, .attachment a ∈ s.rows.rows → Agrees s.rows a
  pending : ∀ y w, (y, w) ∈ s.pending → ∀ a, w.row? = some (.attachment a) → Agrees s.rows a
  unwritten : ∀ y w, (y, w) ∈ s.pending → ∀ c, w.row? ≠ some (.comment c)

structure FewerComments (x : ξ) (s s' : Db schema ξ) : Prop where
  rows : ∀ c, .comment c ∈ s'.rows.rows → .comment c ∈ s.rows.rows
  found : ∀ c, .comment c ∈ s'.rows.rows → (x, (Row.comment c).key) ∈ s.found →
    (x, (Row.comment c).key) ∈ s'.found

theorem filed_robust : Robust (ξ := ξ) Filed FewerComments where
  idle y s s' hrows hfound := ⟨fun _ => by rw [hrows]; exact id, fun _ _ => (hfound _).mpr⟩
  trans y s s' s'' h h' :=
    ⟨fun c hc => h.rows c (h'.rows c hc), fun c hc hk => h'.found c hc (h.found c (h'.rows c hc) hk)⟩
  found s s' hrows hpending h := by
    refine ⟨?_, ?_, ?_⟩
    · rw [hrows]
      exact h.committed
    · rw [hpending, hrows]
      exact h.pending
    · rw [hpending]
      exact h.unwritten
  abort s x h :=
    ⟨h.committed, fun y w hw => h.pending y w (mem_pending_drop.mp hw).1,
      fun y w hw => h.unwritten y w (mem_pending_drop.mp hw).1⟩

variable {x : ξ} {s : Db schema ξ} {T id : GoString}

theorem Filed.comment_of_commit (h : Filed s) {c : Comment} (hc : .comment c ∈ (s.commit x).rows.rows) :
    .comment c ∈ s.rows.rows ∧ ∀ w ∈ s.mine x, w.target Row.key ≠ (Row.comment c).key := by
  have hget : (s.view x).get? (Row.comment c).key = some (.comment c) := Table.get?_eq_some.mpr ⟨hc, rfl⟩
  obtain ⟨w, hw, hrow⟩ | ⟨hold, hfree⟩ := get?_writeAll_some hget
  · exact absurd hrow (h.unwritten x w (Db.mem_mine.mp hw) c)
  · exact ⟨(Table.get?_eq_some.mp hold).1, hfree⟩

theorem fewerComments_commit (h : Filed s) {y : ξ} (hy : y ≠ x) : FewerComments y s (s.commit x) := by
  refine ⟨fun c hc => (h.comment_of_commit hc).1, fun c hc hk => mem_found_commit.mpr ⟨hk, hy, ?_⟩⟩
  refine List.any_eq_false.mpr fun w hw hremove => ?_
  simp only [Bool.and_eq_true, decide_eq_true_eq] at hremove
  exact (h.comment_of_commit hc).2 w hw hremove.2

theorem Filed.commit (h : Filed s) : Filed (s.commit x) := by
  have hagrees : ∀ a, Agrees s.rows a → Agrees (s.commit x).rows a := fun a ha c hc =>
    ha c (h.comment_of_commit hc).1
  refine ⟨fun a ha => hagrees a ?_, ?_, ?_⟩
  · have hget : (s.view x).get? (Row.attachment a).key = some (.attachment a) :=
      Table.get?_eq_some.mpr ⟨ha, rfl⟩
    obtain ⟨w, hw, hrow⟩ | ⟨hold, -⟩ := get?_writeAll_some hget
    · exact h.pending x w (Db.mem_mine.mp hw) a hrow
    · exact h.committed a (Table.get?_eq_some.mp hold).1
  · exact fun y w hw a hrow => hagrees a (h.pending y w (mem_pending_drop.mp hw).1 a hrow)
  · exact fun y w hw => h.unwritten y w (mem_pending_drop.mp hw).1

omit [DecidableEq ξ] in
theorem Filed.extend {ws : List (Write Key Row)} (h : Filed s)
    (hattachments : ∀ w ∈ ws, ∀ a, w.row? = some (.attachment a) → Agrees s.rows a)
    (hcomments : ∀ w ∈ ws, ∀ c, w.row? ≠ some (.comment c)) : Filed (s.extend x ws) := by
  have hcases : ∀ y w, (y, w) ∈ (s.extend x ws).pending → (y, w) ∈ s.pending ∨ w ∈ ws := by
    intro y w hw
    refine (List.mem_append.mp hw).imp_right fun hw => ?_
    obtain ⟨w', hw', he⟩ := List.mem_map.mp hw
    obtain ⟨-, rfl⟩ := Prod.mk.inj he
    exact hw'
  refine ⟨h.committed, fun y w hw => ?_, fun y w hw => ?_⟩
  · exact (hcases y w hw).elim (h.pending y w) (hattachments w)
  · exact (hcases y w hw).elim (h.unwritten y w) (hcomments w)

def keysRead (log : Log schema ξ) : List GoString :=
  log.flatMap fun
    | ⟨⟨_, .select _⟩, .ok rows⟩ => rows.filterMap storageKey?
    | _ => []

def Reported (x : ξ) (log : Log schema ξ) (s : Db schema ξ) : Prop :=
  (keysRead log).Perm (lostKeys s.rows (s.commit x).rows)

structure Erasing (p : Row → Bool) (x : ξ) (log : Log schema ξ) (s : Db schema ξ) : Prop where
  asked : p ∈ reads log
  only : ∀ r, p r = true → isAttachment r = true
  read : (keysRead log).Perm ((s.rows.rows.filter p).filterMap storageKey?)
  written : ∀ a, .attachment a ∈ s.rows.rows →
    ((∃ w ∈ s.mine x, w.target Row.key = .attachment a.id) ↔ p (.attachment a) = true)
  removed : ∀ w ∈ s.mine x, ∀ a, w.row? ≠ some (.attachment a)

omit [DecidableEq ξ] in
theorem get?_attachment {t : Table Key Row Row.key} {a : Attachment} (ha : .attachment a ∈ t.rows) :
    t.get? (.attachment a.id) = some (.attachment a) := Table.get?_eq_some.mpr ⟨ha, rfl⟩

omit [DecidableEq ξ] in
theorem nodup_rows (t : Table Key Row Row.key) : t.rows.Nodup := List.Nodup.of_map _ t.nodup

theorem perm_of_steady {p : Row → Bool} {log : Log schema ξ} {s' : Db schema ξ}
    (honly : ∀ r, p r = true → isAttachment r = true) (h : Steady isAttachment x log s s')
    (hp : p ∈ reads log) :
    (s.rows.rows.filter p).Perm (s'.rows.rows.filter p) := by
  refine (List.perm_ext_iff_of_nodup ((nodup_rows _).filter _) ((nodup_rows _).filter _)).mpr fun r => ?_
  simp only [List.mem_filter]
  exact and_congr_left fun hr => (h.seen p hp r (honly r hr) hr).symm

theorem Erasing.steady {p : Row → Bool} {log : Log schema ξ} {s' : Db schema ξ} (h : Erasing p x log s)
    (hr : Steady isAttachment x log s s') : Erasing p x log s' := by
  refine ⟨h.asked, h.only, h.read.trans ((perm_of_steady h.only hr h.asked).filterMap _),
    fun a ha => ?_, ?_⟩
  · rw [hr.mine]
    constructor
    · rintro ⟨w, hw, hk⟩
      have hlocked := hr.locked w hw
      rw [hk, get?_attachment ha] at hlocked
      exact (h.written a (Table.get?_eq_some.mp hlocked.symm).1).mp ⟨w, hw, hk⟩
    · intro hp
      exact (h.written a ((hr.seen p h.asked _ rfl hp).mp ha)).mpr hp
  · rw [hr.mine]
    exact h.removed

theorem Erasing.lost {p : Row → Bool} {log : Log schema ξ} (h : Erasing p x log s) :
    Reported x log s := by
  have hgone : ∀ a, .attachment a ∈ s.rows.rows →
      ((s.view x).get? (.attachment a.id) = none ↔ p (.attachment a) = true) := by
    intro a ha
    rw [← h.written a ha]
    constructor
    · intro hnone
      by_contra hfree
      have hkept := get?_writeAll_of_untouched (t := s.rows) fun w hw hk => hfree ⟨w, hw, hk⟩
      rw [Db.view, hkept, get?_attachment ha] at hnone
      cases hnone
    · rintro ⟨w, hw, hk⟩
      refine Option.eq_none_iff_forall_not_mem.mpr fun r hr => ?_
      obtain ⟨w', hw', hrow⟩ | ⟨-, hfree⟩ := get?_writeAll_some hr
      · obtain ⟨-, hkey⟩ := Table.get?_eq_some.mp hr
        cases r with
        | attachment a' => exact h.removed w' hw' a' hrow
        | _ => cases hkey
      · exact hfree w hw hk
  refine h.read.trans (List.Perm.filterMap _ (List.Perm.of_eq (List.filter_congr fun r hr => ?_)))
  cases r with
  | attachment a =>
    rw [Bool.eq_iff_iff, ← hgone a hr]
    simp [isAttachment, Option.isNone_iff_eq_none, Db.commit, Row.key]
  | _ => exact Bool.eq_false_iff.mpr fun hp => absurd (h.only _ hp) Bool.false_ne_true

theorem attachment_mem_doomed_ticket {t : Table Key Row Row.key} {a : Attachment}
    (ha : .attachment a ∈ t.rows) (hagrees : Agrees t a) :
    .attachment a.id ∈ doomed t (.ticket T id) ↔ attachmentsOfTicket T id (.attachment a) = true := by
  have hof : attachmentsOfTicket T id (.attachment a) = true ↔ Key.ticket a.tenantID a.ticketID =
      .ticket T id := by
    simp [attachmentsOfTicket]
  have hself : ∀ r ∈ t.rows, r.key = .attachment a.id → r = .attachment a := fun r hr hkey =>
    Option.some.inj ((Table.get?_eq_some.mpr ⟨hr, hkey⟩).symm.trans (get?_attachment ha))
  -- what an attachment refers to: its ticket, or a comment of that ticket
  have hcascade : ∀ k ∈ (Row.attachment a).cascades, k ∈ Key.ticket T id :: referring t [.ticket T id] →
      Key.ticket a.tenantID a.ticketID = .ticket T id := by
    intro k hk hin
    rcases List.mem_cons.mp hin with rfl | hin
    · simp only [Row.cascades, List.mem_cons] at hk
      refine hk.elim Eq.symm fun hk => ?_
      split_ifs at hk
      · cases hk
      · cases List.mem_singleton.mp hk
    · obtain ⟨r, hr, rfl, k', hk', hin'⟩ := mem_referring.mp hin
      obtain rfl := List.mem_singleton.mp hin'
      cases r with
      | comment c =>
        have hticket := hagrees c hr hk
        have htenant : c.tenantID = a.tenantID := by
          simp only [Row.cascades, Row.key, List.mem_cons, reduceCtorEq, false_or] at hk
          split_ifs at hk
          · cases hk
          · exact (Key.comment.inj (List.mem_singleton.mp hk)).1
        rw [← hticket, ← htenant]
        exact (List.mem_singleton.mp hk').symm
      | attachment a' => simp [Row.cascades, Row.key] at hk
      | link l => simp [Row.cascades, Row.key] at hk
      | _ => cases hk'
  have hreferring : ∀ ks ⊆ Key.ticket T id :: referring t [.ticket T id],
      .attachment a.id ∈ referring t ks →
      Key.ticket a.tenantID a.ticketID = .ticket T id := by
    intro ks hks hin
    obtain ⟨r, hr, hkey, k', hk', hin'⟩ := mem_referring.mp hin
    obtain rfl := hself r hr hkey
    exact hcascade k' hk' (hks hin')
  rw [hof, doomed, List.mem_append, List.mem_cons]
  constructor
  · rintro ((h | h) | h)
    · cases h
    · exact hreferring _ (fun k hk => List.mem_cons.mpr (.inl (List.mem_singleton.mp hk))) h
    · exact hreferring _ (List.Subset.refl _) h
  · intro h
    refine .inl (.inr (mem_referring.mpr ⟨_, ha, rfl, _, ?_, List.mem_singleton_self _⟩))
    rw [← h]
    exact List.mem_cons_self

section Runs

variable [Uuids] {log : Log schema ξ}

omit [Uuids] [DecidableEq ξ] in
theorem keysRead_append (l l' : Log schema ξ) : keysRead (l ++ l') = keysRead l ++ keysRead l' :=
  List.flatMap_append ..

section Keys

omit [Uuids] [DecidableEq ξ]

variable {p : Row → Bool} {rows : List Row} {n : ℕ}

@[simp] theorem keysRead_select :
    keysRead ([⟨⟨x, .select p⟩, .ok rows⟩] : Log schema ξ) = rows.filterMap storageKey? := List.append_nil _

@[simp] theorem keysRead_aim : keysRead ([⟨⟨x, .aim p⟩, .ok ()⟩] : Log schema ξ) = [] := rfl

@[simp] theorem keysRead_delete : keysRead ([⟨⟨x, .delete p⟩, .ok n⟩] : Log schema ξ) = [] := rfl

@[simp] theorem keysRead_update {f : schema.Change} :
    keysRead ([⟨⟨x, .update p f⟩, .ok n⟩] : Log schema ξ) = [] := rfl

theorem keys_of_others (hp : ∀ r, p r = true → isAttachment r = false) :
    (rows.filter p).filterMap storageKey? = [] := by
  refine List.filterMap_eq_nil_iff.mpr fun r hr => ?_
  have hr := hp r (List.mem_filter.mp hr).2
  cases r with
  | attachment a => cases hr
  | _ => rfl

theorem comments_not_attachment (r : Row) (h : comments T id r = true) : isAttachment r = false := by
  cases r with
  | comment c => rfl
  | _ => cases h

theorem attachmentsOfTicket_only (r : Row) (h : attachmentsOfTicket T id r = true) :
    isAttachment r = true := by
  cases r with
  | attachment a => rfl
  | _ => cases h

theorem attachmentsOfComment_only (r : Row) (h : attachmentsOfComment T id r = true) :
    isAttachment r = true := by
  cases r with
  | attachment a => rfl
  | _ => cases h

end Keys

omit [Uuids] in
theorem Erasing.onward {p : Row → Bool} {l : Log schema ξ} (h : Erasing p x log s) (hl : keysRead l = []) :
    Erasing p x (log ++ l) s := by
  refine ⟨reads_subset_append _ _ h.asked, h.only, ?_, h.written, h.removed⟩
  rw [keysRead_append, hl, List.append_nil]
  exact h.read

omit [Uuids] in
theorem Erasing.find {p p' : Row → Bool} (h : Erasing p x log s) : Erasing p x log (s.find x p') :=
  ⟨h.asked, h.only, h.read, h.written, h.removed⟩

omit [Uuids] in
theorem erasing_of_removals {p : Row → Bool} {ks : List Key} (hasked : p ∈ reads log)
    (honly : ∀ r, p r = true → isAttachment r = true)
    (hread : (keysRead log).Perm ((s.rows.rows.filter p).filterMap storageKey?)) (hmine : s.mine x = [])
    (hks : ∀ a, .attachment a ∈ s.rows.rows → (.attachment a.id ∈ ks ↔ p (.attachment a) = true)) :
    Erasing p x log (s.extend x (ks.map .remove)) := by
  have hmine' : (s.extend x (ks.map .remove)).mine x = ks.map .remove := by
    rw [Db.mine_extend_self, hmine, List.nil_append]
  refine ⟨hasked, honly, hread, fun a ha => ?_, ?_⟩
  · rw [hmine', ← hks a ha]
    simp [Write.target]
  · rw [hmine']
    intro w hw a
    obtain ⟨k, -, rfl⟩ := List.mem_map.mp hw
    rintro ⟨⟩

omit [Uuids] in
theorem Erasing.extend {p : Row → Bool} {us : List (Write Key Row)} (h : Erasing p x log s)
    (hus : ∀ w ∈ us, ∀ a, w.target Row.key ≠ .attachment a) : Erasing p x log (s.extend x us) := by
  refine ⟨h.asked, h.only, h.read, fun a ha => ?_, fun w hw a hrow => ?_⟩
  · rw [← h.written a ha, Db.mine_extend_self]
    refine exists_congr fun w => and_congr_left fun hk => ?_
    rw [List.mem_append, or_iff_left]
    exact fun hw => hus w hw a.id hk
  · rw [Db.mine_extend_self, List.mem_append] at hw
    refine hw.elim (fun hw => h.removed w hw a hrow) fun hw => hus w hw a.id ?_
    cases w with
    | remove k => cases hrow
    | insert r => exact congrArg Row.key (Option.some.inj hrow)
    | update r => exact congrArg Row.key (Option.some.inj hrow)

omit [Uuids] in
theorem Erasing.ready {p : Row → Bool} (h : Erasing p x log s) :
    Ready isAttachment Filed FewerComments
      (Reported x) x log s := by
  intro s' _ hI' hr
  exact ⟨(h.steady hr.steady).lost, hI'.commit, fun y hy => fewerComments_commit hI' hy⟩

omit [DecidableEq ξ] [Uuids] in
theorem Filed.remove {ks : List Key} (h : Filed s) : Filed (s.extend x (ks.map .remove)) := by
  refine h.extend (fun w hw a => ?_) fun w hw c => ?_
  all_goals
    obtain ⟨k, -, rfl⟩ := List.mem_map.mp hw
    exact nofun

theorem deleteTicket_assured (tenantID id : GoString) (hmine : s.mine x = []) (hlog : keysRead log = []) :
    Assured isAttachment Filed FewerComments (Reported x) x
      (deleteTicket x tenantID id)
      (fun r l _ => Committed x (fun keys l => keys = keysRead l) r l) log s := by
  refine Assured.transact filed_robust (assured_cast fun T _ => assured_cast fun id _ => ?_)
  refine assured_collectKeys filed_robust fun s₁ _ _ h₁ => ?_
  have hmine₁ := h₁.steady.mine.trans hmine
  rw [view_of_mine_nil hmine₁]
  refine Secure.onward (Assured.deleteWhere filed_robust fun s₂ s₃ ws _ _ h₂ _ hI₃ h₃ hws => ?_)
  have hmine₃ : s₃.mine x = [] := h₃.steady.mine.trans (h₂.steady.mine.trans hmine₁)
  obtain hnil | ⟨r, hget, hp, hone⟩ := hits_of_key (s := s₃) (x := x) (p := tickets T id) fun _ =>
    key_of_tickets
  · rw [hnil] at hws
    subst hws
    refine ⟨hI₃.extend (fun _ hw => absurd hw List.not_mem_nil) fun _ hw => absurd hw List.not_mem_nil, ?_⟩
    rw [hnil]
    exact assured_affected fun h => absurd rfl h
  · have hdoomed : ws = (doomed s₃.rows (.ticket T id)).map .remove := by
      rw [hws, hone, removals_one, key_of_tickets hp, removal_ticket, view_of_mine_nil hmine₃]
    subst hdoomed
    refine ⟨hI₃.remove, assured_affected fun _ => ⟨Erasing.ready (p := attachmentsOfTicket T id) ?_, ?_⟩⟩
    · have hsame : (s₁.rows.rows.filter (attachmentsOfTicket T id)).Perm
          (s₃.rows.rows.filter (attachmentsOfTicket T id)) :=
        (perm_of_steady attachmentsOfTicket_only h₂.steady (by simp [reads, readOf])).trans
          (perm_of_steady (s := s₂.find x _) attachmentsOfTicket_only h₃.steady (by simp [reads, readOf]))
      refine erasing_of_removals (by simp [reads, readOf]) attachmentsOfTicket_only ?_ hmine₃ fun a ha => ?_
      · simp only [keysRead_append, hlog, keysRead_select, keysRead_aim, keysRead_delete,
          List.nil_append, List.append_nil]
        exact hsame.filterMap _
      · exact attachment_mem_doomed_ticket ha (hI₃.committed a ha)
    · simp only [keysRead_append, hlog, keysRead_select, keysRead_aim, keysRead_delete,
        List.nil_append, List.append_nil]

omit [Uuids] in
theorem removals_of_comment {s' : Db schema ξ} (hid : id ≠ []) (hmine : s.mine x = []) (hs : Sound s')
    (hr : Relies isAttachment FewerComments x log (s.find x (comments T id)) s') :
    ∃ ks : List Key, schema.removals (s'.view x) (s'.hits x (comments T id)) = ks.map .remove ∧
      ∀ a, .attachment a ∈ s'.rows.rows →
      (.attachment a.id ∈ ks ↔ attachmentsOfComment T id (.attachment a) = true) := by
  have hview : s.view x = s.rows := view_of_mine_nil hmine
  have hview' : s'.view x = s'.rows := view_of_mine_nil (hr.steady.mine.trans hmine)
  obtain hnil | ⟨r, -, hp, hone⟩ := hits_of_key (s := s') (x := x) (p := comments T id) fun _ =>
    key_of_comments
  · refine ⟨[], by rw [hnil]; rfl, fun a ha => iff_of_false List.not_mem_nil fun hof => ?_⟩
    simp only [attachmentsOfComment, Bool.and_eq_true, decide_eq_true_eq] at hof
    have hparent : Key.comment T id ∈ (Row.attachment a).parents := by
      simp [Row.parents, Row.cascades, hof, hid]
    obtain ⟨r, hget⟩ := Option.ne_none_iff_exists'.mp (hs.closed _ _ (get?_attachment ha) _ hparent)
    obtain ⟨hin, hkey⟩ := Table.get?_eq_some.mp hget
    cases r with
    | comment c =>
      have hc : comments T id (.comment c) = true := by
        obtain ⟨hT, hid⟩ := Key.comment.inj hkey
        simp [comments, hT, hid]
      have hold : .comment c ∈ (s.view x).rows := hview ▸ hr.others.rows c hin
      have hfound : (x, (Row.comment c).key) ∈ (s.find x (comments T id)).found :=
        List.mem_append_right _ (List.mem_map_of_mem (List.mem_filter.mpr ⟨hold, hc⟩))
      have hstill := hr.others.found c hin hfound
      have hhit : .comment c ∈ s'.hits x (comments T id) :=
        List.mem_filter.mpr ⟨hview' ▸ hin, by simp [hstill, hc]⟩
      rw [hnil] at hhit
      cases hhit
    | _ => cases hkey
  · refine ⟨doomed s'.rows (.comment T id), ?_, fun a ha => ?_⟩
    · rw [hone, removals_one, key_of_comments hp, removal_comment hid, hview']
    · rw [mem_doomed_comment hid]
      constructor
      · rintro (h | ⟨a', ha', hof, hkey⟩)
        · cases h
        · have hsame := (get?_attachment ha').symm.trans (hkey ▸ get?_attachment ha)
          rwa [← Option.some.inj hsame]
      · exact fun hof => .inr ⟨a, ha, hof, rfl⟩

theorem deleteComment_reports (tenantID id : GoString) (hmine : s.mine x = []) (hlog : keysRead log = []) :
    Assured isAttachment Filed FewerComments (Reported x) x
      (deleteComment x tenantID id)
      (fun r l _ => Committed x (fun keys l => keys = keysRead l) r l) log s := by
  refine Assured.transact filed_robust (assured_cast fun T _ => assured_cast fun id hid => ?_)
  have hidne := Uuids.ne_nil _ _ hid
  refine Secure.onward (Assured.select filed_robust fun s₁ _ _ h₁ => ?_)
  have hmine₁ : s₁.mine x = [] := h₁.steady.mine.trans hmine
  split
  · rename_i c _ _
    refine assured_collectKeys filed_robust fun s₂ _ _ h₂ => ?_
    have hmine₂ : s₂.mine x = [] := h₂.steady.mine.trans hmine₁
    rw [view_of_mine_nil hmine₂]
    refine Secure.onward (Assured.deleteWhere filed_robust fun s₃ s₄ ws _ _ h₃ hs₄ hI₄ h₄ hws => ?_)
    have hmine₃ : s₃.mine x = [] := h₃.steady.mine.trans hmine₂
    have hmine₄ : s₄.mine x = [] := h₄.steady.mine.trans hmine₃
    have hsame : (s₂.rows.rows.filter (attachmentsOfComment T id)).Perm
        (s₄.rows.rows.filter (attachmentsOfComment T id)) :=
      (perm_of_steady attachmentsOfComment_only h₃.steady (by simp [reads, readOf])).trans
        (perm_of_steady (s := s₃.find x _) attachmentsOfComment_only h₄.steady (by simp [reads, readOf]))
    obtain ⟨ks, hks, hmem⟩ := removals_of_comment hidne hmine₃ hs₄ h₄
    obtain rfl := hws.trans hks
    refine ⟨hI₄.remove, Secure.onward
      (Assured.updateWhere filed_robust fun s₅ s₆ us _ _ h₅ _ hI₆ h₆ hus => ?_)⟩
    have hupdates : ∀ w ∈ us, ∃ t, w = .update (.ticket t) := by
      intro w hw
      rw [hus] at hw
      obtain ⟨r, hr, rfl⟩ := List.mem_map.mp hw
      have hticket := (List.mem_filter.mp ((hits_sublist _ _ _).subset hr)).2
      cases r with
      | ticket t => exact ⟨_, rfl⟩
      | _ => cases hticket
    refine ⟨hI₆.extend (fun w hw a => ?_) fun w hw c => ?_, ?_, ?_⟩
    · obtain ⟨t, rfl⟩ := hupdates w hw
      rintro ⟨⟩
    · obtain ⟨t, rfl⟩ := hupdates w hw
      rintro ⟨⟩
    · refine Erasing.ready (p := attachmentsOfComment T id)
        (Erasing.onward (Erasing.extend ?_ ?_) keysRead_update)
      · refine Erasing.steady (Erasing.onward (Erasing.find (Erasing.steady ?_ h₅.steady))
          keysRead_aim) h₆.steady
        refine erasing_of_removals (by simp [reads, readOf]) attachmentsOfComment_only ?_ hmine₄ hmem
        simp only [keysRead_append, hlog, keysRead_select, keysRead_aim, keysRead_delete,
          keys_of_others comments_not_attachment, List.nil_append, List.append_nil]
        exact hsame.filterMap _
      · intro w hw a
        obtain ⟨t, rfl⟩ := hupdates w hw
        rintro ⟨⟩
    · simp only [keysRead_append, hlog, keysRead_select, keysRead_aim, keysRead_delete, keysRead_update,
        keys_of_others comments_not_attachment, List.nil_append, List.append_nil]
  · trivial

omit [Uuids] in
theorem lostKeys_of_puts (h : ∀ w ∈ s.mine x, w.row? ≠ none) : lostKeys s.rows (s.commit x).rows = [] := by
  rw [lostKeys, List.filter_eq_nil_iff.mpr]
  · rfl
  · intro r hr hgone
    simp only [Bool.and_eq_true, Option.isNone_iff_eq_none] at hgone
    exact get?_writeAll_of_puts h (by simp [Table.get?_eq_some.mpr ⟨hr, rfl⟩]) hgone.2

def Checked (T : GoString) (a : Attachment) (s : Db schema ξ) : Prop :=
  ∀ cid tid, a.commentID ≠ [] → Uuids.parse a.commentID = some cid → Uuids.parse a.ticketID = some tid →
    ∀ c, .comment c ∈ s.rows.rows → (Row.comment c).key = .comment T cid → c.ticketID = tid

theorem createAttachment_assured (now : Time) (a : Attachment) (hmine : s.mine x = [])
    (hlog : keysRead log = []) :
    Assured isAttachment Filed FewerComments (Reported x) x
      (createAttachment x now a) (fun r l _ => Committed x (fun _ l => keysRead l = []) r l) log s := by
  refine Assured.transact filed_robust (assured_cast fun T _ => ?_)
  have hinsert : ∀ l s₁, s₁.mine x = [] → keysRead l = [] → Checked T a s₁ →
      Assured isAttachment Filed FewerComments (Reported x) x
        (cast a.id >>= fun id => cast a.ticketID >>= fun ticketID => castNull a.commentID >>=
          fun commentID =>
          insertInto mapWriteErr x [.attachment (attachmentRow now a T id ticketID commentID)] false).run
        (Succeeds fun _ l s' => Ready isAttachment Filed FewerComments
          (Reported x) x l s' ∧ keysRead l = []) l s₁ := by
    intro l s₁ hmine₁ hl hchecked
    refine assured_cast fun id _ => assured_cast fun tid htid => assured_castNull fun cid hnil hcid => ?_
    refine Assured.insertInto filed_robust fun s₂ new _ hI₂ h₂ hnew => ?_
    obtain rfl := insertable_one hnew
    have hkeys : keysRead (l ++
        [⟨⟨x, .insert [.attachment (attachmentRow now a T id tid cid)] false⟩, .ok ()⟩]) = [] := by
      rw [keysRead_append, hl]
      rfl
    refine ⟨hI₂.extend (fun w hw a' hrow => ?_) fun w hw c hrow => ?_, fun s₃ _ hI₃ h₃ => ⟨?_, ?_⟩, hkeys⟩
    · obtain rfl := List.mem_singleton.mp hw
      obtain rfl := Row.attachment.inj (Option.some.inj hrow)
      intro c hc hkey
      have hcomment : a.commentID ≠ [] ∧ (Row.comment c).key = .comment T cid := by
        by_cases hempty : cid = []
        · simp [Row.cascades, attachmentRow, Row.key, hempty] at hkey
        · refine ⟨fun h => hempty (hnil h), ?_⟩
          simpa [Row.cascades, attachmentRow, Row.key, hempty] using hkey
      exact hchecked cid tid hcomment.1 (hcid hcomment.1) htid c (h₂.others.rows c hc) hcomment.2
    · obtain rfl := List.mem_singleton.mp hw
      cases hrow
    · rw [Reported, hkeys, lostKeys_of_puts]
      intro w hw
      rw [h₃.steady.mine, Db.mine_extend_self, h₂.steady.mine, hmine₁] at hw
      obtain rfl := List.mem_singleton.mp hw
      rintro ⟨⟩
    · exact ⟨hI₃.commit, fun y hy => fewerComments_commit hI₃ hy⟩
  dsimp only
  split_ifs with hcomment
  · refine assured_cast fun cid hcid => assured_cast fun tid htid => assured_count filed_robust
      fun s₁ _ _ h₁ => ?_
    refine assured_affected fun hn => hinsert _ _ (h₁.steady.mine.trans hmine) ?_ ?_
    · rw [keysRead_append, hlog, keysRead_select, keys_of_others fun r hr => ?_]
      · rfl
      · cases r with
        | comment c => rfl
        | _ => cases hr
    · intro cid' tid' _ hcid' htid' c hc hkey
      obtain rfl := Option.some.inj (hcid.symm.trans hcid')
      obtain rfl := Option.some.inj (htid.symm.trans htid')
      obtain ⟨r, hr⟩ := List.exists_mem_of_length_pos (Nat.pos_of_ne_zero hn)
      obtain ⟨hr, hp⟩ := List.mem_filter.mp hr
      rw [view_of_mine_nil (h₁.steady.mine.trans hmine)] at hr
      cases r with
      | comment c₀ =>
        simp only [commentsOf, Bool.and_eq_true, decide_eq_true_eq] at hp
        have hkey₀ : (Row.comment c₀).key = .comment T cid := by simp [Row.key, hp]
        have hsame := (Table.get?_eq_some.mpr ⟨hr, hkey₀⟩).symm.trans (Table.get?_eq_some.mpr ⟨hc, hkey⟩)
        rw [← Row.comment.inj (Option.some.inj hsame)]
        exact hp.2
      | _ => cases hp
  · exact hinsert _ _ hmine hlog fun _ _ h => absurd h hcomment

theorem AttachmentTask.assured (task : AttachmentTask) (hmine : s.mine x = []) (hlog : keysRead log = []) :
    Assured isAttachment Filed FewerComments (Reported x) x (task.program x)
      (fun r l _ => Committed x (fun keys l => keys = keysRead l) r l) log s := by
  cases task with
  | deleteTicket tenantID id => exact deleteTicket_assured tenantID id hmine hlog
  | deleteComment tenantID id => exact deleteComment_reports tenantID id hmine hlog
  | createAttachment now a =>
    refine Secure.bind ((createAttachment_assured now a hmine hlog).mono fun r l s' hr => ?_)
    cases r with
    | error e => trivial
    | ok u =>
      obtain ⟨l', rfl, hl'⟩ := hr
      exact ⟨l', rfl, hl'.symm⟩

/-- Where no commit writes an attachment that another open transaction has looked for, the keys a
transaction returns are those of the attachments that the step it returns in, its commit, takes
away. -/
theorem deletes_report_every_key (tasks : ξ → AttachmentTask) {t₀ : Table Key Row Row.key}
    (hvalid : Valid t₀) (hagrees : ∀ a, .attachment a ∈ t₀.rows → Agrees t₀ a)
    {cfg : Config ξ (Call schema ξ) Call.Answer (Except RepoErr (List GoString)) (Db schema ξ)}
    (h : Reaches step (Unstale isAttachment) (Config.start ⟨t₀, [], []⟩ fun i =>
    (tasks i).program i) cfg) {i : ξ}
    {fails : Bool} {keys : List GoString} (hopen : (cfg.threads i).prog.pending.isSome)
    (hret : ((cfg.next step i fails).threads i).prog = .ret (.ok keys)) :
    keys.Perm (lostKeys cfg.state.rows (cfg.next step i fails).state.rows) := by
  have hstart : Filed (⟨t₀, [], []⟩ : Db schema ξ) :=
    ⟨hagrees, fun _ _ hw => absurd hw List.not_mem_nil, fun _ _ hw => absurd hw List.not_mem_nil⟩
  obtain ⟨⟨hs, hI⟩, hall⟩ :=
    assured_everywhere isAttachment filed_robust h (sound_of_closed hvalid.closed) hstart
      fun i => (tasks i).assured rfl rfl
  have hassured := hall i
  unfold Config.next at hret ⊢
  cases hprog : (cfg.threads i).prog with
  | ret r =>
    rw [hprog] at hopen
    cases hopen
  | call e k =>
    rw [hprog] at hassured hret
    have hnow : k (step fails e cfg.state).1 = .ret (.ok keys) := by simpa [Config.answered] using hret
    obtain ⟨hstate, hreported, rfl⟩ := hassured.returning filed_robust hs hI hnow
    change (keysRead _).Perm (lostKeys cfg.state.rows (step fails e cfg.state).2.rows)
    rw [hstate]
    exact hreported

end Runs

def photo : Attachment :=
  { id := uuid 0x61, tenantID := tenantUuid, ticketID := ticketUuid, filename := "photo.png",
    storageKey := attachmentKey tenantUuid ticketUuid (uuid 0x61) }

def attachmentRace : Bool → AttachmentTask
  | true => .deleteTicket tenantUuid ticketUuid
  | false => .createAttachment 1 photo

def ticketOnly : Table Key Row Row.key :=
  ⟨[.ticket { id := ticketUuid, tenantID := tenantUuid, subject := "printer" }], by decide⟩

abbrev attachmentStart :
    Config Bool (Call schema Bool) Call.Answer (Except RepoErr (List GoString)) (Db schema Bool) :=
  letI := hyphenated
  Config.start ⟨ticketOnly, [], []⟩ fun i => (attachmentRace i).program i

def attachmentRun (picks : List (Bool × Bool)) :
    Config Bool (Call schema Bool) Call.Answer (Except RepoErr (List GoString)) (Db schema Bool) :=
  attachmentStart.schedule step picks

def afterRead : List (Bool × Bool) :=
  [(true, false), (false, false), (false, false), (true, false), (true, false)]

/-- The deletion reports no key, and its commit takes the attachment away. -/
theorem cascaded_key_unreported :
    ((attachmentRun (afterRead ++ [(true, false)])).threads true).prog.result? = some (.ok []) ∧
      lostKeys (attachmentRun afterRead).state.rows
        (attachmentRun (afterRead ++ [(true, false)])).state.rows =
        [photo.storageKey] := by
  exact ⟨by decide +kernel, by decide +kernel⟩

def beforeRead : List (Bool × Bool) :=
  [(false, false), (false, false), (true, false), (true, false), (true, false)]

theorem deletes_report_every_key_read :
    ((attachmentRun (beforeRead ++ [(true, false)])).threads true).prog.result? =
    some (.ok [photo.storageKey]) ∧
      List.Perm [photo.storageKey] (lostKeys (attachmentRun beforeRead).state.rows
        ((attachmentRun beforeRead).next step true false).state.rows) := by
  have hvalid : Valid ticketOnly := by
    refine ⟨fun k r hr => ?_, by decide⟩
    obtain ⟨hmem, -⟩ := Table.get?_eq_some.mp hr
    obtain rfl := List.mem_singleton.mp hmem
    exact nofun
  have hagrees : ∀ a, .attachment a ∈ ticketOnly.rows → Agrees ticketOnly a := by
    intro a ha
    cases List.mem_singleton.mp ha
  have hrun : Reaches step (Unstale isAttachment) attachmentStart (attachmentRun beforeRead) := by
    refine Reaches.refl.schedule _ ⟨?_, ?_, ?_, ?_, ?_, trivial⟩ <;> unfold Unstale <;> decide +kernel
  have hdone : (((attachmentRun beforeRead).next step true false).threads true).prog.result? =
      some (.ok [photo.storageKey]) := by
    decide +kernel
  refine ⟨by decide +kernel, ?_⟩
  exact @deletes_report_every_key Bool _ hyphenated attachmentRace ticketOnly hvalid hagrees
    _ hrun true false _
    (by decide +kernel) (Prog.eq_ret_of_result? hdone)

end TangraTicket.Database
