import TangraTicket.Database.Rules

/-!
Unforced deletions of mailboxes beside the creation of tickets. Between the count of a mailbox's
tickets and its deletion another transaction can commit a ticket for it, which the deletion then
detaches.
-/

namespace TangraTicket.Database

open GoText Store KeyedTable CallProgram ReadCommitted

variable {ξ : Type} [DecidableEq ξ]

inductive MailboxTask
  | createTicket (now : Time) (t : Ticket)
  | deleteMailbox (tenantID id : GoString)

def MailboxTask.program [Uuids] (x : ξ) : MailboxTask → Transaction ξ Unit
  | .createTicket now t => Database.createTicket x now t
  | .deleteMailbox tenantID id => Database.deleteMailbox x tenantID id false

def isTicket : Row → Bool
  | .ticket _ => true
  | _ => false

def TicketsUnwritten (s : Db schema ξ) : Prop :=
  ∀ y w t, (y, w) ∈ s.pending → s.rows.get? (w.target Row.key) ≠ some (.ticket t)

def TicketsStay (_ : ξ) (s s' : Db schema ξ) : Prop :=
  ∀ t, .ticket t ∈ s.rows.rows → .ticket t ∈ s'.rows.rows

theorem ticketsStay_commit {s : Db schema ξ} (h : TicketsUnwritten s) (x y : ξ) :
    TicketsStay y s (s.commit x) := by
  intro t ht
  have hget : s.rows.get? (Row.ticket t).key = some (.ticket t) := Table.get?_eq_some.mpr ⟨ht, rfl⟩
  refine (Table.get?_eq_some.mp (?_ : (s.view x).get? (Row.ticket t).key = some (.ticket t))).1
  rw [Db.view, get?_writeAll_of_untouched, hget]
  intro w hw hk
  exact h x w t (Db.mem_mine.mp hw) (hk.symm ▸ hget)

theorem ticketsStay_moves {s s' : Db schema ξ} {x : ξ} {may : Prop} (h : TicketsUnwritten s)
    (hm : Moves x may s s') :
    TicketsStay x s s' := by
  cases hm with
  | commit _ => exact ticketsStay_commit h x x
  | _ => exact fun _ ht => ht

theorem ticketsUnwritten_commit {s : Db schema ξ} (hs : Sound s) (h : TicketsUnwritten s) (x : ξ) :
    TicketsUnwritten (s.commit x) := by
  intro y w t hw
  obtain ⟨hw, hy⟩ := mem_pending_drop.mp hw
  have hsame := hs.untouched hy (Db.mem_mine.mpr hw)
  exact hsame ▸ h y w t hw

theorem tickets_robust : Robust (ξ := ξ) TicketsUnwritten TicketsStay where
  idle y s s' hrows _ t ht := hrows ▸ ht
  trans y s s' s'' h h' t ht := h' t (h t ht)
  found s s' hrows hpending h := by
    intro y w t hw
    rw [hrows]
    exact h y w t (hpending ▸ hw)
  abort s x h y w t hw := h y w t (mem_pending_drop.mp hw).1

omit [DecidableEq ξ] in
theorem ticketsUnwritten_extend {s : Db schema ξ} {x : ξ} {ws : List (Write Key Row)}
    (h : TicketsUnwritten s) (hws : ∀ w ∈ ws, ∀ t, s.rows.get? (w.target Row.key) ≠
      some (.ticket t)) : TicketsUnwritten (s.extend x ws) := by
  intro y w t hw
  rcases List.mem_append.mp hw with hw | hw
  · exact h y w t hw
  · obtain ⟨w', hw', he⟩ := List.mem_map.mp hw
    obtain ⟨-, rfl⟩ := Prod.mk.inj he
    exact hws w' hw' t

section Runs

variable [Uuids]

/-- `r` is the row that `CreateTicket` of `t` inserts. -/
structure InsertedAs (now : Time) (t r : Ticket) : Prop where
  row : ∃ T id mailboxID, r = ticketRow now t T id mailboxID ∧ Uuids.parse t.tenantID = some T ∧
    Uuids.parse t.id = some id
  unset : t.mailboxID = [] → r.mailboxID = []
  mailbox : t.mailboxID ≠ [] → Uuids.parse t.mailboxID = some r.mailboxID

def MailboxTask.Commits (task : MailboxTask) (ws : List (Write Key Row)) : Prop :=
  ∀ now t, task = .createTicket now t → ∃ r, InsertedAs now t r ∧ ws = [.insert (.ticket r)]

variable {task : MailboxTask} {x : ξ} {log : Log schema ξ} {s : Db schema ξ}

theorem tickets_ready (h : task.Commits (s.mine x)) :
    Ready isTicket TicketsUnwritten TicketsStay (fun _ s => task.Commits (s.mine x)) x log s := by
  intro s' hs' hI' hr
  have hcommits : task.Commits (s'.mine x) := hr.steady.mine.symm ▸ h
  exact ⟨hcommits, ticketsUnwritten_commit hs' hI' x, fun y _ => ticketsStay_commit hI' x y⟩

theorem createTicket_assured (now : Time) (t : Ticket) (hmine : s.mine x = []) :
    Assured isTicket TicketsUnwritten TicketsStay
      (fun _ s => (MailboxTask.createTicket now t).Commits (s.mine x)) x
        (createTicket x now t) (fun r l _ => Committed x (fun _ _ => True) r l) log s := by
  refine Assured.transact tickets_robust ?_
  refine assured_cast fun T hT => assured_cast fun id hid => assured_castNull
    fun mailboxID hunset hmailbox => ?_
  refine Assured.insertInto tickets_robust fun s' new _ hI' hr hnew => ?_
  have hmine' := hr.steady.mine.trans hmine
  obtain rfl := insertable_one hnew
  refine ⟨ticketsUnwritten_extend hI' fun w hw t' => ?_, tickets_ready ?_, trivial⟩
  · obtain rfl := List.mem_singleton.mp hw
    have hnone := get?_of_insertable hnew _ (List.mem_singleton_self _)
    rw [view_of_mine_nil hmine'] at hnone
    exact hnone ▸ nofun
  · rintro _ _ ⟨⟩
    refine ⟨ticketRow now t T id mailboxID, ⟨⟨T, id, mailboxID, rfl, hT, hid⟩, hunset, hmailbox⟩, ?_⟩
    rw [Db.mine_extend_self, hmine']
    rfl

theorem deleteMailbox_assured (tenantID id : GoString) (hmine : s.mine x = []) :
    Assured isTicket TicketsUnwritten TicketsStay
      (fun _ s => (MailboxTask.deleteMailbox tenantID id).Commits (s.mine x)) x
      (deleteMailbox x tenantID id false)
      (fun r l _ => Committed x (fun _ _ => True) r l) log s := by
  refine Assured.transact tickets_robust ?_
  refine assured_cast fun T _ => assured_cast fun id _ => assured_count tickets_robust fun s₁ _ _ h₁ => ?_
  have hmine₁ := h₁.steady.mine.trans hmine
  split_ifs
  · trivial
  · refine assured_count tickets_robust fun s₂ _ _ h₂ => ?_
    have hmine₂ := h₂.steady.mine.trans hmine₁
    rw [view_of_mine_nil hmine₂]
    split_ifs with hrefs
    · trivial
    · refine Secure.onward (Assured.deleteWhere tickets_robust fun s₃ s₄ ws _ _ h₃ _ hI₄ h₄ hws => ⟨?_, ?_⟩)
      · -- the mailbox has no ticket in `s₂`, and none is committed for it before the deletion
        have hnone : ∀ r ∈ s₄.rows.rows, ticketsOfMailbox T id r = false := by
          intro r hr
          rw [Bool.eq_false_iff]
          intro hp
          have hq : isTicket r = true := by
            cases r with
            | ticket t => rfl
            | _ => cases hp
          have hr₃ := (h₄.steady.seen (ticketsOfMailbox T id) (by simp [reads, readOf]) r hq hp).mp hr
          have hr₂ := (h₃.steady.seen (ticketsOfMailbox T id) (by simp [reads, readOf]) r hq hp).mp hr₃
          have hpos := List.length_pos_of_mem (List.mem_filter.mpr ⟨hr₂, hp⟩)
          simp [hpos] at hrefs
        have hview : s₄.view x = s₄.rows :=
          view_of_mine_nil (h₄.steady.mine.trans (h₃.steady.mine.trans hmine₂))
        refine ticketsUnwritten_extend hI₄ fun w hw t => ?_
        rw [hws, hview] at hw
        obtain hnil | ⟨r, -, hp, hone⟩ := hits_of_key (s := s₄) (x := x) (p := mailboxes T id)
          fun _ => key_of_mailboxes
        · rw [hnil] at hw
          cases hw
        · rw [hone, removals_one, key_of_mailboxes hp, removal_mailbox hnone] at hw
          obtain rfl := List.mem_singleton.mp hw
          intro ht
          cases (Table.get?_eq_some.mp ht).2
      · unfold affected
        split_ifs
        · trivial
        · exact ⟨tickets_ready (by rintro _ _ ⟨⟩), trivial⟩

theorem MailboxTask.assured (task : MailboxTask) (hmine : s.mine x = []) :
    Assured isTicket TicketsUnwritten TicketsStay (fun _ s => task.Commits (s.mine x)) x (task.program x)
      (fun r l _ => Committed x (fun _ _ => True) r l) log s := by
  cases task with
  | createTicket now t => exact createTicket_assured now t hmine
  | deleteMailbox tenantID id => exact deleteMailbox_assured tenantID id hmine

omit [DecidableEq ξ] in
theorem MailboxTask.program_ne_ret (task : MailboxTask) {r : Except RepoErr Unit} :
    task.program x ≠ .ret r := by
  cases task <;> exact transact_ne_ret _ _ _ _

/-- Where no commit writes a ticket that another open transaction has looked for, every ticket stays
as it was committed, and as `CreateTicket` inserted it, and its mailbox stays with it. -/
theorem unforced_delete_detaches_none (tasks : ξ → MailboxTask) {t₀ : Table Key Row Row.key}
    {cfg : Config ξ (Call schema ξ) Call.Answer (Except RepoErr Unit) (Db schema ξ)}
    (hclosed : Closed Row.parents t₀)
    (h : Reaches step (Unstale isTicket) (Config.start ⟨t₀, [], []⟩ fun i =>
    (tasks i).program i) cfg) :
    (∀ t, .ticket t ∈ t₀.rows → .ticket t ∈ cfg.state.rows.rows) ∧
      (∀ i now t, tasks i = .createTicket now t → (cfg.threads i).prog = .ret (.ok ()) →
        ∃ r, InsertedAs now t r ∧ .ticket r ∈ cfg.state.rows.rows) ∧
      ∀ t, .ticket t ∈ cfg.state.rows.rows → t.mailboxID ≠ [] →
        cfg.state.rows.get? (.mailbox t.tenantID t.mailboxID) ≠ none := by
  have hstart : TicketsUnwritten (⟨t₀, [], []⟩ : Db schema ξ) := fun _ _ _ hw => absurd hw List.not_mem_nil
  have hsound : Sound (⟨t₀, [], []⟩ : Db schema ξ) := sound_of_closed hclosed
  have hassured : ∀ i, Assured isTicket TicketsUnwritten TicketsStay
      (fun _ s => (tasks i).Commits (s.mine i)) i
      ((tasks i).program i) (fun r l _ => Committed i (fun _ _ => True) r l) []
      (⟨t₀, [], []⟩ : Db schema ξ) :=
    fun i => (tasks i).assured rfl
  refine ⟨?_, ?_, ?_⟩
  · intro t ht
    induction h with
    | refl => exact ht
    | @next cfg i c h hc ih =>
      have hunwritten := (assured_everywhere isTicket tickets_robust h hsound hstart hassured).1.2
      unfold Config.next
      cases hp : (cfg.threads i).prog with
      | ret a => exact ih
      | call e k => exact ticketsStay_moves hunwritten (step_moves c e cfg.state) t ih
  · intro i now t htask hret
    refine holds_of_returned (P := fun i _ rows => ∀ now t, tasks i = .createTicket now t →
      ∃ r, InsertedAs now t r ∧
      .ticket r ∈ rows.rows) tickets_robust h hsound hstart hassured ?_ ?_ ?_ hret now t htask
    · exact fun i r => (tasks i).program_ne_ret
    · intro i _ _ s _ _ hcommits _ now t htask
      obtain ⟨r, hr, hmine⟩ := hcommits now t htask
      refine ⟨r, hr, ?_⟩
      change Row.ticket r ∈ (s.view i).rows
      rw [Db.view, hmine]
      exact Table.mem_put.mpr (.inl rfl)
    · intro i _ j _ s _ hI _ h now t htask
      obtain ⟨r, hr, hmem⟩ := h now t htask
      exact ⟨r, hr, ticketsStay_commit hI j j r hmem⟩
  · intro t ht hmailbox
    have hclosed' := (assured_everywhere isTicket tickets_robust h hsound hstart hassured).1.1.closed
    refine hclosed' _ (.ticket t) (Table.get?_eq_some.mpr ⟨ht, rfl⟩) _ ?_
    change Key.mailbox t.tenantID t.mailboxID ∈ Row.parents (.ticket t)
    simp [Row.parents, Row.cascades, Row.detaches, hmailbox]

end Runs

def supportBox : Mailbox := { id := uuid 0x33, tenantID := tenantUuid, address := "support@example.org" }

def boxTicket : Ticket :=
  { id := ticketUuid, tenantID := tenantUuid, subject := "printer", mailboxID := uuid 0x33 }

def mailboxRace : Bool → MailboxTask
  | true => .deleteMailbox tenantUuid (uuid 0x33)
  | false => .createTicket 1 boxTicket

def boxOnly : Table Key Row Row.key := ⟨[.mailbox supportBox], by decide⟩

abbrev mailboxStart : Config Bool (Call schema Bool) Call.Answer (Except RepoErr Unit) (Db schema Bool) :=
  letI := hyphenated
  Config.start ⟨boxOnly, [], []⟩ fun i => (mailboxRace i).program i

def mailboxRun (picks : List (Bool × Bool)) :
    Config Bool (Call schema Bool) Call.Answer (Except RepoErr Unit) (Db schema Bool) :=
  mailboxStart.schedule step picks

def afterCount : List (Bool × Bool) :=
  [(true, false), (true, false), (false, false), (false, false), (true, false), (true, false),
    (true, false)]

/-- Both calls succeed, and the ticket has lost its mailbox. -/
theorem deletion_detaches_ticket :
    (∀ i, ((mailboxRun afterCount).threads i).prog.result? = some (.ok ())) ∧
      (mailboxRun afterCount).state.rows.rows =
      [.ticket (ticketRow 1 boxTicket tenantUuid ticketUuid [])] := by
  exact ⟨by decide +kernel, by decide +kernel⟩

def beforeCount : List (Bool × Bool) :=
  [(true, false), (false, false), (false, false), (true, false), (true, false)]

theorem unforced_delete_detaches_none_refused :
    ((mailboxRun beforeCount).threads true).prog.result? = some (.error .notEmpty) ∧
      ∃ r, @InsertedAs hyphenated 1 boxTicket r ∧ .ticket r ∈ (mailboxRun beforeCount).state.rows.rows := by
  have hclosed : Closed Row.parents boxOnly := by
    intro k r hr
    obtain ⟨hmem, -⟩ := Table.get?_eq_some.mp hr
    obtain rfl := List.mem_singleton.mp hmem
    exact nofun
  have hrun : Reaches step (Unstale isTicket) mailboxStart (mailboxRun beforeCount) := by
    refine Reaches.refl.schedule _ ⟨?_, ?_, ?_, ?_, ?_, trivial⟩ <;> unfold Unstale <;> decide +kernel
  have hdone : ((mailboxRun beforeCount).threads false).prog.result? = some (.ok ()) := by decide +kernel
  refine ⟨by decide +kernel, ?_⟩
  have hkept := @unforced_delete_detaches_none Bool _ hyphenated mailboxRace _ _ hclosed hrun
  exact hkept.2.1 false 1 boxTicket rfl (Prog.eq_ret_of_result? hdone)

end TangraTicket.Database
