import Mathlib.Data.Fintype.Basic
import TangraTicket.Library.Interleaving
import TangraTicket.Services.Custody
import TangraTicket.Services.Scope

/-!
Deliveries of inbound mail side by side. The duplicate check, the thread resolution and the insert
are separate store calls, and the store keeps a message id unique among the tickets and among the
comments of a tenant, not across the two: an id is recorded once as long as nobody records it
between the check of a delivery and its insert.
-/

namespace TangraTicket.Services

open GoText Store KeyedTable CallProgram

def ticketIDs (m : Mem) : List (GoString × GoString) :=
  m.tickets.rows.map fun t => (t.tenantID, t.externalID)

def commentIDs (m : Mem) : List (GoString × GoString) :=
  m.comments.rows.map fun c => (c.tenantID, c.messageID)

-- as the external id of a ticket, or as the message id of a comment
def recordings (m : Mem) (tenantID msgID : GoString) : ℕ :=
  (ticketIDs m).count (tenantID, msgID) + (commentIDs m).count (tenantID, msgID)

theorem SameCores.ticketIDs {m m' : Mem} (h : SameCores m m') : ticketIDs m' = ticketIDs m := by
  have hpairs := congrArg (List.map fun t => (t.tenantID, t.externalID)) h.1
  rwa [List.map_map, List.map_map] at hpairs

inductive IDStep (m m' : Mem) : Call → Prop
  | same {e : Call} (htickets : ticketIDs m' = ticketIDs m)
      (hcomments : commentIDs m' = commentIDs m) : IDStep m m' e
  | ticket (t : Ticket) (hnew : t.externalID ≠ [] → (t.tenantID, t.externalID) ∉ ticketIDs m)
      (htickets : ticketIDs m' = ticketIDs m ++ [(t.tenantID, t.externalID)])
      (hcomments : commentIDs m' = commentIDs m) : IDStep m m' (.store (.createTicket t))
  | comment (c : Comment) (hnew : c.messageID ≠ [] → (c.tenantID, c.messageID) ∉ commentIDs m)
      (htickets : ticketIDs m' = ticketIDs m)
      (hcomments : commentIDs m' = commentIDs m ++ [(c.tenantID, c.messageID)]) :
      IDStep m m' (.store (.createComment c))

theorem idStep_modifyTicket (m : Mem) (ten id : GoString) {f : Ticket → Ticket}
    (hf : ∀ t, (f t).id = t.id ∧ (f t).tenantID = t.tenantID ∧ (f t).externalID = t.externalID) (e : Call) :
    IDStep m (m.modifyTicket ten id f).2 e := by
  obtain ⟨e, he⟩ | ⟨t, ht, -, -, heq⟩ := modifyTicket_cases m ten id f
  · rw [he]
    exact .same rfl rfl
  · rw [heq]
    obtain ⟨hid, hten, hext⟩ := hf t
    exact .same (Table.map_put_old ht hid _ (by simp [hten, hext])) rfl

theorem idStep_createTicket (now : Time) (m : Mem) (t : Ticket) :
    IDStep m (m.createTicket now t).2 (.store (.createTicket t)) := by
  obtain ⟨e, he⟩ | ⟨hid, hext, heq⟩ := createTicket_cases now m t
  · rw [he]
    exact .same rfl rfl
  · have hrows : (m.tickets.put (Mem.withDefaults now t)).rows = m.tickets.rows ++
        [Mem.withDefaults now t] :=
      Table.put_rows_new hid
    have hids : ticketIDs (m.createTicket now t).2 = ticketIDs m ++ [(t.tenantID, t.externalID)] := by
      simp only [heq, ticketIDs, hrows, List.map_append]
      rfl
    refine .ticket t (fun hne hmem => ?_) hids (by rw [heq]; rfl)
    obtain ⟨x, hx, hpair⟩ := List.mem_map.mp hmem
    obtain ⟨hten, hxext⟩ := Prod.mk.inj hpair
    exact hext hne x hx hten hxext

theorem idStep_createComment (now : Time) (m : Mem) (c : Comment) :
    IDStep m (m.createComment now c).2 (.store (.createComment c)) := by
  have htickets := (createComment_sameCores now m c).ticketIDs
  obtain ⟨e, he⟩ | ⟨t, ht, -, -, hid, hmsg, heq⟩ := createComment_cases now m c
  · rw [he]
    exact .same rfl rfl
  · have hrows : (m.comments.put (Mem.withCommentDefaults now c)).rows =
        m.comments.rows ++ [Mem.withCommentDefaults now c] := Table.put_rows_new hid
    have hids : commentIDs (m.createComment now c).2 = commentIDs m ++ [(c.tenantID, c.messageID)] := by
      simp only [heq, commentIDs, hrows, List.map_append]
      rfl
    refine .comment c (fun hne hmem => ?_) htickets hids
    obtain ⟨x, hx, hpair⟩ := List.mem_map.mp hmem
    obtain ⟨hten, hxmsg⟩ := Prod.mk.inj hpair
    exact hmsg hne x hx hten hxmsg

theorem commentIDs_setCommentDelivery (m : Mem) (ten id : GoString) (d : Delivery) :
    commentIDs (m.setCommentDelivery ten id d).2 = commentIDs m := by
  unfold Mem.setCommentDelivery
  cases hc : m.comment ten id with
  | error e => rfl
  | ok c => refine Table.map_put_old (comment_ok hc).1 ?_ _ ?_ <;> rfl

variable {T : GoString} {F : GoString → Prop}

theorem commentIDs_quiet [GoLibrary] {q : StoreCall} (now : Time) (id : GoString) (m : Mem)
    (hq : Quiet T F (.store q)) (hc : ∀ c, q ≠ .createComment c) :
    commentIDs (performStore now id m q).2 = commentIDs m := by
  cases q with
  | createComment c => exact absurd rfl (hc c)
  | setCommentDelivery ten i dl => exact commentIDs_setCommentDelivery m ten i dl
  | findTicketByExternalID | findCommentByMessageID | routeMailbox | createAttachment | addTicketTags =>
    simp only [performStore, Mem.findTicketByExternalID, Mem.findCommentByMessageID, Mem.routeMailbox,
      Mem.createAttachment, Mem.addTicketTags]
    repeat' split
    all_goals rfl
  | ensureTagByName ten k n =>
    simp only [performStore, Mem.ensureTagByName, Mem.createTag]
    repeat' split
    all_goals rfl
  | getTicket | getComment | listAttachments | tagsForTickets | listEnabledRules | getMailbox
  | listMailboxes => rfl
  | _ => exact hq.elim

theorem scoped_idStep [GoLibrary] {e : Call} (he : Scoped T F e) (c : Choice) (w : World) :
    IDStep w.mem (step c e w).2.mem e := by
  refine mem_step (J := fun m => IDStep w.mem m e) (.same rfl rfl) ?_
  rintro q rfl -
  by_cases hn : q.neutral
  · by_cases hc : ∃ x, q = .createComment x
    · obtain ⟨x, rfl⟩ := hc
      exact idStep_createComment c.now w.mem x
    · exact .same (neutral_sameCores _ _ _ hn).ticketIDs
        (commentIDs_quiet _ _ _ (he.quiet hn) fun x hx => hc ⟨x, hx⟩)
  · cases q with
    | createTicket t => exact idStep_createTicket c.now w.mem t
    | updateTicket | setAssignee | setStatus =>
      refine idStep_modifyTicket _ _ _ (fun t => ?_) _
      exact ⟨rfl, rfl, rfl⟩
    | appendHistory h =>
      simp only [performStore, Mem.appendHistory]
      split <;> exact .same rfl rfl
    | deleteTicket => exact he.elim
    | _ => exact absurd rfl hn

def AtMostOnce (m : Mem) : Prop := ∀ T msgID, msgID ≠ [] → recordings m T msgID ≤ 1

def Unmet (m : Mem) : Call → Prop
  | .store (.createTicket t) => t.externalID ≠ [] → (t.tenantID, t.externalID) ∉ commentIDs m
  | .store (.createComment c) =>
    m.comments.get? c.id = none ∧ (c.messageID ≠ [] → (c.tenantID, c.messageID) ∉ ticketIDs m)
  | _ => True

instance : LawfulBEq (GoString × GoString) := Prod.instLawfulBEq

theorem IDStep.recordings_le {m m' : Mem} {e : Call} (h : IDStep m m' e) (msgID : GoString) :
    recordings m T msgID ≤ recordings m' T msgID := by
  unfold recordings
  cases h with
  | same ht hc => rw [ht, hc]
  | ticket t _ ht hc =>
    rw [ht, hc, List.count_append]
    omega
  | comment c _ ht hc =>
    rw [ht, hc, List.count_append]
    omega

theorem IDStep.atMostOnce {m m' : Mem} {e : Call} (h : IDStep m m' e) (hm : AtMostOnce m) (he : Unmet m e) :
    AtMostOnce m' := by
  intro T msgID hne
  have hle := hm T msgID hne
  unfold recordings at hle ⊢
  cases h with
  | same ht hc => rwa [ht, hc]
  | ticket t hnew ht hc =>
    rw [ht, hc, List.count_append]
    by_cases heq : (t.tenantID, t.externalID) = (T, msgID)
    · obtain ⟨rfl, rfl⟩ := Prod.mk.inj heq
      simp [List.count_eq_zero_of_not_mem (hnew hne), List.count_eq_zero_of_not_mem (he hne)]
    · simpa [heq] using hle
  | comment c hnew ht hc =>
    rw [ht, hc, List.count_append]
    by_cases heq : (c.tenantID, c.messageID) = (T, msgID)
    · obtain ⟨rfl, rfl⟩ := Prod.mk.inj heq
      simp [List.count_eq_zero_of_not_mem (hnew hne), List.count_eq_zero_of_not_mem (he.2 hne)]
    · simpa [heq] using hle

def Shows (T msgID : GoString) : (e : Call) → Answer e → Prop
  | .store (.createTicket t), .ok _ => (t.tenantID, t.externalID) = (T, msgID)
  | .store (.createComment c), .ok _ => (c.tenantID, c.messageID) = (T, msgID)
  | .store (.createComment c), .error .conflict => (c.tenantID, c.messageID) = (T, msgID)
  | .store (.findTicketByExternalID ten id), .ok _ => (ten, id) = (T, msgID)
  | .store (.findCommentByMessageID ten id), .ok _ => (ten, id) = (T, msgID)
  | _, _ => False

def Shown (T msgID : GoString) (log : Log) : Prop := ∃ x ∈ log, Shows T msgID x.call x.answer

theorem recordings_pos {m : Mem} {msgID : GoString} :
    0 < recordings m T msgID ↔ (T, msgID) ∈ ticketIDs m ∨ (T, msgID) ∈ commentIDs m := by
  rw [recordings, Nat.add_pos_iff_pos_or_pos, List.count_pos_iff, List.count_pos_iff]

theorem createTicket_recorded {now : Time} {m : Mem} {t : Ticket} (h : (m.createTicket now t).1 = .ok ()) :
    (t.tenantID, t.externalID) ∈ ticketIDs (m.createTicket now t).2 := by
  obtain ⟨e, he⟩ | ⟨-, -, heq⟩ := createTicket_cases now m t
  · rw [he] at h
    cases h
  · rw [heq]
    exact List.mem_map.mpr ⟨_, Table.mem_put.mpr (.inl rfl), rfl⟩

theorem createComment_recorded {now : Time} {m : Mem} {c : Comment} (hnew : m.comments.get? c.id = none)
    (h : (m.createComment now c).1 = .ok () ∨ (m.createComment now c).1 = .error .conflict) :
    (c.tenantID, c.messageID) ∈ commentIDs (m.createComment now c).2 := by
  obtain ⟨e, he⟩ | ⟨t, -, -, -, -, -, heq⟩ := createComment_cases now m c
  · rw [he] at h ⊢
    obtain rfl : e = .conflict := by simpa using h
    obtain ⟨x, hx, hten, hmsg⟩ := createComment_conflict hnew he
    exact List.mem_map.mpr ⟨x, hx, by rw [hten, hmsg]⟩
  · rw [heq]
    exact List.mem_map.mpr ⟨_, Table.mem_put.mpr (.inl rfl), rfl⟩

theorem findTicket_recorded {m : Mem} {ten id : GoString} {t : Ticket}
    (h : (m.findTicketByExternalID ten id).1 = .ok t) :
    (ten, id) ∈ ticketIDs (m.findTicketByExternalID ten id).2 := by
  unfold Mem.findTicketByExternalID at h ⊢
  split_ifs at h ⊢
  split at h
  · rename_i x hx
    have hpair := List.find?_some hx
    dsimp only
    exact List.mem_map.mpr ⟨x, List.mem_of_find?_eq_some hx, by simpa using hpair⟩
  · cases h

theorem findComment_recorded {m : Mem} {ten id : GoString} {c : Comment}
    (h : (m.findCommentByMessageID ten id).1 = .ok c) :
    (ten, id) ∈ commentIDs (m.findCommentByMessageID ten id).2 := by
  unfold Mem.findCommentByMessageID at h ⊢
  split_ifs at h ⊢
  split at h
  · rename_i x hx
    have hpair := List.find?_some hx
    dsimp only
    exact List.mem_map.mpr ⟨x, List.mem_of_find?_eq_some hx, by simpa using hpair⟩
  · cases h

theorem shows_recorded [GoLibrary] {e : Call} {c : Choice} {w : World} {msgID : GoString}
    (hmet : Unmet w.mem e) (h : Shows T msgID e (step c e w).1) :
    0 < recordings (step c e w).2.mem T msgID := by
  rw [recordings_pos]
  cases e with
  | store q =>
    cases hf : c.fail q.method with
    | true =>
      rw [step_store_failed hf] at h
      cases q <;> exact h.elim
    | false =>
      rw [step_store hf] at h ⊢
      cases q with
      | createTicket t =>
        cases hr : (performStore c.now c.newID w.mem (.createTicket t)).1 with
        | error e => exact (hr ▸ h).elim
        | ok v =>
          rw [hr] at h
          exact .inl (h ▸ createTicket_recorded hr)
      | createComment x =>
        have hpair : (x.tenantID, x.messageID) = (T, msgID) ∧ ((w.mem.createComment c.now x).1 = .ok () ∨
            (w.mem.createComment c.now x).1 = .error .conflict) := by
          cases hr : (performStore c.now c.newID w.mem (.createComment x)).1 with
          | error e =>
            rw [hr] at h
            cases e with
            | conflict => exact ⟨h, .inr hr⟩
            | _ => exact h.elim
          | ok v =>
            rw [hr] at h
            exact ⟨h, .inl hr⟩
        exact .inr (hpair.1 ▸ createComment_recorded hmet.1 hpair.2)
      | findTicketByExternalID ten id =>
        cases hr : (performStore c.now c.newID w.mem (.findTicketByExternalID ten id)).1 with
        | error e => exact (hr ▸ h).elim
        | ok t =>
          rw [hr] at h
          exact .inl (h ▸ findTicket_recorded hr)
      | findCommentByMessageID ten id =>
        cases hr : (performStore c.now c.newID w.mem (.findCommentByMessageID ten id)).1 with
        | error e => exact (hr ▸ h).elim
        | ok x =>
          rw [hr] at h
          exact .inr (h ▸ findComment_recorded hr)
      | _ => exact h.elim
  | _ => exact h.elim

def Settled (T msgID : GoString) (log : Log) (r : Except Err Inbound.Receipt) : Prop :=
  ∀ receipt, r = .ok receipt → receipt.outcome ≠ .dropped → Shown T msgID log

abbrev Delivers {α : Type} (T : GoString) (Ψ : Log → α → Prop) (log : Log) (p : Act α) : Prop :=
  Obeys (Honest fun _ => True) (fun _ => Scoped T fun _ => True) Ψ log p

variable {msgID : GoString} {log : Log}

theorem Shown.append (h : Shown T msgID log) (l : Log) : Shown T msgID (log ++ l) := by
  obtain ⟨x, hx, hs⟩ := h
  exact ⟨x, List.mem_append_left l hx, hs⟩

theorem shown_last {e : Call} {r : Answer e} (h : Shows T msgID e r) : Shown T msgID (log ++ [⟨e, r⟩]) :=
  ⟨⟨e, r⟩, List.mem_append_right log (List.mem_singleton_self _), h⟩

theorem settled_error (e : Err) : Settled T msgID log (.error e) := nofun

theorem settled_shown {r : Except Err Inbound.Receipt} (h : Shown T msgID log) : Settled T msgID log r :=
  fun _ _ _ => h

theorem delivers_scoped {α : Type} {p : Act α} {Q : α → Prop}
    (hp : Issues (Honest fun _ => True) (Scoped T fun _ => True) p Q) :
    Delivers T (fun l a => Q a ∧ ∃ l', l = log ++ l') log p :=
  Obeys.mono (p := p) (hp.obeys fun _ _ _ he => he) fun _ _ h => ⟨h.1, h.2.imp fun _ => And.left⟩

theorem delivers_quiet {α : Type} {p : Act α} {Q : α → Prop} (hp : Quietly T (fun _ => True) p Q) :
    Delivers T (fun l a => Q a ∧ ∃ l', l = log ++ l') log p :=
  delivers_scoped (hp.weaken fun _ => Quiet.scoped)

theorem delivers_duplicate (msgID : GoString) :
    Delivers T (fun l r => ∀ id, r = .ok (some id) → Shown T msgID l) log
      (Inbound.duplicate T msgID).run := by
  unfold Inbound.duplicate
  split
  · exact nofun
  · refine Obeys.lift ⟨rfl, ?_⟩
    rintro (e | c) -
    · cases e with
      | notFound =>
        refine Obeys.lift ⟨rfl, ?_⟩
        rintro (e | t) -
        · cases e <;> exact nofun
        · exact fun _ _ => shown_last rfl
      | _ => exact nofun
    · exact fun _ _ => shown_last rfl

section Programs

variable [GoLibrary] (d : Deps) {subj : Subjects} (hT : subj.tenantID = T) (route : MailboxRoute)
  (recipient : GoString) (msg : Message)

include hT

theorem delivers_reply (ticketID : GoString) :
    Delivers T (Settled T msg.messageID) log (Inbound.reply d subj ticketID msg).run := by
  subst hT
  refine Obeys.andThen (delivers_quiet (quiet_upload ticketID msg.attachments [] (by simp))) ?_
    fun l e _ => settled_error e
  rintro l staged ⟨hst, -⟩
  refine Obeys.lift ⟨trivial, fun id _ => Obeys.lift ⟨⟨rfl, trivial⟩, ?_⟩⟩
  rintro (e | _) -
  · refine Obeys.lift (Obeys.mono (delivers_quiet (quiet_deleteObjects _)) ?_)
    rintro _ _ ⟨-, l', rfl⟩
    cases e with
    | conflict =>
      refine settled_shown (Shown.append ?_ l')
      exact shown_last rfl
    | _ => exact settled_error _
  · refine Obeys.lift (Obeys.mono
      (delivers_scoped (scopedLogic.replied d rfl _ _ msg staged (hst staged rfl))) ?_)
    rintro _ _ ⟨-, l', rfl⟩
    refine settled_shown (Shown.append ?_ l')
    exact shown_last rfl

theorem delivers_create (plan : Rules.Plan) :
    Delivers T (Settled T msg.messageID) log (Inbound.create d subj route recipient msg plan).run := by
  subst hT
  refine Obeys.lift ⟨trivial, fun id _ => ?_⟩
  refine Obeys.andThen (delivers_quiet (quiet_upload id msg.attachments [] (by simp))) ?_
    fun l e _ => settled_error e
  rintro l staged ⟨hst, -⟩
  refine Obeys.lift ⟨⟨rfl, trivial, rfl, rfl⟩, ?_⟩
  rintro (e | _) -
  · refine Obeys.lift (Obeys.mono (delivers_quiet (quiet_deleteObjects _)) fun l' _ _ => ?_)
    split
    · refine Obeys.lift ⟨rfl, ?_⟩
      rintro (_ | t) -
      · exact settled_error _
      · exact settled_shown (shown_last rfl)
    · exact settled_error _
  · refine Obeys.lift (Obeys.mono
      (delivers_scoped (scopedLogic.opened d rfl route recipient msg _ rfl plan staged
        (hst staged rfl))) ?_)
    rintro _ _ ⟨-, l', rfl⟩
    refine settled_shown (Shown.append ?_ l')
    exact shown_last rfl

theorem delivers_openNew :
    Delivers T (Settled T msg.messageID) log (Inbound.openNew d subj route recipient msg).run := by
  refine Obeys.lift (Obeys.mono (delivers_quiet (quiet_triagePlan d subj hT recipient msg))
    fun l plan _ => ?_)
  split
  · rintro _ ⟨⟩ hkept
    exact absurd rfl hkept
  · exact delivers_create d hT route recipient msg plan

theorem delivers_ingest (hroute : route.tenantID = T) :
    Delivers T (Settled T msg.messageID) log (Inbound.ingest d subj route recipient msg).run := by
  have hnew : ∀ l, Delivers T (Settled T msg.messageID) l
      (Inbound.openNew d subj route recipient msg).run :=
    fun l => delivers_openNew d hT route recipient msg
  unfold Inbound.ingest
  rw [hroute]
  refine Obeys.andThen (delivers_duplicate msg.messageID) ?_ fun l e _ => settled_error e
  rintro l (_ | id) hdup
  · refine Obeys.lift (Obeys.mono (delivers_quiet (quiet_resolve _ _ _)) ?_)
    rintro l' (e | _ | found) -
    · exact settled_error _
    · exact hnew l'
    · dsimp only
      split
      · exact hnew l'
      · refine Obeys.lift (Obeys.mono (delivers_reply d hT msg found.ticketID) ?_)
        rintro l'' (e | receipt) hreply
        · cases e <;> first | exact hnew l'' | exact settled_error _
        · exact hreply
  · exact settled_shown (hdup id rfl)

end Programs

def missesComment (K : GoString × GoString) : (e : Call) → Answer e → Bool
  | .store (.findCommentByMessageID ten id), .error .notFound => (ten, id) = K
  | _, _ => false

def missesTicket (K : GoString × GoString) : (e : Call) → Answer e → Bool
  | .store (.findTicketByExternalID ten id), .error .notFound => (ten, id) = K
  | _, _ => false

def inserts (K : GoString × GoString) : (e : Call) → Answer e → Bool
  | .store (.createTicket t), .ok _ => (t.tenantID, t.externalID) = K
  | .store (.createComment c), .ok _ => c.authorKind = .requester ∧ (c.tenantID, c.messageID) = K
  | _, _ => false

def Inserted (K : GoString × GoString) (log : Log) : Prop := ∃ x ∈ log, inserts K x.call x.answer

structure Cleared (K : GoString × GoString) (log : Log) : Prop where
  comment : K.2 ≠ [] → ∃ x ∈ log, missesComment K x.call x.answer
  ticket : K.2 ≠ [] → ∃ x ∈ log, missesTicket K x.call x.answer
  unrecorded : ¬ Inserted K log

def Clears (K : GoString × GoString) (log : Log) : Call → Prop
  | .store (.createTicket t) => (t.tenantID, t.externalID) = K ∧ Cleared K log
  | .store (.createComment c) => c.authorKind = .system ∨ (c.tenantID, c.messageID) = K ∧ Cleared K log
  | _ => True

def Still : Call → Prop
  | .store (.createTicket _) => False
  | .store (.createComment c) => c.authorKind = .system
  | _ => True

theorem Routine.still (e : Call) (h : Routine e) : Still e := by
  cases e with
  | store q => cases q <;> first | exact h | trivial
  | _ => trivial

theorem still_of_peek (e : Call) (h : Peek T e) : Still e := Routine.still e (routine_of_peek e h)

section Walk

variable {K : GoString × GoString} {A : (e : Call) → Answer e → Prop}

theorem Still.clears {e : Call} (h : Still e) : Clears K log e := by
  cases e with
  | store q =>
    cases q with
    | createTicket t => exact h.elim
    | createComment c => exact .inl h
    | _ => trivial
  | _ => trivial

theorem Still.inserts_eq {e : Call} (h : Still e) (r : Answer e) : inserts K e r = false := by
  cases e with
  | store q =>
    cases q with
    | createTicket t => exact h.elim
    | createComment c =>
      have hkind : c.authorKind = .system := h
      cases r <;> simp [inserts, hkind]
    | _ => rfl
  | _ => rfl

theorem inserted_append {l : Log} : Inserted K (log ++ l) ↔ Inserted K log ∨ Inserted K l := by
  simp only [Inserted, List.mem_append, or_and_right, exists_or]

theorem inserted_singleton {e : Call} {r : Answer e} : Inserted K [⟨e, r⟩] ↔ inserts K e r := by
  simp only [Inserted, List.mem_singleton, exists_eq_left]

theorem not_inserted {e : Call} {r : Answer e} (h : inserts K e r = false) : ¬ Inserted K [⟨e, r⟩] := by
  rw [inserted_singleton, h]
  exact Bool.false_ne_true

theorem not_inserted_still {l : Log} (hl : ∀ x ∈ l, Still x.call) : ¬ Inserted K l := by
  rintro ⟨x, hx, hins⟩
  rw [(hl x hx).inserts_eq x.answer] at hins
  cases hins

theorem Cleared.append {l : Log} (h : Cleared K log) (hl : ¬ Inserted K l) : Cleared K (log ++ l) where
  comment hne := (h.comment hne).imp fun _ hx => ⟨List.mem_append_left l hx.1, hx.2⟩
  ticket hne := (h.ticket hne).imp fun _ hx => ⟨List.mem_append_left l hx.1, hx.2⟩
  unrecorded hins := (inserted_append.mp hins).elim h.unrecorded hl

theorem clears_still {α : Type} {p : Act α} {Q : α → Prop} (hp : Issues A Still p Q) :
    Obeys A (Clears K) (fun l _ => ∃ l', l = log ++ l' ∧ ¬ Inserted K l') log p := by
  refine Obeys.mono (p := p) (hp.obeys fun _ _ _ => Still.clears) ?_
  rintro l a ⟨-, l', rfl, hl'⟩
  exact ⟨l', rfl, not_inserted_still hl'⟩

theorem clears_duplicate (msgID : GoString) (hlog : ¬ Inserted (T, msgID) log) :
    Obeys A (Clears (T, msgID)) (fun l r => r = .ok none → Cleared (T, msgID) l) log
      (Inbound.duplicate T msgID).run := by
  unfold Inbound.duplicate
  split_ifs with hne
  · exact fun _ => ⟨fun h => absurd hne h, fun h => absurd hne h, hlog⟩
  · refine Obeys.lift ⟨trivial, ?_⟩
    rintro (e | c) -
    · cases e with
      | notFound =>
        refine Obeys.lift ⟨trivial, ?_⟩
        rintro (e | t) -
        · cases e with
          | notFound =>
            -- both lookups missed
            intro _
            refine ⟨fun _ => ⟨⟨.store (.findCommentByMessageID T msgID), .error .notFound⟩, ?_,
              decide_eq_true rfl⟩, fun _ =>
                ⟨⟨.store (.findTicketByExternalID T msgID), .error .notFound⟩, ?_,
                decide_eq_true rfl⟩, ?_⟩
            · exact List.mem_append_left _ (List.mem_append_right _ (List.mem_singleton_self _))
            · exact List.mem_append_right _ (List.mem_singleton_self _)
            · simp only [inserted_append, not_or]
              exact ⟨⟨hlog, not_inserted rfl⟩, not_inserted rfl⟩
          | _ => exact nofun
        · exact nofun
      | _ => exact nofun
    · exact nofun

theorem still_upload (ticketID : GoString) (atts : List MailAttachment) :
    Issues A Still (Inbound.upload T ticketID atts []).run (fun _ => True) :=
  issues_upload trivial (fun _ _ _ => trivial) (fun _ => trivial) T ticketID atts []

theorem still_discard (staged : List Attachment) :
    Issues A Still (Inbound.discard staged) (fun _ => True) :=
  issues_deleteObjects fun _ _ => trivial

variable [GoLibrary] (d : Deps) (subj : Subjects) (route : MailboxRoute) (recipient : GoString)
  (msg : Message)

theorem still_replied (ticketID commentID : GoString) (staged : List Attachment) :
    Issues A Still (Inbound.replied d subj ticketID commentID msg staged) (fun _ => True) := by
  rw [replied_eq]
  refine Issues.bind ((issues_record (fun _ => trivial) (fun _ => trivial) commentID staged).mono
    fun _ _ => ?_)
  refine Issues.bind ((issues_note Routine.still _ ticketID msg).mono fun _ _ => ?_)
  exact issues_replyTail d subj Routine.still ticketID

theorem still_opened (t : Ticket) (plan : Rules.Plan) (staged : List Attachment) :
    Issues A Still (Inbound.opened d subj route recipient msg t plan staged) (fun _ => True) := by
  rw [opened_eq]
  refine Issues.bind ((issues_record (fun _ => trivial) (fun _ => trivial) [] staged).mono fun _ _ => ?_)
  refine Issues.bind ((issues_note Routine.still _ t.id msg).mono fun _ _ => ?_)
  exact issues_openTail d subj Routine.still (fun _ => trivial) route recipient msg t plan

theorem clears_reply (ticketID : GoString) (hlog : Cleared (subj.tenantID, msg.messageID) log) :
    Obeys A (Clears (subj.tenantID, msg.messageID))
      (fun l r => ∀ e, r = .error e → Cleared (subj.tenantID, msg.messageID) l) log
      (Inbound.reply d subj ticketID msg).run := by
  refine Obeys.andThen (clears_still (still_upload ticketID msg.attachments)) ?_ ?_
  · rintro _ staged ⟨l, rfl, hl⟩
    refine Obeys.lift ⟨trivial, fun id _ => ?_⟩
    have hcleared : Cleared (subj.tenantID, msg.messageID) (log ++ l ++ [⟨.newID, id⟩]) :=
      (hlog.append hl).append (not_inserted rfl)
    refine Obeys.lift ⟨.inr ⟨rfl, hcleared⟩, ?_⟩
    rintro (e | u) -
    · refine Obeys.lift (Obeys.mono (clears_still (still_discard staged)) ?_)
      rintro _ _ ⟨l', rfl, hl'⟩
      have hfailed (c : Comment) : Cleared (subj.tenantID, msg.messageID)
          (log ++ l ++ [⟨.newID, id⟩] ++ [⟨.store (.createComment c), .error e⟩] ++ l') :=
        (hcleared.append (not_inserted rfl)).append hl'
      cases e <;> exact fun _ _ => hfailed _
    · exact Obeys.lift (Obeys.mono (clears_still (still_replied d subj msg ticketID id staged))
        fun _ _ _ => nofun)
  · rintro _ e ⟨l, rfl, hl⟩ _ -
    exact hlog.append hl

theorem clears_create (plan : Rules.Plan) (hlog : Cleared (subj.tenantID, msg.messageID) log) :
    Obeys A (Clears (subj.tenantID, msg.messageID)) (fun _ _ => True) log
      (Inbound.create d subj route recipient msg plan).run := by
  refine Obeys.lift ⟨trivial, fun id _ => ?_⟩
  refine Obeys.andThen (clears_still (still_upload id msg.attachments)) ?_ fun _ _ _ => trivial
  rintro _ staged ⟨l, rfl, hl⟩
  refine Obeys.lift ⟨⟨rfl, (hlog.append (not_inserted rfl)).append hl⟩, ?_⟩
  rintro (e | u) -
  · refine Obeys.lift (Obeys.mono (clears_still (still_discard staged)) fun _ _ _ => ?_)
    split
    · refine Obeys.lift ⟨trivial, ?_⟩
      rintro (_ | t) - <;> trivial
    · trivial
  · exact Obeys.lift (Obeys.mono (clears_still (still_opened d subj route recipient msg _ plan staged))
      fun _ _ _ => trivial)

theorem clears_openNew (hlog : Cleared (subj.tenantID, msg.messageID) log) :
    Obeys A (Clears (subj.tenantID, msg.messageID)) (fun _ _ => True) log
      (Inbound.openNew d subj route recipient msg).run := by
  refine Obeys.lift (Obeys.mono
    (clears_still (issues_triagePlan still_of_peek d subj rfl recipient msg)) ?_)
  rintro _ plan ⟨l, rfl, hl⟩
  split
  · trivial
  · exact clears_create d subj route recipient msg plan (hlog.append hl)

theorem clears_ingest (hroute : route.tenantID = subj.tenantID)
    (hlog : ¬ Inserted (subj.tenantID, msg.messageID) log) :
    Obeys A (Clears (subj.tenantID, msg.messageID)) (fun _ _ => True) log
      (Inbound.ingest d subj route recipient msg).run := by
  unfold Inbound.ingest
  rw [hroute]
  refine Obeys.andThen (clears_duplicate msg.messageID hlog) ?_ fun _ _ _ => trivial
  rintro l (_ | id) hcleared
  · have hcleared := hcleared rfl
    refine Obeys.lift (Obeys.mono (clears_still (issues_resolve still_of_peek _ _ _)) ?_)
    rintro _ (e | _ | found) ⟨l', rfl, hl'⟩
    · trivial
    · exact clears_openNew d subj route recipient msg (hcleared.append hl')
    · dsimp only
      split
      · exact clears_openNew d subj route recipient msg (hcleared.append hl')
      · refine Obeys.lift (Obeys.mono (clears_reply d subj msg found.ticketID (hcleared.append hl')) ?_)
        rintro l'' (e | receipt) hreply
        · cases e <;> first | exact clears_openNew d subj route recipient msg (hreply _ rfl) | trivial
        · trivial
  · trivial

end Walk

/-- A routed message, delivered by the mail edge; retries and duplicates are deliveries of their own. -/
structure Inbound.Delivery where
  route : MailboxRoute
  recipient : GoString
  msg : Message

def Inbound.Delivery.act [GoLibrary] (d : Deps) (x : Inbound.Delivery) : Act (Except Err Inbound.Receipt) :=
  (Inbound.ingest d (systemFor x.route.tenantID) x.route x.recipient x.msg).run

def Inbound.Delivery.key (x : Inbound.Delivery) : GoString × GoString := (x.route.tenantID, x.msg.messageID)

abbrev DeliveryThread := Thread Call Answer (Except Err Inbound.Receipt)

def Checking (K : GoString × GoString) (thread : DeliveryThread) : Prop :=
  thread.prog.pending.isSome ∧
    (∃ x ∈ thread.log, missesComment K x.call x.answer ∨ missesTicket K x.call x.answer) ∧
    ¬ Inserted K thread.log

instance (K : GoString × GoString) (thread : DeliveryThread) : Decidable (Checking K thread) :=
  inferInstanceAs (Decidable
    (_ ∧ (∃ x ∈ thread.log, missesComment K x.call x.answer ∨ missesTicket K x.call x.answer) ∧
    ¬ ∃ x ∈ thread.log, inserts K x.call x.answer))

def carried : Call → Option (GoString × GoString)
  | .store (.createTicket t) => some (t.tenantID, t.externalID)
  | .store (.createComment c) => some (c.tenantID, c.messageID)
  | _ => none

def ofRequester : Call → Bool
  | .store (.createTicket _) => true
  | .store (.createComment c) => c.authorKind = .requester
  | _ => false

def Minted (m : Mem) : Call → Prop
  | .store (.createComment c) =>
    m.comments.get? c.id = none ∧
      (c.authorKind ≠ .requester → c.messageID ≠ [] → (c.tenantID, c.messageID) ∉ ticketIDs m)
  | _ => True

instance (m : Mem) (e : Call) : Decidable (Minted m e) := by
  unfold Minted
  split <;> infer_instance

section Interleaved

variable [GoLibrary] {ι : Type} [DecidableEq ι] (deliveries : ι → Inbound.Delivery)

/-- Nothing is recorded under the message id of a delivery that is between its check and its insert,
except by that delivery itself. -/
def InTurn (cfg : Config ι Call Answer (Except Err Inbound.Receipt) World) (j : ι) (_ : Choice) : Prop :=
  ∀ e ∈ (cfg.threads j).prog.pending, Minted cfg.state.mem e ∧
    ∀ i, carried e = some (deliveries i).key → Checking (deliveries i).key (cfg.threads i) →
    i = j ∧ ofRequester e

instance [Fintype ι] (cfg : Config ι Call Answer (Except Err Inbound.Receipt) World) (j : ι) (c : Choice) :
    Decidable (InTurn deliveries cfg j c) :=
  inferInstanceAs (Decidable (∀ e ∈ (cfg.threads j).prog.pending, Minted cfg.state.mem e ∧
    ∀ i, carried e = some (deliveries i).key → Checking (deliveries i).key (cfg.threads i) → i = j ∧
    ofRequester e))

structure Missing (K : GoString × GoString) (log : Log) (m : Mem) : Prop where
  comment : (∃ x ∈ log, missesComment K x.call x.answer) → K ∉ commentIDs m
  ticket : (∃ x ∈ log, missesTicket K x.call x.answer) → K ∉ ticketIDs m

structure RecordsKept (cfg : Config ι Call Answer (Except Err Inbound.Receipt) World) : Prop where
  once : AtMostOnce cfg.state.mem
  shown : ∀ i T msgID, Shown T msgID (cfg.threads i).log → 0 < recordings cfg.state.mem T msgID
  missing : ∀ i, (deliveries i).key.2 ≠ [] → (cfg.threads i).prog.pending.isSome →
    ¬ Inserted (deliveries i).key (cfg.threads i).log →
      Missing (deliveries i).key (cfg.threads i).log cfg.state.mem

variable {K : GoString × GoString}

omit [GoLibrary] in
theorem findComment_missed {m : Mem} {ten id : GoString} (hid : id ≠ [])
    (h : (m.findCommentByMessageID ten id).1 = .error .notFound) : (ten, id) ∉ commentIDs m := by
  intro hmem
  obtain ⟨x, hx, hpair⟩ := List.mem_map.mp hmem
  rw [Mem.findCommentByMessageID, if_neg hid] at h
  split at h
  · cases h
  · rename_i hnone
    exact List.find?_eq_none.mp hnone x hx (by simpa using hpair)

omit [GoLibrary] in
theorem findTicket_missed {m : Mem} {ten id : GoString} (hid : id ≠ [])
    (h : (m.findTicketByExternalID ten id).1 = .error .notFound) : (ten, id) ∉ ticketIDs m := by
  intro hmem
  obtain ⟨x, hx, hpair⟩ := List.mem_map.mp hmem
  rw [Mem.findTicketByExternalID, if_neg hid] at h
  split at h
  · cases h
  · rename_i hnone
    exact List.find?_eq_none.mp hnone x hx (by simpa using hpair)

theorem step_notFound {q : StoreCall} {c : Choice} {w : World}
    (h : (step c (.store q) w).1 = .error .notFound) :
    (performStore c.now c.newID w.mem q).1 = .error .notFound ∧
      (step c (.store q) w).2.mem = (performStore c.now c.newID w.mem q).2 := by
  cases hf : c.fail q.method with
  | true =>
    rw [step_store_failed hf] at h
    cases h
  | false =>
    rw [step_store hf] at h ⊢
    exact ⟨h, rfl⟩

theorem missesComment_step {e : Call} {c : Choice} {w : World} (hne : K.2 ≠ [])
    (h : missesComment K e (step c e w).1) : K ∉ commentIDs (step c e w).2.mem := by
  cases e with
  | store q =>
    cases q with
    | findCommentByMessageID ten id =>
      cases hr : (step c (.store (.findCommentByMessageID ten id)) w).1 with
      | error e =>
        rw [hr] at h
        cases e with
        | notFound =>
          obtain ⟨hmissed, hmem⟩ := step_notFound hr
          obtain rfl := of_decide_eq_true h
          rw [hmem, performStore, findComment_eq]
          exact findComment_missed hne hmissed
        | _ => cases h
      | ok x =>
        rw [hr] at h
        cases h
    | _ => cases h
  | _ => cases h

theorem missesTicket_step {e : Call} {c : Choice} {w : World} (hne : K.2 ≠ [])
    (h : missesTicket K e (step c e w).1) : K ∉ ticketIDs (step c e w).2.mem := by
  cases e with
  | store q =>
    cases q with
    | findTicketByExternalID ten id =>
      cases hr : (step c (.store (.findTicketByExternalID ten id)) w).1 with
      | error e =>
        rw [hr] at h
        cases e with
        | notFound =>
          obtain ⟨hmissed, hmem⟩ := step_notFound hr
          obtain rfl := of_decide_eq_true h
          rw [hmem, performStore, findTicket_eq]
          exact findTicket_missed hne hmissed
        | _ => cases h
      | ok x =>
        rw [hr] at h
        cases h
    | _ => cases h
  | _ => cases h

theorem mem_of_not_inserts {e : Call} {c : Choice} {w : World} (hown : ofRequester e)
    (hcarried : carried e = some K) (h : ¬ inserts K e (step c e w).1) : (step c e w).2.mem = w.mem := by
  cases e with
  | store q =>
    cases hf : c.fail q.method with
    | true => rw [step_store_failed hf]
    | false =>
      rw [step_store hf] at h ⊢
      cases q with
      | createTicket t =>
        obtain ⟨e, he⟩ | ⟨-, -, heq⟩ := createTicket_cases c.now w.mem t
        · rw [performStore, he]
        · rw [performStore, heq] at h
          exact absurd (decide_eq_true (Option.some.inj hcarried)) h
      | createComment x =>
        obtain ⟨e, he⟩ | ⟨t, -, -, -, -, -, heq⟩ := createComment_cases c.now w.mem x
        · rw [performStore, he]
        · rw [performStore, heq] at h
          exact absurd (decide_eq_true ⟨of_decide_eq_true hown, Option.some.inj hcarried⟩) h
      | _ => cases hown
  | _ => cases hown

omit [GoLibrary] in
theorem IDStep.missing {m m' : Mem} {e : Call} {log : Log} (h : IDStep m m' e)
    (hcarried : carried e ≠ some K) (hm : Missing K log m) : Missing K log m' := by
  cases h with
  | same ht hc => exact ⟨fun hx => hc ▸ hm.comment hx, fun hx => ht ▸ hm.ticket hx⟩
  | ticket t _ ht hc =>
    refine ⟨fun hx => hc ▸ hm.comment hx, fun hx hmem => ?_⟩
    rw [ht] at hmem
    rcases List.mem_append.mp hmem with hold | hnew
    · exact hm.ticket hx hold
    · exact hcarried (congrArg some (List.mem_singleton.mp hnew).symm)
  | comment c _ ht hc =>
    refine ⟨fun hx hmem => ?_, fun hx => ht ▸ hm.ticket hx⟩
    rw [hc] at hmem
    rcases List.mem_append.mp hmem with hold | hnew
    · exact hm.comment hx hold
    · exact hcarried (congrArg some (List.mem_singleton.mp hnew).symm)

omit [GoLibrary] in
theorem missing_of_not_checking {thread : DeliveryThread} (h : ¬ Checking K thread)
    (hrunning : thread.prog.pending.isSome) (hlog : ¬ Inserted K thread.log) (m : Mem) :
    Missing K thread.log m where
  comment := fun ⟨x, hx, hmiss⟩ => absurd ⟨hrunning, ⟨x, hx, .inl hmiss⟩, hlog⟩ h
  ticket := fun ⟨x, hx, hmiss⟩ => absurd ⟨hrunning, ⟨x, hx, .inr hmiss⟩, hlog⟩ h

theorem Missing.snoc {e : Call} {c : Choice} {w : World} {log : Log} (hne : K.2 ≠ [])
    (h : Missing K log (step c e w).2.mem) :
    Missing K (log ++ [⟨e, (step c e w).1⟩]) (step c e w).2.mem := by
  constructor
  · rintro ⟨x, hx, hmiss⟩
    rcases List.mem_append.mp hx with hx | hx
    · exact h.comment ⟨x, hx, hmiss⟩
    · obtain rfl := List.mem_singleton.mp hx
      exact missesComment_step hne hmiss
  · rintro ⟨x, hx, hmiss⟩
    rcases List.mem_append.mp hx with hx | hx
    · exact h.ticket ⟨x, hx, hmiss⟩
    · obtain rfl := List.mem_singleton.mp hx
      exact missesTicket_step hne hmiss

section Step

variable {deliveries} {cfg : Config ι Call Answer (Except Err Inbound.Receipt) World} {j : ι}
  {c : Choice} {e : Call}
  {k : Answer e → Act (Except Err Inbound.Receipt)} (h : RecordsKept deliveries cfg)
  (hturn : InTurn deliveries cfg j c)
  (hprog : (cfg.threads j).prog = .call e k) (hclears : Clears (deliveries j).key (cfg.threads j).log e)

include h hturn hprog hclears

omit [GoLibrary] [DecidableEq ι] in
theorem unmet_of_inTurn : Unmet cfg.state.mem e := by
  obtain ⟨hminted, -⟩ := hturn e (by rw [hprog]; rfl)
  have hrunning : (cfg.threads j).prog.pending.isSome := by
    rw [hprog]
    rfl
  have hmissing (hne : (deliveries j).key.2 ≠ []) (hcl : Cleared (deliveries j).key (cfg.threads j).log) :
      (deliveries j).key ∉ commentIDs cfg.state.mem ∧ (deliveries j).key ∉ ticketIDs cfg.state.mem := by
    have hm := h.missing j hne hrunning hcl.unrecorded
    exact ⟨hm.comment (hcl.comment hne), hm.ticket (hcl.ticket hne)⟩
  cases e with
  | store q =>
    cases q with
    | createTicket t =>
      obtain ⟨hkey, hcl⟩ := hclears
      intro hne
      rw [hkey]
      exact (hmissing (by rwa [← hkey]) hcl).1
    | createComment x =>
      refine ⟨hminted.1, fun hne => ?_⟩
      rcases hclears with hkind | ⟨hkey, hcl⟩
      · exact hminted.2 (by simp [hkind]) hne
      · rw [hkey]
        exact (hmissing (by rwa [← hkey]) hcl).2
    | _ => trivial
  | _ => trivial

omit hclears in
theorem missing_answered (hids : IDStep cfg.state.mem (step c e cfg.state).2.mem e) (i : ι)
    (hne : (deliveries i).key.2 ≠ [])
    (hrunning : ((cfg.answered j e k (step c e cfg.state)).threads i).prog.pending.isSome)
    (hlog : ¬ Inserted (deliveries i).key ((cfg.answered j e k (step c e cfg.state)).threads i).log) :
    Missing (deliveries i).key ((cfg.answered j e k (step c e cfg.state)).threads i).log
      (step c e cfg.state).2.mem := by
  obtain ⟨-, hturn⟩ := hturn e (by rw [hprog]; rfl)
  rw [Config.log_answered, inserted_append, not_or] at hlog
  rw [Config.log_answered]
  have hbefore : (cfg.threads i).prog.pending.isSome := by
    by_cases hi : i = j
    · rw [hi, hprog]
      rfl
    · simpa [Config.answered, hi] using hrunning
  have hkept : Missing (deliveries i).key (cfg.threads i).log (step c e cfg.state).2.mem := by
    by_cases hcarried : carried e = some (deliveries i).key
    · by_cases hcheck : Checking (deliveries i).key (cfg.threads i)
      · -- only the delivery itself records its id, and it has not: the insert was refused
        obtain ⟨rfl, hown⟩ := hturn i hcarried hcheck
        have hrefused := hlog.2
        rw [if_pos rfl, inserted_singleton] at hrefused
        rw [mem_of_not_inserts hown hcarried hrefused]
        exact h.missing i hne hbefore hlog.1
      · exact missing_of_not_checking hcheck hbefore hlog.1 _
    · exact hids.missing hcarried (h.missing i hne hbefore hlog.1)
  split_ifs
  · exact hkept.snoc hne
  · rwa [List.append_nil]

theorem recordsKept_answered (hscoped : Scoped T F e) :
    RecordsKept deliveries (cfg.answered j e k (step c e cfg.state)) := by
  have hmet : Unmet cfg.state.mem e := unmet_of_inTurn h hturn hprog hclears
  have hids : IDStep cfg.state.mem (step c e cfg.state).2.mem e := scoped_idStep hscoped c cfg.state
  refine ⟨hids.atMostOnce h.once hmet, fun i T msgID hshown => ?_, missing_answered h hturn hprog hids⟩
  have hkept : 0 < recordings cfg.state.mem T msgID → 0 < recordings (step c e cfg.state).2.mem T msgID :=
    fun hpos => hpos.trans_le (hids.recordings_le msgID)
  rw [Config.log_answered] at hshown
  obtain ⟨x, hx, hs⟩ := hshown
  rcases List.mem_append.mp hx with hx | hx
  · exact hkept (h.shown i T msgID ⟨x, hx, hs⟩)
  · split_ifs at hx
    · obtain rfl := List.mem_singleton.mp hx
      exact shows_recorded hmet hs
    · cases hx

end Step

/-- In every run in which no message is recorded between the check of another delivery of it and
that delivery's insert, no id is recorded twice, and the message of every delivery that was answered
and not dropped is recorded once. -/
theorem ingestion_exactly_once (d : Deps) {w : World} (hw : AtMostOnce w.mem)
    {cfg : Config ι Call Answer (Except Err Inbound.Receipt) World}
    (h : Reaches step (InTurn deliveries) (Config.start w fun i => (deliveries i).act d) cfg) :
    AtMostOnce cfg.state.mem ∧
      ∀ i receipt, (cfg.threads i).prog = .ret (.ok receipt) → receipt.outcome ≠ .dropped →
        (deliveries i).msg.messageID ≠ [] →
          recordings cfg.state.mem (deliveries i).route.tenantID (deliveries i).msg.messageID = 1 := by
  have hempty : ∀ {P : Event Call Answer → Prop}, ¬ ∃ x ∈ ([] : Log), P x := by
    rintro P ⟨x, hx, -⟩
    cases hx
  have hstart : RecordsKept deliveries (Config.start w fun i => (deliveries i).act d) :=
    ⟨hw, fun _ _ _ h => absurd h hempty, fun _ _ _ _ =>
      ⟨fun h => absurd h hempty, fun h => absurd h hempty⟩⟩
  have hobeys (i : ι) := Obeys.and
    (delivers_ingest d rfl (deliveries i).route (deliveries i).recipient (deliveries i).msg rfl)
    (clears_ingest d (systemFor (deliveries i).route.tenantID) (deliveries i).route (deliveries i).recipient
      (deliveries i).msg rfl hempty)
  obtain ⟨hkept, hobeys⟩ := h.guarded hstart hobeys fun cfg i c e k hI hc hp hcall =>
    ⟨honest_step trivial e cfg.state, recordsKept_answered hI hc hp hcall.2 hcall.1⟩
  refine ⟨hkept.once, fun i receipt hret hrecorded hne => ?_⟩
  have hsettled := hobeys i
  rw [hret] at hsettled
  have hpos : 0 < recordings cfg.state.mem (deliveries i).route.tenantID (deliveries i).msg.messageID :=
    hkept.shown i _ _ (hsettled.1 receipt rfl hrecorded)
  have hle := hkept.once (deliveries i).route.tenantID (deliveries i).msg.messageID hne
  omega

end Interleaved

def supportRoute : MailboxRoute := ⟨"t", [], [], true, false, []⟩

def crossing : Fin 3 → Inbound.Delivery
  | 0 => ⟨supportRoute, "s@x", { messageID := "m", inReplyTo := [goString "p"], text := "hello" }⟩
  | 1 => ⟨supportRoute, "s@x", { messageID := "p", text := "root" }⟩
  | 2 => ⟨supportRoute, "s@x", { messageID := "m", inReplyTo := [goString "p"], text := "hello" }⟩

-- the first delivery of the reply finds no thread and stops before its insert, the root is
-- ingested, the second delivery of the reply is threaded to it, the first goes on
def crossingSchedule : List (Fin 3 × Choice) :=
  List.replicate 6 (0, { newID := "a" }) ++ List.replicate 7 (1, { newID := "b" }) ++
    List.replicate 10 (2, { newID := "c" }) ++ List.replicate 5 (0, { newID := "a" })

def afterCrossing : Config (Fin 3) Call Answer (Except Err Inbound.Receipt) World :=
  letI := asciiLibrary
  (Config.start {} fun i => (crossing i).act {}).schedule step crossingSchedule

def crossingReceipts : Fin 3 → Inbound.Receipt
  | 0 => ⟨.created, "a"⟩
  | 1 => ⟨.created, "b"⟩
  | 2 => ⟨.threaded, "b"⟩

def receiptOf : Act (Except Err Inbound.Receipt) → Option Inbound.Receipt
  | .ret (.ok receipt) => some receipt
  | _ => none

theorem eq_ret_of_receiptOf {p : Act (Except Err Inbound.Receipt)} {receipt : Inbound.Receipt}
    (h : receiptOf p = some receipt) : p = .ret (.ok receipt) := by
  unfold receiptOf at h
  split at h
  · rw [Option.some.inj h]
  · cases h

/-- Every call goes through and every delivery is answered, and the reply is both a ticket and a comment. -/
theorem crossing_records_twice :
    letI := asciiLibrary
    Reaches step (fun _ _ c => FaultFree c) (Config.start {} fun i => (crossing i).act {}) afterCrossing ∧
      (∀ i, ∃ receipt, (afterCrossing.threads i).prog = .ret (.ok receipt) ∧ receipt.outcome ≠ .dropped) ∧
      (ticketIDs afterCrossing.state.mem).count (goString "t", goString "m") = 1 ∧
      (commentIDs afterCrossing.state.mem).count (goString "t", goString "m") = 1 := by
  let := asciiLibrary
  have hreceipts : ∀ i, receiptOf (afterCrossing.threads i).prog = some (crossingReceipts i) := by
    decide +kernel
  refine ⟨Reaches.refl.schedule _ (Config.along_of_mem (fun cfg p hp => ?_) _), fun i =>
    ?_, by decide +kernel, by decide +kernel⟩
  · simp only [crossingSchedule, List.mem_append, List.mem_replicate] at hp
    rcases hp with ((⟨-, rfl⟩ | ⟨-, rfl⟩) | ⟨-, rfl⟩) | ⟨-, rfl⟩ <;> rfl
  · have hkept : ∀ i, (crossingReceipts i).outcome ≠ .dropped := by decide
    exact ⟨_, eq_ret_of_receiptOf (hreceipts i), hkept i⟩

-- the first delivery of the reply and the root overlap; the second delivery of the reply looks
-- after the first has opened its ticket
def crossingInTurn : List (Fin 3 × Choice) :=
  List.replicate 6 (0, { newID := "a" }) ++ List.replicate 7 (1, { newID := "b" }) ++
    List.replicate 5 (0, { newID := "a" }) ++ List.replicate 10 (2, { newID := "c" })

def crossedInTurn : Config (Fin 3) Call Answer (Except Err Inbound.Receipt) World :=
  letI := asciiLibrary
  (Config.start {} fun i => (crossing i).act {}).schedule step crossingInTurn

theorem crossing_in_turn_recorded_once :
    letI := asciiLibrary
    receiptOf (crossedInTurn.threads 0).prog = some ⟨.created, "a"⟩ ∧
      receiptOf (crossedInTurn.threads 2).prog = some ⟨.duplicate, "a"⟩ ∧
      recordings crossedInTurn.state.mem (crossing 2).route.tenantID (crossing 2).msg.messageID = 1 := by
  let := asciiLibrary
  have hfirst : receiptOf (crossedInTurn.threads 0).prog = some ⟨.created, "a"⟩ := by decide +kernel
  have hret : receiptOf (crossedInTurn.threads 2).prog = some ⟨.duplicate, "a"⟩ := by decide +kernel
  have hreach : Reaches step (InTurn crossing) (Config.start {} fun i => (crossing i).act {})
      crossedInTurn :=
    Reaches.refl.schedule crossingInTurn (by decide +kernel)
  have honce : AtMostOnce ({} : World).mem := fun T msgID _ => Nat.zero_le 1
  have hid : (crossing 2).msg.messageID ≠ [] := by decide
  exact ⟨hfirst, hret, (ingestion_exactly_once crossing {} honce hreach).2 2
    _ (eq_ret_of_receiptOf hret) nofun hid⟩

end TangraTicket.Services
