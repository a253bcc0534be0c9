import Mathlib.Data.Fintype.EquivFin
import TangraTicket.Library.GoCase
import TangraTicket.Library.GoRunes
import TangraTicket.Services.Frames
import TangraTicket.Services.Inbound

/-!
The guards of the acknowledgement. The last one asks the store whether the sender is a support
mailbox of any tenant and takes a failed lookup for a no.
-/

namespace TangraTicket.Services

open GoText Store KeyedTable CallProgram

section Addresses

variable [GoLibrary] [LowerLaws]

theorem normAddr_normAddr (a : GoString) : Mem.normAddr (Mem.normAddr a) = Mem.normAddr a := by
  unfold Mem.normAddr
  rw [trimSpace_toLower (trimSpace_trimSpace a), toLower_toLower]

theorem isDaemonSender_normAddr (a : GoString) : isDaemonSender (Mem.normAddr a) = isDaemonSender a := by
  have hnorm : toLower (trimSpace (Mem.normAddr a)) = toLower (trimSpace a) := normAddr_normAddr a
  simp only [isDaemonSender, hnorm]

def Normalised (m : Mem) : Prop := ∀ mb ∈ m.mailboxes.rows, Mem.normAddr mb.address = mb.address

theorem Normalised.put {m : Mem} (h : Normalised m) {mb : Mailbox} {a : GoString}
    (ha : mb.address = Mem.normAddr a) :
    Normalised { m with mailboxes := m.mailboxes.put mb } := by
  intro x hx
  rcases Table.mem_put.mp hx with rfl | ⟨hx, -⟩
  · rw [ha, normAddr_normAddr]
  · exact h x hx

theorem Normalised.performStore {m : Mem} (h : Normalised m) (now : Time) (id : GoString) (q : StoreCall) :
    Normalised (performStore now id m q).2 := by
  cases hq : writesMailboxes q with
  | false =>
    unfold Normalised
    rw [mailboxes_performStore now id m hq]
    exact h
  | true =>
    cases q with
    | createMailbox mb =>
      simp only [Services.performStore, Mem.createMailbox]
      split
      · exact h
      · exact h.put rfl
    | updateMailbox mb =>
      simp only [Services.performStore, Mem.updateMailbox]
      split
      · exact h
      · split
        · exact h
        · exact h.put rfl
    | deleteMailbox ten i force =>
      simp only [Services.performStore, Mem.deleteMailbox]
      split
      · exact h
      · split
        · exact h
        · intro x hx
          exact h x (Table.mem_keep.mp hx).1
    | _ => cases hq

theorem normalised_run {α : Type} (p : Act α) {w : World} (hw : Normalised w.mem) (cs : ℕ → Choice) :
    Normalised (run step p w cs).state.mem := by
  induction p generalizing w cs with
  | ret a => exact hw
  | call e k ih => exact ih _ (mem_step hw fun q _ _ => hw.performStore _ _ q) _

omit [LowerLaws] in
theorem routeMailbox_none {m : Mem} {a : GoString} (h : (m.routeMailbox a).1.isOk = false)
    (hne : Mem.normAddr a ≠ []) : ∀ mb ∈ m.mailboxes.rows, mb.address ≠ Mem.normAddr a := by
  intro mb hmb haddr
  unfold Mem.routeMailbox at h
  split at h
  · cases h
  · rename_i hnone
    have hmiss := List.find?_eq_none.mp hnone mb hmb
    simp [haddr, hne] at hmiss

def FromMailbox (m : Mem) (msg : Message) : Prop :=
  ∃ mb ∈ m.mailboxes.rows, Mem.normAddr mb.address = Mem.normAddr msg.fromEmail

/-- Neither automated mail nor a daemon, and no support mailbox. -/
structure Answerable (m : Mem) (msg : Message) : Prop where
  notAuto : msg.isAuto = false
  notDaemon : isDaemonSender msg.fromEmail = false
  notMailbox : ¬ FromMailbox m msg

variable (d : Deps) (subj : Subjects) (route : MailboxRoute) (recipient : GoString)
  (msg : Message) (t : Ticket)

def Looks : Prop :=
  let to_ := toLower (trimSpace t.requesterEmail)
  ¬ (route.autoAck = false ∨ d.mailer = false ∨ msg.isAuto ∨ isDaemonSender to_ ∨ ¬ contains to_ "@" ∨
    equalFold to_ recipient)

abbrev ackOut (k : GoString) : OutMail :=
  Inbound.withoutThread (Inbound.ackMail route recipient t (Threading.messageIDOf t.id
    (if Threading.domainOf recipient = [] then d.mailDomain else Threading.domainOf recipient) k))

structure Sendable (m : Mem) : Prop where
  stored : ∃ row ∈ m.tickets.rows, row.tenantID = t.tenantID ∧ row.id = t.id
  mail : ∃ k, Mailer.validate (ackOut d route recipient t k) = true ∧
    ∀ c ∈ m.comments.rows, c.tenantID = t.tenantID → c.messageID ≠ (ackOut d route recipient t k).messageID

variable {d subj route recipient msg t}

omit [LowerLaws] in
theorem acknowledge_of_looks (h : Looks d route recipient msg t) :
    Inbound.acknowledge d subj route recipient msg t =
      .call (.store (.routeMailbox (Mem.normAddr t.requesterEmail))) fun r =>
        if r.isOk then .ret () else Inbound.sendAck d subj route recipient t := by
  rw [Inbound.acknowledge, Inbound.ackSuppressed, if_neg h]
  rfl

omit [LowerLaws] in
theorem acknowledge_of_not_looks (h : ¬ Looks d route recipient msg t) :
    Inbound.acknowledge d subj route recipient msg t = .ret () := by
  rw [Inbound.acknowledge, Inbound.ackSuppressed, if_pos (not_not.mp h)]
  rfl

theorem Looks.guards (h : Looks d route recipient msg t) (ht : t.requesterEmail = msg.fromEmail) :
    msg.isAuto = false ∧ isDaemonSender msg.fromEmail = false := by
  simp only [Looks, not_or, Bool.not_eq_true] at h
  obtain ⟨-, -, hauto, hdaemon, -⟩ := h
  refine ⟨hauto, ?_⟩
  rw [← isDaemonSender_normAddr, ← ht]
  exact hdaemon

theorem Looks.not_mailbox {m : Mem} (h : Looks d route recipient msg t)
    (ht : t.requesterEmail = msg.fromEmail) (hm : Normalised m)
    (hmiss : (m.routeMailbox (Mem.normAddr t.requesterEmail)).1.isOk = false) :
    ¬ FromMailbox m msg := by
  have hne : toLower (trimSpace msg.fromEmail) ≠ [] := by
    intro hnil
    have hdaemon := (h.guards ht).2
    rw [isDaemonSender, hnil] at hdaemon
    cases hdaemon
  have hnorm : Mem.normAddr (Mem.normAddr msg.fromEmail) = Mem.normAddr msg.fromEmail :=
    normAddr_normAddr msg.fromEmail
  rintro ⟨mb, hmb, haddr⟩
  rw [ht] at hmiss
  refine routeMailbox_none hmiss (hnorm.symm ▸ hne) mb hmb ?_
  rw [hnorm, ← haddr, hm mb hmb]

omit [LowerLaws] in
theorem messageID_ne_nil {out : OutMail} (h : Mailer.validate out = true) : out.messageID ≠ [] := by
  intro hnil
  rw [Mailer.validate, hnil] at h
  simp [Mailer.validID] at h

omit [LowerLaws] in
theorem ensures_sendAck (w : World) :
    Ensures step (fun _ => True) (Inbound.sendAck d subj route recipient t)
      (fun _ w' => w'.sent = w.sent ∨ Sendable d route recipient t w.mem) w := by
  intro c _
  show EnsuresWhen step _ (ite (Mailer.validate (ackOut d route recipient t c.newID) = true) _ _) _ w
  by_cases hvalid : Mailer.validate (ackOut d route recipient t c.newID) = true
  · rw [if_pos hvalid]
    intro c' _ c'' _
    cases hfail : c''.fail .createComment with
    | true =>
      rw [step_store_failed (q := .createComment _) hfail]
      exact .inl rfl
    | false =>
      rw [step_store (q := .createComment _) hfail]
      obtain ⟨e, he⟩ | ⟨row, hrow, hten, hid, -, hnew, heq⟩ := createComment_cases c''.now w.mem
        (Inbound.ackComment subj t (ackOut d route recipient t c.newID) c'.newID)
      · dsimp only [performStore, step]
        rw [he]
        exact .inl rfl
      · dsimp only [performStore, step]
        rw [heq]
        refine EnsuresWhen.mono (EnsuresWhen.any _ _) fun _ _ _ => .inr ?_
        exact ⟨⟨row, hrow, hten, hid⟩, c.newID, hvalid, hnew (messageID_ne_nil hvalid)⟩
  · rw [if_neg hvalid]
    exact .inl rfl

omit [LowerLaws] in
theorem sent_store (c : Choice) (q : StoreCall) (w : World) : (step c (.store q) w).2.sent = w.sent := by
  rw [step]
  split_ifs <;> rfl

omit [LowerLaws] in
theorem sent_sendAck {w : World} (cs : ℕ → Choice) {m : Mem}
    (hvalid : Mailer.validate (ackOut d route recipient t (cs 0).newID) = true)
    (hgoes : (cs 2).fail .createComment = false) (htaken : w.mem.createComment (cs 2).now
      (Inbound.ackComment subj t (ackOut d route recipient t (cs 0).newID) (cs 1).newID) = (.ok (), m)) :
    (run step (Inbound.sendAck d subj route recipient t) w cs).state.sent ≠ w.sent := by
  let c := Inbound.ackComment subj t (ackOut d route recipient t (cs 0).newID) (cs 1).newID
  have hstep : step (cs 2) (.store (.createComment c)) w = (.ok (), { w with mem := m }) :=
    step_store_eq (q := .createComment c) hgoes htaken
  show (run step (ite (Mailer.validate (ackOut d route recipient t (cs 0).newID) = true) _ _) w
    fun n => cs (n + 1)).state.sent ≠
    w.sent
  rw [if_pos hvalid]
  show (run step (.call .newID _) w fun n => cs (n + 1)).state.sent ≠ w.sent
  rw [run_call (fun n => cs (n + 1)) rfl]
  refine ne_of_eq_of_ne (congrArg (fun o : Outcome Unit World Choice => o.state.sent)
    (run_call (e := Call.store (.createComment c)) (fun n => cs (n + 2)) hstep)) ?_
  show (step (cs 4) (.store (.setCommentDelivery _ _ _))
    { w with mem := m, sent := w.sent ++ [_] }).2.sent ≠ w.sent
  rw [sent_store]
  exact fun hsame => by simpa using congrArg List.length hsame

omit [LowerLaws] in
theorem sendAck_sends (subj : Subjects) {w : World} (h : Sendable d route recipient t w.mem) :
    ∃ cs, (run step (Inbound.sendAck d subj route recipient t) w cs).state.sent ≠ w.sent := by
  obtain ⟨⟨row, hrow, hten, hid⟩, k, hvalid, hnew⟩ := h
  obtain ⟨id, hfresh⟩ := Infinite.exists_notMem_finset (w.mem.comments.rows.map Comment.id).toFinset
  have hunused : w.mem.comments.get? id = none := by
    refine Table.get?_eq_none.mpr fun c hc heq => hfresh ?_
    exact List.mem_toFinset.mpr (List.mem_map.mpr ⟨c, hc, heq⟩)
  let cs (n : ℕ) : Choice := { newID := if n = 0 then k else id }
  have htaken := createComment_ok (cs 2).now
    (c := Inbound.ackComment subj t (ackOut d route recipient t k) id) hrow hten hid
    hunused fun _ => hnew
  exact ⟨cs, sent_sendAck cs hvalid rfl htaken⟩

/-- The guards fail: the lookup is made and fails, the sender is a support mailbox, and nothing else
stops the mail. -/
structure Loops (failed : Bool) (d : Deps) (route : MailboxRoute) (recipient : GoString)
    (msg : Message) (t : Ticket) (m : Mem) :
    Prop where
  looks : Looks d route recipient msg t
  fails : failed = true
  sender : FromMailbox m msg
  sendable : Sendable d route recipient t m

variable (d subj route recipient)

theorem answerable_iff (ht : t.requesterEmail = msg.fromEmail) {w : World} (hw : Normalised w.mem)
    (failed : Bool) :
    (∀ cs : ℕ → Choice, (cs 0).fail .routeMailbox = failed →
      (run step (Inbound.acknowledge d subj route recipient msg t) w cs).state.sent = w.sent ∨
      Answerable w.mem msg) ↔
      ¬ Loops failed d route recipient msg t w.mem := by
  by_cases hlooks : Looks d route recipient msg t
  · rw [acknowledge_of_looks hlooks]
    constructor
    · rintro hall ⟨-, rfl, hsender, hsendable⟩
      obtain ⟨cs, hsent⟩ := sendAck_sends subj hsendable
      -- the failed lookup comes first
      let cs' (n : ℕ) : Choice := if n = 0 then { fail := fun _ => true } else cs (n - 1)
      rcases hall cs' rfl with hsame | hanswerable
      · exact hsent hsame
      · exact hanswerable.notMailbox hsender
    · intro hnot cs hcs
      by_cases hsender : FromMailbox w.mem msg
      · left
        cases failed with
        | false =>
          have hstep := step_store (q := .routeMailbox (Mem.normAddr t.requesterEmail)) (w := w) hcs
          rw [run_call cs hstep]
          cases hfound : (w.mem.routeMailbox (Mem.normAddr t.requesterEmail)).1.isOk with
          | false => exact absurd hsender (hlooks.not_mailbox ht hw hfound)
          | true =>
            rw [if_pos (by exact hfound)]
            rfl
        | true =>
          have hstep := step_store_failed (q := .routeMailbox (Mem.normAddr t.requesterEmail)) (w := w) hcs
          rw [run_call cs hstep]
          refine ((ensures_sendAck w).run _ fun _ => trivial).resolve_right fun hsendable => ?_
          exact hnot ⟨hlooks, rfl, hsender, hsendable⟩
      · exact .inr ⟨(hlooks.guards ht).1, (hlooks.guards ht).2, hsender⟩
  · rw [acknowledge_of_not_looks hlooks]
    exact ⟨fun _ h => hlooks h.looks, fun _ _ _ => .inl rfl⟩

/-- The same from whatever state earlier operations have left. -/
theorem ack_avoids_loops (ht : t.requesterEmail = msg.fromEmail) (before : Act Unit)
    (cs₀ : ℕ → Choice) {w : World} (hw : w = (run step before {} cs₀).state) (failed : Bool) :
    (∀ cs : ℕ → Choice, (cs 0).fail .routeMailbox = failed →
      (run step (Inbound.acknowledge d subj route recipient msg t) w cs).state.sent = w.sent ∨
      Answerable w.mem msg) ↔
      ¬ Loops failed d route recipient msg t w.mem := by
  refine answerable_iff d subj route recipient ht ?_ failed
  rw [hw]
  exact normalised_run before (fun mb hmb => absurd hmb List.not_mem_nil) cs₀

end Addresses

def ackRoute : MailboxRoute := ⟨"t", "m", [], true, true, []⟩

def helpdeskMail : Message := { messageID := "r", fromEmail := "b@x", text := "hello" }

def helpdeskTicket : Ticket :=
  letI := asciiLibrary
  Inbound.newTicket (systemFor "t") ackRoute "s@x" helpdeskMail "k"

def twoHelpdesks : Act Unit := do
  let _ ← tryAsk (.createMailbox
    { id := "m", tenantID := "t", address := "s@x", active := true, autoAck := true })
  let _ ← tryAsk (.createMailbox { id := "n", tenantID := "u", address := "B@x" })
  let _ ← tryAsk (.createTicket helpdeskTicket)

def openedWorld : World :=
  letI := asciiLibrary
  (run step twoHelpdesks {} fun _ => {}).state

def answeredWorld (msg : Message) (t : Ticket) (cs : ℕ → Choice) : World :=
  letI := asciiLibrary
  (run step (Inbound.acknowledge {} (systemFor "t") ackRoute "s@x" msg t) openedWorld cs).state

-- the lookup fails, nothing else does
def lookupFails (n : ℕ) : Choice :=
  { fail := fun method => n = 0 ∧ method = .routeMailbox, newID := List.replicate n 0x61 }

theorem helpdesk_is_mailbox :
    letI := asciiLibrary
    ∃ mb ∈ openedWorld.mem.mailboxes.rows, Mem.normAddr mb.address =
    Mem.normAddr helpdeskMail.fromEmail := by
  decide +kernel

theorem ack_sent_to_helpdesk :
    letI := asciiLibrary
    openedWorld.sent.length = 0 ∧ (answeredWorld helpdeskMail helpdeskTicket lookupFails).sent.length = 1 ∧
      ∃ mb ∈ openedWorld.mem.mailboxes.rows, Mem.normAddr mb.address =
      Mem.normAddr helpdeskMail.fromEmail := by
  have hbefore : openedWorld.sent.length = 0 := by decide +kernel
  have hafter : (answeredWorld helpdeskMail helpdeskTicket lookupFails).sent.length = 1 := by decide +kernel
  exact ⟨hbefore, hafter, helpdesk_is_mailbox⟩

def customerMail : Message := { messageID := "q", fromEmail := "c@x", text := "hello" }

def customerTicket : Ticket :=
  letI := asciiLibrary
  Inbound.newTicket (systemFor "t") ackRoute "s@x" customerMail "k"

theorem helpdesk_not_answered :
    letI := asciiLibrary
    (∀ cs : ℕ → Choice, (cs 0).fail .routeMailbox = false →
      (answeredWorld helpdeskMail helpdeskTicket cs).sent = openedWorld.sent) ∧
    ∀ cs : ℕ → Choice, (cs 0).fail .routeMailbox = true →
      (answeredWorld customerMail customerTicket cs).sent = openedWorld.sent ∨
      Answerable openedWorld.mem customerMail := by
  let := asciiLibrary
  have := asciiLowerLaws
  have hopened : openedWorld = (run step twoHelpdesks {} fun _ => {}).state := rfl
  have hanswered : ∀ msg t cs, answeredWorld msg t cs =
    (run step (Inbound.acknowledge {} (systemFor "t") ackRoute "s@x" msg t) openedWorld cs).state :=
      fun _ _ _ => rfl
  have hhelpdesk : helpdeskTicket.requesterEmail = helpdeskMail.fromEmail := rfl
  have hcustomer : customerTicket.requesterEmail = customerMail.fromEmail := rfl
  have hno : ¬ FromMailbox openedWorld.mem customerMail := by
    unfold FromMailbox
    decide +kernel
  constructor
  · have hsafe :=
      (ack_avoids_loops {} (systemFor "t") ackRoute "s@x" hhelpdesk twoHelpdesks
        (fun _ => {}) hopened false).mpr
        fun h => Bool.false_ne_true h.fails
    intro cs hcs
    rw [hanswered]
    exact (hsafe cs hcs).resolve_right fun h => h.notMailbox helpdesk_is_mailbox
  · have hsafe :=
      (ack_avoids_loops {} (systemFor "t") ackRoute "s@x" hcustomer twoHelpdesks
        (fun _ => {}) hopened true).mpr
        fun h => hno h.sender
    intro cs hcs
    rw [hanswered]
    exact hsafe cs hcs

end TangraTicket.Services
