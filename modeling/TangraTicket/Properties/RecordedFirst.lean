import TangraTicket.Properties.SingleAck

/-!
Mail that is recorded before it is sent. A public reply and an acknowledgement insert the comment
with the Message-ID of their mail, and only then hand the mail to the relay.
-/

namespace TangraTicket.Services

open GoText Store KeyedTable CallProgram

/-- What may run side by side: replies, deliveries, and any other program at all. -/
inductive Correspondent
  | reply (subj : Subjects) (ticketID body : GoString)
  | delivery (route : MailboxRoute) (recipient : GoString) (msg : Message)
  | other (p : Act Unit)

/-- A reply returns its result. -/
def Correspondent.act [GoLibrary] (d : Deps) : Correspondent → Act (Option (Except Err Comment))
  | .reply subj ticketID body => (Comments.reply d subj ticketID body).run >>= fun r => pure (some r)
  | .delivery route recipient msg =>
    finish (Inbound.ingest d (systemFor route.tenantID) route recipient msg) >>= fun _ => pure none
  | .other p => p >>= fun _ => pure none

def StoredComment (log : Log) (c : Comment) : Prop :=
  (⟨.store (.createComment c), .ok ()⟩ : Event Call Answer) ∈ log

def Correspondent.Concerns : Correspondent → Log → Comment → Prop
  | .reply subj ticketID _, _, c => c.tenantID = subj.tenantID ∧ c.ticketID = ticketID
  | .delivery .., log, c =>
    ∃ t, (⟨.store (.createTicket t), .ok ()⟩ : Event Call Answer) ∈ log ∧ c.tenantID = t.tenantID ∧
      c.ticketID = t.id
  | .other _, _, _ => True

def Correspondent.Records (x : Correspondent) (log : Log) (mail : OutMail) : Prop :=
  ∃ c, StoredComment log c ∧ x.Concerns log c ∧ c.messageID = mail.messageID

def Correspondent.IsOther (x : Correspondent) : Prop := ∃ p, x = .other p

def Correspondent.Contract (x : Correspondent) (log : Log) : Call → Prop
  | .send mail => x.IsOther ∨ mailed log = [] ∧ x.Records log mail
  | _ => True

/-- What the result of a reply tells of its calls. -/
def Tells (log : Log) : Option (Except Err Comment) → Prop
  | none => True
  | some (.ok _) => ∃ mail, (⟨.send mail, .ok ()⟩ : Event Call Answer) ∈ log
  | some (.error e) => (∃ c, e = .deliveryFailed c) ∨ mailed log = [] ∧ ∀ c, ¬ StoredComment log c

def Wordless : Call → Prop
  | .send _ | .store (.createComment _) => False
  | _ => True

theorem Wordless.contract {x : Correspondent} {log : Log} {e : Call} (h : Wordless e) :
    x.Contract log e := by
  cases e with
  | send => exact h.elim
  | _ => trivial

theorem silent_of_wordless {l : Log} (h : ∀ x ∈ l, Wordless x.call) :
    mailed l = [] ∧ ∀ c, ¬ StoredComment l c := by
  constructor
  · refine List.filterMap_eq_nil_iff.mpr fun x hx => ?_
    have hw := h x hx
    split
    · rename_i mail hsend
      rw [hsend] at hw
      exact hw.elim
    · rfl
  · intro c hc
    exact h _ hc

theorem Mute.contract {x : Correspondent} {log : Log} {e : Call} (h : Mute e) : x.Contract log e := by
  cases e with
  | send => exact h.elim
  | _ => trivial

section Reply

variable {A : (e : Call) → Answer e → Prop} {x : Correspondent} {log : Log} (d : Deps) (subj : Subjects)

theorem obeys_wordless {α : Type} {p : Act α} {Q : α → Prop} (hp : Issues A Wordless p Q)
    (hlog : ∀ y ∈ log, Wordless y.call) :
    Obeys A x.Contract (fun l a => Q a ∧ ∀ y ∈ l, Wordless y.call) log p := by
  refine Obeys.mono (p := p) (hp.obeys fun _ _ _ => Wordless.contract) ?_
  rintro _ a ⟨ha, l, rfl, hl⟩
  exact ⟨ha, List.forall_mem_append.mpr ⟨hlog, hl⟩⟩

theorem mute_reopen (t : Ticket) : Issues A Mute (Comments.reopen d subj t) (fun _ => True) := by
  unfold Comments.reopen
  split
  · exact Issues.bind ((issues_setStatusAs Routine.mute d subj _ _ _).mono fun _ _ => trivial)
  · trivial

theorem mute_commented (T ticketID : GoString) :
    Issues A Mute (Comments.commented d subj T ticketID) (fun _ => True) := by
  refine Issues.bind ⟨trivial, ?_⟩
  rintro (e | t) -
  · trivial
  · exact issues_emit d (fun _ => trivial) _ _ t _

theorem tells_refused (hlog : ∀ y ∈ log, Wordless y.call) (e : Err) : Tells log (some (.error e)) :=
  .inr (silent_of_wordless hlog)

variable [GoLibrary]
  (hA : ∀ ten id t, A (.store (.getTicket ten id)) (.ok t) → Ticket.tenantID t = ten ∧ Ticket.id t = id)

include hA

theorem obeys_reply (ticketID body : GoString) :
    Obeys A (Correspondent.reply subj ticketID body).Contract (fun l r => Tells l (some r)) []
      (Comments.reply d subj ticketID body).run := by
  unfold Comments.reply
  cases htenant : tenantOf subj with
  | error e => exact tells_refused (List.forall_mem_nil _) e
  | ok T =>
  have hT : T = subj.tenantID := by
    unfold tenantOf at htenant
    split at htenant
    · cases htenant
    · exact (Except.ok.inj htenant).symm
  cases Comments.cleanBody body with
  | error e => exact tells_refused (List.forall_mem_nil _) e
  | ok text =>
  refine ⟨trivial, fun r hr => ?_⟩
  have hget : ∀ y ∈ [(⟨.store (.getTicket T ticketID), r⟩ : Event Call Answer)],
    Wordless y.call := by simp [Wordless]
  rcases r with e | t
  · exact tells_refused hget _
  obtain ⟨-, hid⟩ := hA _ _ _ hr
  refine Obeys.andThen (obeys_wordless (issues_compose d (fun _ => trivial) trivial trivial text) hget) ?_
    fun l e hl => tells_refused hl.2 e
  rintro l out ⟨-, hl⟩
  refine Obeys.lift ⟨trivial, fun id _ => ?_⟩
  refine Obeys.lift (Obeys.mono (obeys_wordless (issues_author d subj (fun _ _ => trivial) _)
    (List.forall_mem_append.mpr ⟨hl, by simp [Wordless]⟩)) ?_)
  rintro l c ⟨⟨hten, -, htid, hmsg⟩, hl⟩
  obtain ⟨hmailed, hstored⟩ := silent_of_wordless hl
  refine ⟨trivial, fun r _ => ?_⟩
  rcases r with e | u
  · -- the comment was refused: nothing is stored and nothing goes out
    refine .inr ⟨?_, fun c' hc' => ?_⟩
    · rw [mailed_append, hmailed]
      rfl
    · rcases List.mem_append.mp hc' with hold | hnew
      · exact hstored c' hold
      · cases List.mem_singleton.mp hnew
  refine Obeys.lift ⟨.inr ⟨?_, c, ?_, ⟨?_, ?_⟩, hmsg⟩, fun sent _ => ?_⟩
  · rw [mailed_append, hmailed]
    rfl
  · exact List.mem_append_right l (List.mem_singleton_self _)
  · exact hten.trans hT
  · exact htid.trans hid
  refine Obeys.lift ⟨trivial, fun _ _ => Obeys.lift ⟨trivial, fun stored _ => ?_⟩⟩
  have hmute : ∀ l e, Mute e → (Correspondent.reply subj ticketID body).Contract l e :=
    fun _ _ => Mute.contract
  cases sent with
  | ok u' =>
    refine Obeys.lift (Obeys.mono (obeys_mute hmute (mute_reopen d subj t) _) ?_)
    rintro _ _ ⟨-, l₁, rfl, -⟩
    refine Obeys.lift (Obeys.mono (obeys_mute hmute (mute_commented d subj T t.id) _) ?_)
    rintro _ _ ⟨-, l₂, rfl, -⟩
    exact ⟨out, by simp⟩
  | error u' =>
    refine Obeys.lift (Obeys.mono (obeys_mute hmute (mute_commented d subj T t.id) _) ?_)
    exact fun _ _ _ => .inl ⟨_, rfl⟩

end Reply

section Acknowledgement

variable {A : (e : Call) → Answer e → Prop} {log : Log} [GoLibrary] (d : Deps) (route : MailboxRoute)
  (recipient : GoString) (msg : Message)

theorem recorded_acknowledge (subj : Subjects) {t t' : Ticket}
    (hopened : (⟨.store (.createTicket t), .ok ()⟩ : Event Call Answer) ∈ log)
    (hten : t'.tenantID = t.tenantID) (hid : t'.id = t.id) (hlog : mailed log = []) :
    Obeys A (Correspondent.delivery route recipient msg).Contract (fun _ _ => True) log
      (Inbound.acknowledge d subj route recipient msg t') := by
  refine obeys_acknowledge (fun _ _ => Mute.contract) d subj route recipient msg t'
    fun l out id hl => .inr ⟨?_, ?_⟩
  · rw [mailed_append, mailed_append, hlog, mailed_mute hl]
    rfl
  · refine ⟨Inbound.ackComment subj t' out id, ?_, ⟨t, List.mem_append_left _ hopened, hten, hid⟩, rfl⟩
    exact List.mem_append_right _ (List.mem_append_right _ (List.mem_singleton_self _))

theorem obeys_delivery
    (hA : ∀ ten id t, A (.store (.getTicket ten id)) (.ok t) → Ticket.tenantID t = ten ∧ Ticket.id t = id) :
    Obeys A (Correspondent.delivery route recipient msg).Contract (fun _ _ => True) []
      (Inbound.ingest d (systemFor route.tenantID) route recipient msg).run := by
  refine obeys_ingest (fun _ _ => Mute.contract) d _ route recipient msg hA rfl fun l t hl _ _ => ?_
  refine ⟨trivial, fun l' t' hl' hten hid => recorded_acknowledge d route recipient msg _ ?_ hten hid ?_⟩
  · simp
  · rw [List.append_cons, mailed_append, mailed_append, mailed_append, mailed_mute hl, mailed_mute hl']
    rfl

end Acknowledgement

/-- The mail of a correspondent: each was recorded before, and there is one at most. -/
structure Correspondent.Kept (x : Correspondent) (log : Log) : Prop where
  recorded : ∀ before mail sent after, log = before ++ ⟨.send mail, sent⟩ :: after → x.Records before mail
  once : (mailed log).length ≤ 1

theorem Correspondent.Kept.snoc {x : Correspondent} {log : Log} {e : Call} (h : x.Kept log)
    (hx : ¬ x.IsOther) (he : x.Contract log e) (r : Answer e) : x.Kept (log ++ [⟨e, r⟩]) := by
  constructor
  · intro before mail sent after hlog
    rcases List.eq_nil_or_concat after with rfl | ⟨after', y, rfl⟩
    · obtain ⟨rfl, hlast⟩ := List.append_inj' hlog rfl
      cases hlast
      exact (he.resolve_left hx).2
    · rw [List.concat_eq_append, ← List.cons_append, ← List.append_assoc] at hlog
      exact h.recorded before mail sent after' (List.append_inj' hlog rfl).1
  · rw [mailed_append, List.length_append]
    cases e with
    | send mail =>
      rw [(he.resolve_left hx).1]
      exact le_rfl
    | _ => exact h.once

section Runs

variable {ι : Type} [DecidableEq ι] [GoLibrary] (d : Deps) (xs : ι → Correspondent)

theorem Correspondent.obeys_act (x : Correspondent) :
    Obeys (Honest fun _ => True) x.Contract Tells [] (x.act d) := by
  cases x with
  | reply subj ticketID body =>
    exact Obeys.bind (Obeys.mono (obeys_reply d subj (fun _ _ _ h => h) ticketID body) fun _ _ h => h)
  | delivery route recipient msg =>
    exact Obeys.bind (Obeys.bind (Obeys.mono (obeys_delivery d route recipient msg fun _ _ _ h => h)
      fun _ _ _ => trivial))
  | other p =>
    refine Obeys.bind (Obeys.mono (Obeys.weaken (Obeys.any p []) ?_) fun _ _ _ => trivial)
    intro l e _
    cases e with
    | send mail => exact .inl ⟨p, rfl⟩
    | _ => trivial

/-- Whatever fails and whatever else runs: a reply and a delivery have stored the comment with the
Message-ID of a mail, on the ticket it is about, before the mail goes out, and send one mail at
most; a reply that returns an error other than a failed delivery has stored and sent nothing, and
one that returns no error was taken by the relay. -/
theorem recorded_before_sent {w : World} {cfg : Config ι Call Answer (Option (Except Err Comment)) World}
    (h : Reaches step (fun _ _ _ => True) (Config.start w fun i => (xs i).act d) cfg) (i : ι)
    (hi : ¬ (xs i).IsOther) :
    (xs i).Kept (cfg.threads i).log ∧
      ∀ r, (cfg.threads i).prog = .ret r → Tells (cfg.threads i).log r := by
  have hstart : ∀ i, ¬ (xs i).IsOther → (xs i).Kept [] :=
    fun i _ => ⟨fun before mail sent after hlog => by simp at hlog, Nat.zero_le _⟩
  obtain ⟨hkept, hobeys⟩ :=
    h.guarded (I := fun cfg => ∀ i, ¬ (xs i).IsOther → (xs i).Kept (cfg.threads i).log)
    hstart (fun i => (xs i).obeys_act d) (by
      intro cfg j c e k hI _ _ he
      refine ⟨honest_step trivial e cfg.state, fun i hi => ?_⟩
      rw [Config.log_answered]
      split
      · rename_i hij
        subst hij
        exact (hI i hi).snoc hi he _
      · rw [List.append_nil]
        exact hI i hi)
  refine ⟨hkept i hi, fun r hr => ?_⟩
  have hret := hobeys i
  rwa [hr] at hret

end Runs

def answerable : World :=
  { mem :=
      { tickets := Table.empty.put
          { id := "n", tenantID := "t", requesterEmail := "a@x", status := .open }
        mailboxes := Table.empty.put
          { id := "m", tenantID := "t", address := "s@x", active := true } } }

def replyAndDelete (d : Deps) : Bool → Correspondent
  | true => .reply ⟨"t", "u", [], .agent⟩ "n" "b"
  | false => .other (finish (Comments.delete d ⟨"t", "u", [], .agent⟩ "c"))

def deletedFirst : Config Bool Call Answer (Option (Except Err Comment)) World :=
  letI := asciiLibrary
  (Config.start answerable fun i => (replyAndDelete {} i).act {}).schedule step
    (List.replicate 6 (true, { newID := "c" }) ++ List.replicate 2 (false, { newID := "c" }) ++
      List.replicate 5 (true, { newID := "c" }))

theorem recorded_before_sent_deleted :
    letI := asciiLibrary
    (mailed (deletedFirst.threads true).log).length = 1 ∧ deletedFirst.state.mem.comments.rows = [] ∧
      (replyAndDelete {} true).Kept (deletedFirst.threads true).log := by
  let := asciiLibrary
  refine ⟨by decide +kernel, by decide +kernel, ?_⟩
  have hreach : Reaches step (fun _ _ _ => True) (Config.start answerable fun i =>
      (replyAndDelete {} i).act {})
      deletedFirst := Reaches.refl.schedule _ (Config.along_of_mem (fun _ _ _ => trivial) _)
  exact (recorded_before_sent {} (replyAndDelete {}) hreach true fun ⟨_, h⟩ => by cases h).1

end TangraTicket.Services
