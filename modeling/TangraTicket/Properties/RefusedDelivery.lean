import TangraTicket.Services.Custody

/-!
A delivery that is refused leaves the world as it was. Objects are the only things stored before the
ticket or the comment exists, and every way out with an error removes them again.
-/

namespace TangraTicket.Services

open GoText Store KeyedTable CallProgram

def Careful (T : GoString) (w : World) (c : Choice) : Prop :=
  c.deleteFails = false ∧ ∀ ticketID, w.objects.get? (attachmentKey T ticketID c.newID) = none

def Holding (w : World) (keys : List GoString) (w' : World) : Prop :=
  { w' with objects := w.objects } = w ∧ w'.objects.keep (fun o => decide (o.key ∉ keys)) = w.objects

theorem holding_nil (w : World) : Holding w [] w := by
  refine ⟨rfl, Table.ext_rows ?_⟩
  simp [Table.keep]

theorem Holding.eq {w w' : World} (h : Holding w [] w') : w = w' := by
  have hrows : w'.objects.keep (fun o => decide (o.key ∉ ([] : List GoString))) = w'.objects := by
    apply Table.ext_rows
    simp [Table.keep]
  rw [← h.1, ← h.2, hrows]

theorem Holding.put {w w' : World} {keys : List GoString} (h : Holding w keys w') (o : Object)
    (hfresh : w.objects.get? o.key = none) :
    Holding w (keys ++ [o.key]) { w' with objects := w'.objects.put o } := by
  refine ⟨h.1, ?_⟩
  have hput : (w'.objects.put o).keep (fun x => decide (x.key ∉ keys ++ [o.key])) =
      w'.objects.keep fun x => decide (x.key ∉ keys ++ [o.key]) := by
    apply Table.keep_put_other
    · simp
    · intro x _ hx
      simp [hx]
  have hsplit : w'.objects.keep (fun x => decide (x.key ∉ keys ++ [o.key])) =
      w.objects.keep fun x => decide (x.key ≠ o.key) := by
    rw [← h.2]
    apply Table.ext_rows
    simp [Table.keep, List.filter_filter, not_or, and_comm]
  rw [hput, hsplit]
  apply Table.ext_rows
  refine List.filter_eq_self.mpr fun x hx => ?_
  exact decide_eq_true (Table.get?_eq_none.mp hfresh x hx)

theorem Holding.delete {w w' : World} {key : GoString} {keys : List GoString}
    (h : Holding w (key :: keys) w') :
    Holding w keys { w' with objects := w'.objects.keep fun o => o.key ≠ key } := by
  refine ⟨h.1, ?_⟩
  rw [← h.2]
  apply Table.ext_rows
  simp [Table.keep, List.filter_filter, Bool.and_comm]

section Runs

variable [GoLibrary] {T : GoString} {w : World}

theorem ensures_deleteObjects {w' : World} {keys : List GoString} (h : Holding w keys w') :
    Ensures step (Careful T w) (Tickets.deleteObjects keys) (fun _ w' => w = w') w' := by
  induction keys generalizing w' with
  | nil => exact h.eq
  | cons key keys ih =>
    intro c hc
    simp only [step, hc.1, Bool.false_eq_true, if_false]
    exact ih h.delete

def Uploads (w : World) (r : Except Err (List Attachment)) (w' : World) : Prop :=
  match r with
  | .ok staged => Holding w (staged.map Attachment.storageKey) w'
  | .error _ => w = w'

theorem ensures_upload (ticketID : GoString) (atts : List MailAttachment)
    {out : List Attachment} {w' : World} (h : Holding w (out.map Attachment.storageKey) w') :
    Ensures step (Careful T w) (Inbound.upload T ticketID atts out).run (Uploads w) w' := by
  induction atts generalizing out w' with
  | nil => exact h
  | cons a atts ih =>
    refine EnsuresWhen.lift fun c hc => EnsuresWhen.lift fun c' hc' => ?_
    simp only [step]
    cases c'.putFails with
    | true => exact EnsuresWhen.lift ((ensures_deleteObjects h).mono fun _ _ h => h)
    | false =>
      apply ih
      rw [List.map_append]
      exact h.put ⟨_, _, _⟩ (hc.2 ticketID)

def Untouched {α : Type} (w : World) (r : Except Err α) (w' : World) : Prop := ∀ e, r = .error e → w = w'

theorem ensures_refused {Ok : Choice → Prop} {q : StoreCall}
    (hq : ∀ now id m e, (performStore now id m q).1 = .error e → (performStore now id m q).2 = m)
    (w : World) :
    Ensures step Ok (tryAsk q) (fun r w' => ∀ e, r = .error e → w = w') w := by
  intro c _
  cases hf : c.fail q.method with
  | true =>
    rw [step_store_failed hf]
    exact fun _ _ => rfl
  | false =>
    rw [step_store hf]
    intro e he
    simp only [hq _ _ _ e he]

theorem createComment_refused (x : Comment) (now : Time) (id : GoString) (m : Mem) (e : RepoErr)
    (h : (performStore now id m (.createComment x)).1 = .error e) :
    (performStore now id m (.createComment x)).2 = m := by
  obtain ⟨e', he⟩ | ⟨t, -, -, -, -, -, heq⟩ := createComment_cases now m x
  · simp only [performStore, he]
  · simp only [performStore, heq] at h
    cases h

theorem createTicket_refused (t : Ticket) (now : Time) (id : GoString) (m : Mem) (e : RepoErr)
    (h : (performStore now id m (.createTicket t)).1 = .error e) :
    (performStore now id m (.createTicket t)).2 = m := by
  obtain ⟨e', he⟩ | ⟨-, -, heq⟩ := createTicket_cases now m t
  · simp only [performStore, he]
  · simp only [performStore, heq] at h
    cases h

section Delivery

variable (d : Deps) {subj : Subjects} (hT : subj.tenantID = T)

include hT

theorem ensures_reply (ticketID : GoString) (msg : Message) :
    Ensures step (Careful T w) (Inbound.reply d subj ticketID msg).run (Untouched w) w := by
  subst hT
  refine (ensures_upload ticketID msg.attachments (holding_nil w)).andThen (fun staged w' hst => ?_)
    fun e w' h _ _ => h
  refine EnsuresWhen.lift fun c hc =>
    EnsuresWhen.lift ((ensures_refused (createComment_refused _) w').mono ?_)
  rintro (e | _) w'' hw
  · obtain rfl := hw e rfl
    refine EnsuresWhen.lift ((ensures_deleteObjects hst).mono ?_)
    rintro _ _ rfl
    cases e with
    | conflict => exact nofun
    | _ => exact fun _ _ => rfl
  · exact EnsuresWhen.lift ((EnsuresWhen.any _ w'').mono fun _ _ _ => nofun)

theorem ensures_create (route : MailboxRoute) (recipient : GoString) (msg : Message) (plan : Rules.Plan) :
    Ensures step (Careful T w) (Inbound.create d subj route recipient msg plan).run (Untouched w) w := by
  subst hT
  refine EnsuresWhen.lift fun c hc => ?_
  refine (ensures_upload _ msg.attachments (holding_nil w)).andThen (fun staged w' hst => ?_)
    fun e w' h _ _ => h
  refine EnsuresWhen.lift ((ensures_refused (createTicket_refused _) w').mono ?_)
  rintro (e | _) w'' hw
  · obtain rfl := hw e rfl
    refine EnsuresWhen.lift ((ensures_deleteObjects hst).mono ?_)
    rintro _ _ rfl
    split
    · have hfind (x : GoString) : Issues (fun _ _ => True) (Peek subj.tenantID)
          (tryAsk (.findTicketByExternalID subj.tenantID x)) (fun _ => True) := ⟨rfl, fun _ _ => trivial⟩
      refine EnsuresWhen.lift ((ensures_peek w (hfind _)).mono ?_)
      rintro (e' | ex) _ rfl
      · exact fun _ _ => rfl
      · exact nofun
    · exact fun _ _ => rfl
  · exact EnsuresWhen.lift ((EnsuresWhen.any _ w'').mono fun _ _ _ => nofun)

theorem ensures_openNew (route : MailboxRoute) (recipient : GoString) (msg : Message) :
    Ensures step (Careful T w) (Inbound.openNew d subj route recipient msg).run (Untouched w) w := by
  refine EnsuresWhen.lift
    ((ensures_peek w (issues_triagePlan (fun _ he => he) d subj hT recipient msg)).mono ?_)
  rintro plan _ rfl
  split
  · exact nofun
  · exact ensures_create d hT route recipient msg plan

theorem ensures_ingest (route : MailboxRoute) (hroute : route.tenantID = T) (recipient : GoString)
    (msg : Message) :
    Ensures step (Careful T w) (Inbound.ingest d subj route recipient msg).run (Untouched w) w := by
  have hnew := ensures_openNew (w := w) d hT route recipient msg
  unfold Inbound.ingest
  rw [hroute]
  refine (ensures_peek w (issues_duplicate (fun _ he => he) msg.messageID)).andThen ?_ fun e _ hw _ _ => hw
  rintro (_ | id) _ rfl
  · refine EnsuresWhen.lift ((ensures_peek w (issues_resolve (fun _ he => he) _ _ _)).mono ?_)
    rintro (e | _ | found) _ rfl
    · exact fun _ _ => rfl
    · exact hnew
    · dsimp only
      split
      · exact hnew
      · refine EnsuresWhen.lift ((ensures_reply d hT found.ticketID msg).mono ?_)
        rintro (e | receipt) w' hw
        · obtain rfl := hw e rfl
          cases e with
          | ticketGone => exact hnew
          | _ => exact fun _ _ => rfl
        · exact nofun
  · exact nofun

end Delivery

end Runs

/-- A delivery that ends in an error leaves rows, objects and the outbox as they were; a retry
starts from the same world as the first delivery. -/
theorem refused_leaves_no_trace [GoLibrary] (d : Deps) (w : World) (route : MailboxRoute)
    (recipient : GoString) (msg : Message) (cs : ℕ → Choice) (hdeletes : ∀ n, (cs n).deleteFails = false)
    (hfresh : ∀ n ticketID, w.objects.get? (attachmentKey route.tenantID ticketID (cs n).newID) =
      none) (e : Err)
    (hrefused : (run step (Inbound.ingest d (systemFor route.tenantID) route recipient msg).run w
      cs).value = .error e) :
    (run step (Inbound.ingest d (systemFor route.tenantID) route recipient msg).run w cs).state = w := by
  have hsubj : (systemFor route.tenantID).tenantID = route.tenantID := rfl
  have hrun := Ensures.run (ensures_ingest d hsubj route rfl recipient msg) cs fun n =>
    ⟨hdeletes n, hfresh n⟩
  exact (hrun e hrefused).symm

def photo : MailAttachment := ⟨"a.png", "image/png", [], false, "bytes"⟩

def photoMail : Message := { messageID := "m", fromEmail := "r@x", attachments := [photo] }

def mailRoute : MailboxRoute := ⟨"t", [], [], true, false, []⟩

theorem refused_leaves_no_trace_upload :
    letI := asciiLibrary
    let cs : ℕ → Choice := fun _ => { newID := "n", fail := fun μ => μ = .createTicket }
    (run step (Inbound.ingest {} (systemFor mailRoute.tenantID) mailRoute "s@x" photoMail).run
      {} cs).state = {} := by
  let := asciiLibrary
  exact refused_leaves_no_trace {} {} mailRoute "s@x" photoMail _ (fun _ => rfl) (fun _ _ => rfl)
    (.retry (.repo .failure)) rfl

end TangraTicket.Services
