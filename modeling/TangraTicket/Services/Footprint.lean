import TangraTicket.Services.Comments
import TangraTicket.Services.Inbound

/-!
The calls of the services that stay within one tenant and leave the recorded fields of its tickets,
and their history, alone.
-/

namespace TangraTicket.Services

open GoText Store CallProgram

/-- What the world's answers keep to: a row is of the tenant it was asked for, a minted id is in the
supply `F`. -/
def Honest (F : GoString → Prop) : (e : Call) → Answer e → Prop
  | .newID, id => F id
  | .store (.getTicket ten id), .ok t => Ticket.tenantID t = ten ∧ Ticket.id t = id
  | .store (.updateTicket ten id ..), .ok t => Ticket.tenantID t = ten ∧ Ticket.id t = id
  | .store (.setAssignee ten id ..), .ok t => Ticket.tenantID t = ten ∧ Ticket.id t = id
  | .store (.setStatus ten id ..), .ok t => Ticket.tenantID t = ten ∧ Ticket.id t = id
  | _, _ => True

def Staged (T : GoString) (F : GoString → Prop) (a : Attachment) : Prop :=
  a.tenantID = T ∧ F a.id ∧ ∃ tid, a.storageKey = attachmentKey T tid a.id

/-- The calls within tenant `T` that write no recorded field and no history; new rows take their ids
from `F`. -/
def Quiet (T : GoString) (F : GoString → Prop) : Call → Prop
  | .store (.getTicket ten _) | .store (.findTicketByExternalID ten _) | .store (.getComment ten _)
  | .store (.findCommentByMessageID ten _) | .store (.listAttachments ten _)
  | .store (.tagsForTickets ten _)
  | .store (.listEnabledRules ten) | .store (.getMailbox ten _) | .store (.listMailboxes ten)
  | .store (.setCommentDelivery ten _ _) | .store (.ensureTagByName ten _ _)
  | .store (.addTicketTags ten _ _) =>
    ten = T
  | .store (.createComment c) => c.tenantID = T ∧ F c.id
  | .store (.createAttachment a) => Staged T F a
  | .store (.routeMailbox _) => True
  | .store _ => False
  | _ => True

abbrev Quietly {α : Type} (T : GoString) (F : GoString → Prop) (p : Act α) (Q : α → Prop) : Prop :=
  Issues (Honest F) (Quiet T F) p Q

theorem Issues.ask {β : Type} {A : (e : Call) → Answer e → Prop} {G : Call → Prop} {Q : Except Err β → Prop}
    {q : StoreCall} {g : RepoErr → Err} {f : q.Value → Attempt β} (hq : G (.store q))
    (hok : ∀ v, A (.store q) (.ok v) → Issues A G (f v).run Q) (herr : ∀ e, Q (.error e)) :
    Issues A G (ask q g >>= f).run Q := by
  refine ((wp_tryBind _ _ f Q).trans (wp_ask _ q g _)).mpr ⟨hq, ?_⟩
  rintro (e | v) hr
  · exact herr (g e)
  · exact hok v hr

section Small

variable {A : (e : Call) → Answer e → Prop} {G : Call → Prop} (d : Deps)

theorem issues_emit (hp : ∀ event, G (.publish event)) (T : GoString) (type : EventType)
    (t : Ticket) (k : ActorKind) :
    Issues A G (emit d T type t k) (fun _ => True) := by
  unfold emit
  split
  · exact ⟨hp _, fun _ _ => trivial⟩
  · trivial

theorem issues_author (subj : Subjects) (hl : ∀ T id, G (.lookup T id)) (c : Comment) :
    Issues A G (Comments.author d subj c) (fun c' => c'.tenantID = c.tenantID ∧ c'.id = c.id ∧
      c'.ticketID = c.ticketID ∧ c'.messageID = c.messageID) := by
  unfold Comments.author
  split
  · split
    · refine Issues.bind ⟨hl _ _, ?_⟩
      rintro (e | u) - <;> exact ⟨rfl, rfl, rfl, rfl⟩
    · exact ⟨rfl, rfl, rfl, rfl⟩
  · exact ⟨rfl, rfl, rfl, rfl⟩

theorem issues_sender {t : Ticket} (hget : ∀ id, G (.store (.getMailbox t.tenantID id)))
    (hlist : G (.store (.listMailboxes t.tenantID))) :
    Issues A G (Comments.sender t).run (fun _ => True) := by
  have hown : Issues A G (Comments.ownMailbox t).run (fun _ => True) := by
    unfold Comments.ownMailbox
    split
    · trivial
    · refine Issues.lift ⟨hget _, ?_⟩
      rintro (e | mb) -
      · cases e <;> trivial
      · trivial
  refine hown.andThen ?_ fun _ => trivial
  rintro (_ | mb) -
  · refine Issues.ask hlist (fun list _ => ?_) fun _ => trivial
    split <;> trivial
  · trivial

theorem issues_messageID [GoLibrary] (hnew : G .newID) (ticketID domain : GoString) :
    Issues A G (Threading.messageID ticketID domain) (fun _ => True) := ⟨hnew, fun _ _ => trivial⟩

theorem issues_compose [GoLibrary] {t : Ticket} (hget : ∀ id, G (.store (.getMailbox t.tenantID id)))
    (hlist : G (.store (.listMailboxes t.tenantID))) (hnew : G .newID) (body : GoString) :
    Issues A G (Comments.compose d t body).run (fun _ => True) := by
  unfold Comments.compose
  split
  · trivial
  · split
    · refine (issues_sender hget hlist).andThen (fun mb _ => ?_) fun _ => trivial
      refine Issues.lift ((issues_messageID hnew _ _).mono fun id _ => ?_)
      dsimp only
      split <;> trivial
    · trivial

theorem issues_announce (hp : ∀ event, G (.publish event)) (T : GoString) (w : FieldWrite) (t : Ticket)
    (k : ActorKind) : Issues A G (Tickets.announce d T w t k) (fun _ => True) := by
  unfold Tickets.announce
  split
  · exact issues_emit d hp T _ t k
  · trivial

theorem issues_deleteObjects {keys : List GoString} (h : ∀ k ∈ keys, G (.deleteObject k)) :
    Issues A G (Tickets.deleteObjects keys) (fun _ => True) := by
  induction keys with
  | nil => trivial
  | cons k ks ih =>
    exact ⟨h k List.mem_cons_self, fun _ _ => ih fun k' hk' => h k' (List.mem_cons_of_mem k hk')⟩

theorem issues_upload (hnew : G .newID) (hput : ∀ k data type, G (.putObject k data type))
    (hdelete : ∀ k, G (.deleteObject k)) (T ticketID : GoString) (atts : List MailAttachment)
    (out : List Attachment) :
    Issues A G (Inbound.upload T ticketID atts out).run (fun _ => True) := by
  induction atts generalizing out with
  | nil => trivial
  | cons a as ih =>
    refine Issues.lift ⟨hnew, fun id _ => Issues.lift ⟨hput _ _ _, ?_⟩⟩
    rintro (_ | sum) -
    · exact Issues.lift ((issues_deleteObjects fun k _ => hdelete k).mono fun _ _ => trivial)
    · exact ih _

theorem issues_record (hrow : ∀ a, G (.store (.createAttachment a))) (hdelete : ∀ k, G (.deleteObject k))
    (commentID : GoString) (st : List Attachment) :
    Issues A G (Inbound.record commentID st) (fun _ => True) := by
  induction st with
  | nil => trivial
  | cons a as ih =>
    refine Issues.bind ⟨hrow _, ?_⟩
    rintro (_ | _) -
    · exact Issues.bind ((issues_deleteObjects fun k _ => hdelete k).mono fun _ _ => ih)
    · exact ih

theorem issues_ackSuppressed [GoLibrary] (hroute : ∀ a, G (.store (.routeMailbox a))) (route : MailboxRoute)
    (recipient : GoString) (msg : Message) (t : Ticket) :
    Issues A G (Inbound.ackSuppressed d route recipient msg t) (fun _ => True) := by
  unfold Inbound.ackSuppressed
  dsimp only
  split
  · trivial
  · exact ⟨hroute _, fun _ _ => trivial⟩

theorem issues_acknowledge [GoLibrary] (subj : Subjects) (route : MailboxRoute)
    (recipient : GoString) (msg : Message) {t : Ticket} (hroute : ∀ a, G (.store (.routeMailbox a)))
    (hnew : G .newID) (hcomment : ∀ out id, A .newID id →
      G (.store (.createComment (Inbound.ackComment subj t out id))))
    (hsend : ∀ out, G (.send out))
    (hdelivery : ∀ id dl, G (.store (.setCommentDelivery t.tenantID id dl))) :
    Issues A G (Inbound.acknowledge d subj route recipient msg t) (fun _ => True) := by
  refine Issues.bind ((issues_ackSuppressed d hroute route recipient msg t).mono fun suppressed _ => ?_)
  split
  · trivial
  · refine Issues.bind ((issues_messageID hnew _ _).mono fun messageID _ => ?_)
    dsimp only
    split
    · refine Issues.bind ⟨hnew, fun id hid => Issues.bind ⟨hcomment _ id hid, ?_⟩⟩
      rintro (e | _) -
      · trivial
      · exact ⟨hsend _, fun _ _ => ⟨hdelivery _ _, fun _ _ => trivial⟩⟩
    · trivial

theorem issues_view (t : Ticket) (full : Bool) (htags : G (.store (.tagsForTickets t.tenantID [t.id])))
    (hatts : G (.store (.listAttachments t.tenantID t.id))) :
    Issues A G (Tickets.view t full).run (fun _ => True) := by
  refine Issues.ask htags (fun tags _ => ?_) (fun _ => trivial)
  cases full with
  | false => trivial
  | true => exact Issues.ask hatts (fun _ _ => trivial) (fun _ => trivial)

theorem issues_chosenAssignee (ten userID : GoString) (hl : G (.lookup ten userID)) :
    Issues A G (Tickets.chosenAssignee d ten userID).run (fun _ => True) := by
  unfold Tickets.chosenAssignee Tickets.resolveAssignee
  split
  · trivial
  · split
    · refine Issues.lift ⟨hl, ?_⟩
      rintro (e | u) -
      · cases e <;> trivial
      · trivial
    · trivial

end Small

/-- The calls of tenant `T` that only look. -/
def Peek (T : GoString) : Call → Prop
  | .store (.getTicket ten _) | .store (.findTicketByExternalID ten _)
  | .store (.findCommentByMessageID ten _)
  | .store (.listEnabledRules ten) => ten = T
  | .newID | .now | .lookup .. | .evaluate .. => True
  | _ => False

section Peeking

variable {A : (e : Call) → Answer e → Prop} {G : Call → Prop} {T : GoString}
  (hG : ∀ e, Peek T e → G e) (d : Deps)
  (subj : Subjects)

theorem issues_firstFound {α β : Type} (lookup : α → Act (Except RepoErr β))
    (hl : ∀ a, Issues A G (lookup a) (fun _ => True)) (xs : List α) :
    Issues A G (Threading.firstFound lookup xs).run (fun _ => True) := by
  induction xs with
  | nil => trivial
  | cons x xs ih =>
    refine Issues.lift ((hl x).mono ?_)
    rintro (e | b) -
    · cases e with
      | notFound => exact ih
      | _ => trivial
    · trivial

include hG

theorem issues_resolve (ids : List GoString) (text subject : GoString) :
    Issues A G (Threading.resolve T ids text subject).run (fun _ => True) := by
  unfold Threading.resolve
  split
  · trivial
  · have hcomment := issues_firstFound (A := A) (fun id => tryAsk (.findCommentByMessageID T id))
      (fun id => ⟨hG (.store (.findCommentByMessageID T id)) rfl, fun _ _ => trivial⟩) ids
    have hticket := issues_firstFound (A := A) (fun id => tryAsk (.findTicketByExternalID T id))
      (fun id => ⟨hG (.store (.findTicketByExternalID T id)) rfl, fun _ _ => trivial⟩) ids
    refine hcomment.andThen ?_ fun _ => trivial
    rintro (_ | c) -
    · refine hticket.andThen ?_ fun _ => trivial
      rintro (_ | t) -
      · apply issues_firstFound
        exact fun c => ⟨hG (.store (.getTicket T (Threading.parseToken c.1))) rfl, fun _ _ => trivial⟩
      · trivial
    · trivial

theorem issues_duplicate (msgID : GoString) :
    Issues A G (Inbound.duplicate T msgID).run (fun _ => True) := by
  unfold Inbound.duplicate
  split
  · trivial
  · refine Issues.lift ⟨hG (.store (.findCommentByMessageID T msgID)) rfl, ?_⟩
    rintro (e | c) -
    · cases e with
      | notFound =>
        refine Issues.lift ⟨hG (.store (.findTicketByExternalID T msgID)) rfl, ?_⟩
        rintro (e | t) -
        · cases e <;> trivial
        · trivial
      | _ => trivial
    · trivial

theorem issues_decideAll [GoLibrary] (email : Email) (rules : List Rule) (dec : Rules.Decision) :
    Issues A G (Rules.decideAll email rules dec) (fun _ => True) := by
  induction rules generalizing dec with
  | nil => trivial
  | cons r rs ih =>
    refine Issues.bind ⟨hG (.evaluate r email) trivial, ?_⟩
    rintro (e | b) -
    · exact ih _
    · cases b
      · exact ih dec
      · exact ih (Rules.merge dec r)

theorem issues_evaluate [GoLibrary] (hT : subj.tenantID = T) (msg : Message) (recipient : GoString) :
    Issues A G (Rules.evaluate d subj msg recipient).run (fun _ => True) := by
  unfold Rules.evaluate
  split
  · trivial
  · rw [hT]
    have hdecide : Issues A G (Rules.decide d T (Rules.emailOf msg recipient)).run (fun _ => True) := by
      refine Issues.ask (hG (.store (.listEnabledRules T)) rfl) (fun rules _ => ?_) fun _ => trivial
      exact (wp_lift _ _ _).mpr (issues_decideAll hG _ _ _)
    refine hdecide.andThen (fun dec _ => ?_) fun _ => trivial
    split
    · trivial
    · split <;> trivial

theorem issues_triagePlan [GoLibrary] (hT : subj.tenantID = T) (recipient : GoString) (msg : Message) :
    Issues A G (Inbound.triagePlan d subj recipient msg) (fun _ => True) := by
  unfold Inbound.triagePlan
  split
  · refine Issues.bind ((issues_evaluate hG d subj hT msg recipient).mono ?_)
    rintro (e | p) - <;> trivial
  · trivial

end Peeking

section Quiet

variable {T : GoString} {F : GoString → Prop} (d : Deps) (subj : Subjects)

theorem quiet_ofExcept {α : Type} (x : Except Err α) : Quietly T F (ofExcept x).run (fun r => r = x) := rfl

theorem quiet_tenantOf {subj : Subjects} (hT : subj.tenantID = T) :
    Quietly T F (ofExcept (tenantOf subj)).run (fun r => ∀ ten, r = .ok ten → ten = T) := by
  unfold tenantOf
  split
  · rintro ten ⟨⟩
  · rintro ten ⟨⟩
    exact hT

theorem quiet_emit (type : EventType) (t : Ticket) (k : ActorKind) :
    Quietly T F (emit d T type t k) (fun _ => True) := issues_emit d (fun _ => trivial) T type t k

theorem quiet_announce (w : FieldWrite) (t : Ticket) (k : ActorKind) :
    Quietly T F (Tickets.announce d T w t k) (fun _ => True) := issues_announce d (fun _ => trivial) T w t k

theorem quiet_view {t : Ticket} (ht : t.tenantID = T) (full : Bool) :
    Quietly T F (Tickets.view t full).run (fun _ => True) := issues_view t full ht ht

theorem quiet_chosenAssignee (ten userID : GoString) :
    Quietly T F (Tickets.chosenAssignee d ten userID).run (fun _ => True) :=
  issues_chosenAssignee d ten userID trivial

theorem quiet_deleteObjects (keys : List GoString) :
    Quietly T F (Tickets.deleteObjects keys) (fun _ => True) :=
  issues_deleteObjects fun _ _ => trivial

theorem quiet_of_peek (e : Call) (h : Peek T e) : Quiet T F e := by
  cases e with
  | store q => cases q <;> first | exact h | cases h
  | _ => trivial

theorem quiet_resolve (ids : List GoString) (text subject : GoString) :
    Quietly T F (Threading.resolve T ids text subject).run (fun _ => True) :=
  issues_resolve quiet_of_peek ids text subject

theorem quiet_duplicate (msgID : GoString) : Quietly T F (Inbound.duplicate T msgID).run (fun _ => True) :=
  issues_duplicate quiet_of_peek msgID

theorem quiet_triagePlan [GoLibrary] (hT : subj.tenantID = T) (recipient : GoString) (msg : Message) :
    Quietly T F (Inbound.triagePlan d subj recipient msg) (fun _ => True) :=
  issues_triagePlan quiet_of_peek d subj hT recipient msg

theorem quiet_author (c : Comment) :
    Quietly T F (Comments.author d subj c) (fun c' => c'.tenantID = c.tenantID ∧ c'.id = c.id) :=
  (issues_author d subj (fun _ _ => trivial) c).mono fun _ hc => ⟨hc.1, hc.2.1⟩

theorem quiet_commented (ticketID : GoString) :
    Quietly T F (Comments.commented d subj T ticketID) (fun _ => True) := by
  refine Issues.bind ⟨rfl, ?_⟩
  rintro (e | t) -
  · trivial
  · exact quiet_emit d _ _ _

theorem quiet_compose [GoLibrary] {t : Ticket} (ht : t.tenantID = T) (body : GoString) :
    Quietly T F (Comments.compose d t body).run (fun _ => True) :=
  issues_compose d (fun _ => ht) ht trivial body

theorem quiet_addNote (hT : subj.tenantID = T) (ticketID body : GoString) :
    Quietly T F (Comments.addNote d subj ticketID body).run (fun _ => True) := by
  refine Issues.andThen (quiet_tenantOf hT) ?_ fun _ => trivial
  intro ten hten
  obtain rfl := hten ten rfl
  refine Issues.andThen (quiet_ofExcept _) (fun body _ => ?_) fun _ => trivial
  refine Issues.ask rfl (fun _ _ => ?_) fun _ => trivial
  refine Issues.lift ⟨trivial, fun id hid => Issues.lift ((quiet_author d subj _).mono ?_)⟩
  rintro c ⟨hten, hcid⟩
  refine Issues.ask ⟨hten, hcid ▸ hid⟩ (fun _ _ => ?_) fun _ => trivial
  refine Issues.lift ⟨rfl, fun _ _ => Issues.lift ?_⟩
  exact (quiet_commented d subj ticketID).mono fun _ _ => trivial

theorem quiet_ensureTags (refs : List Rules.TagRef) :
    Quietly T F (Rules.ensureTags T refs) (fun _ => True) := by
  induction refs with
  | nil => trivial
  | cons ref refs ih =>
    refine Issues.bind ⟨rfl, fun r _ => Issues.bind (ih.mono ?_)⟩
    rintro ⟨ids, errs⟩ -
    rcases r with e | t <;> trivial

theorem quiet_applyTags (hT : subj.tenantID = T) (ticketID : GoString) (tags : List Rules.TagRef) :
    Quietly T F (Rules.applyTags subj ticketID tags) (fun _ => True) := by
  unfold Rules.applyTags
  split
  · trivial
  · rw [hT]
    refine Issues.bind ((quiet_ensureTags tags).mono ?_)
    rintro ⟨ids, errs⟩ -
    dsimp only
    split
    · trivial
    · refine Issues.bind ⟨rfl, ?_⟩
      rintro (e | _) - <;> trivial

theorem quiet_upload (ticketID : GoString) (atts : List MailAttachment) (out : List Attachment)
    (hout : ∀ a ∈ out, Staged T F a) :
    Quietly T F (Inbound.upload T ticketID atts out).run
      (fun r => ∀ st, r = .ok st → ∀ a ∈ st, Staged T F a) := by
  induction atts generalizing out with
  | nil =>
    rintro st ⟨⟩
    exact hout
  | cons a as ih =>
    refine Issues.lift ⟨trivial, fun id hid => Issues.lift ⟨trivial, ?_⟩⟩
    rintro (_ | sum) -
    · refine Issues.lift ((quiet_deleteObjects _).mono fun _ _ => ?_)
      rintro st ⟨⟩
    · apply ih
      simp only [List.mem_append, List.mem_singleton]
      rintro x (hx | rfl)
      · exact hout x hx
      · exact ⟨rfl, hid, ticketID, rfl⟩

theorem quiet_record (commentID : GoString) (st : List Attachment) (hst : ∀ a ∈ st, Staged T F a) :
    Quietly T F (Inbound.record commentID st) (fun _ => True) := by
  induction st with
  | nil => trivial
  | cons a as ih =>
    have ih := ih fun x hx => hst x (List.mem_cons_of_mem _ hx)
    refine Issues.bind ⟨hst a List.mem_cons_self, ?_⟩
    rintro (_ | _) -
    · exact Issues.bind ((quiet_deleteObjects _).mono fun _ _ => ih)
    · exact ih

theorem quiet_note [GoLibrary] (ticketID : GoString) (msg : Message) :
    Quietly T F (Inbound.note T ticketID msg) (fun _ => True) := by
  unfold Inbound.note
  split
  · trivial
  · exact ⟨trivial, fun id hid => ⟨⟨rfl, hid⟩, fun _ _ => trivial⟩⟩

theorem quiet_acknowledge [GoLibrary] (route : MailboxRoute) (recipient : GoString)
    (msg : Message) {t : Ticket} (ht : t.tenantID = T) :
    Quietly T F (Inbound.acknowledge d subj route recipient msg t) (fun _ => True) :=
  issues_acknowledge d subj route recipient msg (fun _ => trivial) trivial
  (fun _ _ hid => ⟨ht, hid⟩) (fun _ => trivial)
    fun _ _ => ht

end Quiet

end TangraTicket.Services
