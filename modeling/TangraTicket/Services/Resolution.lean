import TangraTicket.Services.Frames
import TangraTicket.Services.Mail

/-!
Thread resolution as a function of the store: an error apart, the lookups of `thread.Resolve` give
what the rows of the tenant say, and change nothing.
-/

namespace TangraTicket.Services

open GoText Store KeyedTable CallProgram

namespace Threading

variable (m : Mem) (T : GoString)

def commentOf (id : GoString) : Option Comment := (m.findCommentByMessageID T id).1.toOption

def rootOf (id : GoString) : Option Ticket := (m.findTicketByExternalID T id).1.toOption

def tokened (c : GoString × MatchedBy) : Option Match :=
  (m.ticket T (parseToken c.1)).toOption.map fun t => ⟨t.id, c.2⟩

def tokenTexts (text subject : GoString) : List (GoString × MatchedBy) :=
  [(text, MatchedBy.bodyToken), (subject, MatchedBy.subjectToken)].filter fun c => parseToken c.1 ≠ []

def resolved (ids : List GoString) (text subject : GoString) : Option Match :=
  match ids.findSome? (commentOf m T) with
  | some c => some ⟨c.ticketID, .comment⟩
  | none =>
    match ids.findSome? (rootOf m T) with
    | some t => some ⟨t.id, .externalID⟩
    | none => (tokenTexts text subject).findSome? (tokened m T)

variable {m T}

theorem commentOf_some {id : GoString} {c : Comment} (h : commentOf m T id = some c) :
    c ∈ m.comments.rows ∧ c.tenantID = T ∧ c.messageID = id := by
  unfold commentOf Mem.findCommentByMessageID at h
  split at h
  · cases h
  · split at h
    · rename_i x hx
      obtain rfl := Option.some.inj h
      exact ⟨List.mem_of_find?_eq_some hx, by simpa using List.find?_some hx⟩
    · cases h

theorem rootOf_some {id : GoString} {t : Ticket} (h : rootOf m T id = some t) :
    t ∈ m.tickets.rows ∧ t.tenantID = T ∧ t.externalID = id := by
  unfold rootOf Mem.findTicketByExternalID at h
  split at h
  · cases h
  · split at h
    · rename_i x hx
      obtain rfl := Option.some.inj h
      exact ⟨List.mem_of_find?_eq_some hx, by simpa using List.find?_some hx⟩
    · cases h

theorem tokened_some {c : GoString × MatchedBy} {found : Match} (h : tokened m T c = some found) :
    ∃ t ∈ m.tickets.rows, t.tenantID = T ∧ t.id = found.ticketID := by
  unfold tokened at h
  cases ht : m.ticket T (parseToken c.1) with
  | error e =>
    rw [ht] at h
    cases h
  | ok t =>
    rw [ht] at h
    obtain rfl := Option.some.inj h
    obtain ⟨hmem, hten, -⟩ := ticket_ok ht
    exact ⟨t, hmem, hten, rfl⟩

end Threading

-- what a lookup that goes through answers
def answerOf {α : Type} : Option α → Except RepoErr α
  | some a => .ok a
  | none => .error .notFound

theorem findComment_eq (m : Mem) (T id : GoString) :
    m.findCommentByMessageID T id = (answerOf (Threading.commentOf m T id), m) := by
  unfold Threading.commentOf Mem.findCommentByMessageID
  split_ifs
  · rfl
  · cases m.comments.rows.find? (fun c => c.tenantID = T ∧ c.messageID = id) <;> rfl

theorem findTicket_eq (m : Mem) (T id : GoString) :
    m.findTicketByExternalID T id = (answerOf (Threading.rootOf m T id), m) := by
  unfold Threading.rootOf Mem.findTicketByExternalID
  split_ifs
  · rfl
  · cases m.tickets.rows.find? (fun t => t.tenantID = T ∧ t.externalID = id) <;> rfl

theorem getTicket_eq (m : Mem) (T id : GoString) :
    m.getTicket T id = (answerOf (m.ticket T id).toOption, m) := by
  unfold Mem.getTicket Mem.ticket
  cases (m.tickets.get? id).filter (fun t => t.tenantID = T) <;> rfl

section Runs

variable [GoLibrary] (Ok : Choice → Prop) (w : World)

def Faulty : Prop := ∃ c, Ok c ∧ ¬ FaultFree c

def Reads {α : Type} (found : Option α) (r : Except RepoErr α) : Prop :=
  (Faulty Ok ∧ r = .error .failure) ∨ r = answerOf found

def Finds {α : Type} (found : Option α) (r : Except Err (Option α)) : Prop :=
  (Faulty Ok ∧ ∃ e, r = .error e) ∨ r = .ok found

theorem ensures_lookup (q : StoreCall) {found : Option q.Value}
    (hq : ∀ now id, performStore now id w.mem q = (answerOf found, w.mem)) :
    Ensures step Ok (tryAsk q) (fun r w' => Reads Ok found r ∧ w = w') w := by
  intro c hc
  cases hf : c.fail q.method with
  | true =>
    rw [step_store_failed hf]
    refine ⟨.inl ⟨⟨c, hc, fun hff => ?_⟩, rfl⟩, rfl⟩
    rw [hff.not_failed] at hf
    cases hf
  | false =>
    rw [step_store hf, hq]
    refine ⟨.inr ?_, ?_⟩ <;> rfl

theorem ensures_firstFound {α β : Type} {lookup : α → Act (Except RepoErr β)} {g : α → Option β}
    (hl : ∀ x, Ensures step Ok (lookup x) (fun r w' => Reads Ok (g x) r ∧ w = w') w) (xs : List α) :
    Ensures step Ok (Threading.firstFound lookup xs).run
      (fun r w' => Finds Ok (xs.findSome? g) r ∧ w = w') w := by
  induction xs with
  | nil => exact ⟨.inr rfl, rfl⟩
  | cons x xs ih =>
    refine EnsuresWhen.lift ((hl x).mono ?_)
    rintro r _ ⟨hr, rfl⟩
    rw [List.findSome?_cons]
    rcases hr with ⟨hfaulty, rfl⟩ | rfl
    · exact ⟨.inl ⟨hfaulty, _, rfl⟩, rfl⟩
    · cases g x with
      | none => exact ih
      | some b => exact ⟨.inr rfl, rfl⟩

theorem ensures_tokened {T : GoString} (c : GoString × Threading.MatchedBy) :
    Ensures step Ok (do
        let r ← tryAsk (.getTicket T (Threading.parseToken c.1))
        pure (r.map fun t => (⟨Ticket.id t, c.2⟩ : Threading.Match)))
      (fun r w' => Reads Ok (Threading.tokened w.mem T c) r ∧ w = w') w := by
  refine EnsuresWhen.bind (EnsuresWhen.mono (ensures_lookup Ok w (.getTicket T (Threading.parseToken c.1))
    fun _ _ => getTicket_eq w.mem T (Threading.parseToken c.1)) ?_)
  rintro r _ ⟨hr, rfl⟩
  refine ⟨?_, rfl⟩
  rcases hr with ⟨hfaulty, rfl⟩ | rfl
  · exact .inl ⟨hfaulty, rfl⟩
  · right
    unfold Threading.tokened
    cases (w.mem.ticket T (Threading.parseToken c.1)).toOption <;> rfl

theorem ensures_resolve {T : GoString} (hT : T ≠ []) (ids : List GoString) (text subject : GoString) :
    Ensures step Ok (Threading.resolve T ids text subject).run
      (fun r w' => Finds Ok (Threading.resolved w.mem T ids text subject) r ∧ w = w') w := by
  have hcomments := ensures_firstFound Ok w (g := Threading.commentOf w.mem T)
    (fun id => ensures_lookup Ok w (.findCommentByMessageID T id) fun _ _ => findComment_eq w.mem T id) ids
  have hroots := ensures_firstFound Ok w (g := Threading.rootOf w.mem T)
    (fun id => ensures_lookup Ok w (.findTicketByExternalID T id) fun _ _ => findTicket_eq w.mem T id) ids
  have htokens := ensures_firstFound Ok w (g := Threading.tokened w.mem T)
    (fun c => ensures_tokened Ok w c) (Threading.tokenTexts text subject)
  unfold Threading.resolve Threading.resolved
  rw [if_neg hT]
  refine hcomments.andThen ?_ ?_
  · rintro oc _ ⟨hc, rfl⟩
    obtain ⟨-, e, he⟩ | hc := hc
    · cases he
    · obtain rfl := Except.ok.inj hc
      cases ids.findSome? (Threading.commentOf w.mem T) with
      | some c => exact ⟨.inr rfl, rfl⟩
      | none =>
        refine hroots.andThen ?_ ?_
        · rintro ot _ ⟨ht, rfl⟩
          obtain ⟨-, e, he⟩ | ht := ht
          · cases he
          · obtain rfl := Except.ok.inj ht
            cases ids.findSome? (Threading.rootOf w.mem T) with
            | some t => exact ⟨.inr rfl, rfl⟩
            | none => exact htokens
        · rintro e _ ⟨⟨hfaulty, -⟩ | he, rfl⟩
          · exact ⟨.inl ⟨hfaulty, e, rfl⟩, rfl⟩
          · cases he
  · rintro e _ ⟨⟨hfaulty, -⟩ | he, rfl⟩
    · exact ⟨.inl ⟨hfaulty, e, rfl⟩, rfl⟩
    · cases he

end Runs

end TangraTicket.Services
