import TangraTicket.Database.Repo

/-!
What the parts of a transaction of the store give it, and what the deletion of a row of each table writes.
-/

namespace TangraTicket.Database

open GoText Store KeyedTable CallProgram ReadCommitted

section Parts

variable {ξ β : Type} [DecidableEq ξ] {q : Row → Bool} {I : Db schema ξ → Prop}
  {J : ξ → Db schema ξ → Db schema ξ → Prop} {Pre : Log schema ξ → Db schema ξ → Prop} {x : ξ}
  {log : Log schema ξ} {s : Db schema ξ} {K : β → Log schema ξ → Db schema ξ → Prop}

theorem assured_cast [Uuids] {text : GoString} {f : GoString → Tx ξ β}
    (hf : ∀ id, Uuids.parse text = some id → Assured q I J Pre x (f id).run (Succeeds K) log s) :
    Assured q I J Pre x (cast text >>= f).run (Succeeds K) log s := by
  unfold cast
  cases hp : Uuids.parse text with
  | none => trivial
  | some id => exact hf id hp

theorem assured_castNull [Uuids] {text : GoString} {f : GoString → Tx ξ β}
    (hf : ∀ id, (text = [] → id = []) → (text ≠ [] → Uuids.parse text = some id) →
      Assured q I J Pre x (f id).run (Succeeds K) log s) :
    Assured q I J Pre x (castNull text >>= f).run (Succeeds K) log s := by
  unfold castNull
  split_ifs with ht
  · exact hf [] (fun _ => rfl) (fun h => absurd ht h)
  · exact assured_cast fun id hid => hf id (fun h => absurd h ht) fun _ => hid

theorem assured_affected {n : ℕ} {f : Unit → Tx ξ β}
    (hf : n ≠ 0 → Assured q I J Pre x (f ()).run (Succeeds K) log s) :
    Assured q I J Pre x (affected n >>= f).run (Succeeds K) log s := by
  unfold affected
  split_ifs with hn
  · trivial
  · exact hf hn

theorem assured_count (hrob : Robust I J) {p : Row → Bool} {f : ℕ → Tx ξ β}
    (hf : ∀ s', Sound s' → I s' → Relies q J x log s s' →
      Assured q I J Pre x (f ((s'.view x).rows.filter p).length).run (Succeeds K)
        (log ++ [⟨⟨x, .select p⟩, .ok ((s'.view x).rows.filter p)⟩]) s') :
    Assured q I J Pre x (count x p >>= f).run (Succeeds K) log s := by
  refine Secure.onward (Secure.onward (Assured.select hrob ?_))
  exact hf

theorem assured_collectKeys (hrob : Robust I J) {p : Row → Bool} {f : List GoString → Tx ξ β}
    (hf : ∀ s', Sound s' → I s' → Relies q J x log s s' →
      Assured q I J Pre x (f (((s'.view x).rows.filter p).filterMap storageKey?)).run (Succeeds K)
        (log ++ [⟨⟨x, .select p⟩, .ok ((s'.view x).rows.filter p)⟩]) s') :
    Assured q I J Pre x (collectKeys x p >>= f).run (Succeeds K) log s := by
  refine Secure.onward (Secure.onward (Assured.select hrob ?_))
  exact hf

theorem assured_castAll [Uuids] {texts : List GoString} {f : List GoString → Tx ξ β}
    (hf : ∀ ids, List.Forall₂ (fun s id => Uuids.parse s = some id) texts ids →
      Assured q I J Pre x (f ids).run (Succeeds K) log s) :
    Assured q I J Pre x (castAll texts >>= f).run (Succeeds K) log s := by
  refine Secure.onward ?_
  induction texts generalizing f with
  | nil => exact hf [] .nil
  | cons text texts ih =>
    refine assured_cast fun id hid => Secure.onward (ih (f := fun ids => f (id :: ids)) fun ids hids => ?_)
    exact hf (id :: ids) (.cons hid hids)

omit [DecidableEq ξ] in
theorem mem_of_casts [Uuids] {texts ids : List GoString}
    (h : List.Forall₂ (fun s id => Uuids.parse s = some id) texts ids) {id : GoString} :
    id ∈ ids ↔ ∃ text ∈ texts, Uuids.parse text = some id := by
  induction h with
  | nil => simp
  | cons hid _ ih => simp [ih, hid, eq_comm]

theorem assured_checkTicketAndTags [Uuids] (hrob : Robust I J) {T ticketID : GoString}
    {tagIDs : List GoString} {K : Unit → Log schema ξ → Db schema ξ → Prop}
    (hK : ∀ l s', s'.mine x = s.mine x → K () l s') :
    Assured q I J Pre x (checkTicketAndTags x T ticketID tagIDs).run (Succeeds K) log s := by
  refine assured_count hrob fun s₁ _ _ h₁ => ?_
  split_ifs
  · trivial
  · exact hK _ _ h₁.steady.mine
  · refine assured_castAll fun ids _ => assured_count hrob fun s₂ _ _ h₂ => ?_
    split_ifs
    · trivial
    · exact hK _ _ (h₂.steady.mine.trans h₁.steady.mine)

end Parts

section Removals

variable {t : Table Key Row Row.key} {T id : GoString}

theorem key_of_mailboxes {r : Row} (h : mailboxes T id r = true) : r.key = .mailbox T id := by
  cases r <;> simp_all [mailboxes, Row.key]

theorem key_of_tickets {r : Row} (h : tickets T id r = true) : r.key = .ticket T id := by
  cases r <;> simp_all [tickets, Row.key]

theorem tickets_of_key {r : Row} (h : r.key = .ticket T id) : tickets T id r = true := by
  cases r <;> simp_all [tickets, Row.key]

theorem key_of_comments {r : Row} (h : comments T id r = true) : r.key = .comment T id := by
  cases r <;> simp_all [comments, Row.key]

theorem hits_sublist {ξ : Type} [DecidableEq ξ] (s : Db schema ξ) (x : ξ) (p : Row → Bool) :
    (s.hits x p).Sublist ((s.view x).rows.filter p) := by
  rw [Db.hits, ← List.filter_filter]
  exact List.filter_sublist

theorem hits_of_key {ξ : Type} [DecidableEq ξ] {s : Db schema ξ} {x : ξ} {p : Row → Bool} {k : Key}
    (hp : ∀ r, p r = true → r.key = k) :
    s.hits x p = [] ∨ ∃ r, (s.view x).get? k = some r ∧ p r = true ∧ s.hits x p = [r] := by
  have hsub := hits_sublist s x p
  obtain hnil | ⟨r, hr, hpr, hone⟩ := Table.filter_of_key (t := s.view x) fun r _ => hp r
  · rw [hnil] at hsub
    exact .inl (List.sublist_nil.mp hsub)
  · rw [hone] at hsub
    exact (List.sublist_singleton.mp hsub).imp_right fun h => ⟨r, hr, hpr, h⟩

theorem removals_one {r : Row} : schema.removals t [r] = removal t r.key := List.nil_append _

theorem referring_mailbox : referring t [.mailbox T id] = [] := by
  rw [referring, List.map_eq_nil_iff, List.filter_eq_nil_iff]
  intro r _
  cases r <;> simp [Row.cascades]

theorem removal_mailbox (h : ∀ r ∈ t.rows, ticketsOfMailbox T id r = false) :
    removal t (.mailbox T id) = [.remove (.mailbox T id)] := by
  have hdoomed : doomed t (.mailbox T id) = [.mailbox T id] := by
    simp [doomed, referring_mailbox]
  have hnone : detachedBy t (.mailbox T id) = [] := by
    rw [detachedBy, List.filter_eq_nil_iff, hdoomed]
    intro r hr
    have hnot := h r hr
    cases r with
    | ticket t =>
      simp only [ticketsOfMailbox, Bool.and_eq_false_iff, decide_eq_false_iff_not] at hnot
      simp only [Row.detaches]
      split_ifs
      · simp
      · simpa [← not_and_or] using hnot
    | _ => simp [Row.detaches]
  rw [removal, hnone, hdoomed]
  rfl

theorem detachedBy_eq_nil {k : Key} (h : ∀ T id, .mailbox T id ∉ doomed t k) : detachedBy t k = [] := by
  rw [detachedBy, List.filter_eq_nil_iff]
  intro r _ hany
  obtain ⟨k', hk', hd⟩ := List.any_eq_true.mp hany
  cases r with
  | ticket t =>
    simp only [Row.detaches] at hk'
    split_ifs at hk'
    · cases hk'
    · obtain rfl := List.mem_singleton.mp hk'
      exact h _ _ (by simpa using hd)
  | _ => cases hk'

theorem mem_doomed_comment (hid : id ≠ []) {k : Key} : k ∈ doomed t (.comment T id) ↔
    k = .comment T id ∨ ∃ a, .attachment a ∈ t.rows ∧ attachmentsOfComment T id (.attachment a) ∧
      k = .attachment a.id := by
  have hfirst : ∀ k, k ∈ referring t [.comment T id] ↔
      ∃ a, .attachment a ∈ t.rows ∧ attachmentsOfComment T id (.attachment a) ∧ k = .attachment a.id := by
    intro k
    rw [mem_referring]
    constructor
    · rintro ⟨r, hr, rfl, k', hk', hin⟩
      obtain rfl := List.mem_singleton.mp hin
      cases r with
      | attachment a =>
        refine ⟨a, hr, ?_, rfl⟩
        simp only [Row.cascades] at hk'
        split_ifs at hk' with hc
        · simp at hk'
        · have hkey : Key.comment T id = .comment a.tenantID a.commentID := by simpa using hk'
          obtain ⟨rfl, rfl⟩ := Key.comment.inj hkey
          simp [attachmentsOfComment]
      | comment c => simp [Row.cascades] at hk'
      | link l => simp [Row.cascades] at hk'
      | _ => cases hk'
    · rintro ⟨a, ha, hof, rfl⟩
      simp only [attachmentsOfComment, Bool.and_eq_true, decide_eq_true_eq] at hof
      refine ⟨.attachment a, ha, rfl, _, ?_, List.mem_singleton_self _⟩
      simp [Row.cascades, hof, hid]
  have hsecond : ∀ k, k ∈ referring t (.comment T id :: referring t [.comment T id]) →
      k ∈ referring t [.comment T id] := by
    intro k hk
    obtain ⟨r, hr, rfl, k', hk', hin⟩ := mem_referring.mp hk
    rcases List.mem_cons.mp hin with rfl | hin
    · exact mem_referring.mpr ⟨r, hr, rfl, _, hk', List.mem_singleton_self _⟩
    · obtain ⟨a, -, -, rfl⟩ := (hfirst k').mp hin
      cases r <;> simp [Row.cascades] at hk'
  rw [doomed, List.mem_append, List.mem_cons, ← hfirst]
  constructor
  · rintro ((h | h) | h)
    · exact .inl h
    · exact .inr h
    · exact .inr (hsecond k h)
  · rintro (h | h)
    · exact .inl (.inl h)
    · exact .inl (.inr h)

theorem removal_comment (hid : id ≠ []) :
    removal t (.comment T id) = (doomed t (.comment T id)).map .remove := by
  rw [removal, detachedBy_eq_nil]
  · simp
  · intro T' id' h
    obtain h | ⟨a, -, -, h⟩ := (mem_doomed_comment hid).mp h <;> cases h

theorem removal_ticket : removal t (.ticket T id) = (doomed t (.ticket T id)).map .remove := by
  have hreferring : ∀ ks T' id', .mailbox T' id' ∉ referring t ks := by
    intro ks T' id' h
    obtain ⟨r, -, hkey, k, hk, -⟩ := mem_referring.mp h
    cases r with
    | mailbox m => cases hk
    | _ => cases hkey
  rw [removal, detachedBy_eq_nil]
  · simp
  · intro T' id' h
    rcases List.mem_append.mp h with h | h
    · rcases List.mem_cons.mp h with h | h
      · cases h
      · exact hreferring _ T' id' h
    · exact hreferring _ T' id' h

theorem removal_link : removal t (.link T id) = [.remove (.link T id)] := by
  have hreferring : referring t [.link T id] = [] := by
    rw [referring, List.map_eq_nil_iff, List.filter_eq_nil_iff]
    intro r _
    cases r <;> simp [Row.cascades]
  have hdoomed : doomed t (.link T id) = [.link T id] := by
    simp [doomed, hreferring]
  have hnone : detachedBy t (.link T id) = [] := by
    rw [detachedBy, List.filter_eq_nil_iff, hdoomed]
    intro r _
    cases r <;> simp [Row.detaches]
  rw [removal, hnone, hdoomed]
  rfl

theorem removals_links {rs : List Row} (h : ∀ r ∈ rs, ∃ l, r = .link l) :
    schema.removals t rs = (rs.map Row.key).map .remove := by
  induction rs using List.reverseRecOn with
  | nil => rfl
  | append_singleton rs r ih =>
    obtain ⟨l, rfl⟩ := h r (List.mem_append_right _ (List.mem_singleton_self r))
    have hrs := ih fun r hr => h r (List.mem_append_left _ hr)
    have hstep : schema.removals t (rs ++ [.link l]) =
        schema.removals t rs ++ removal (writeAll t (schema.removals t rs)) (.link l.ticketID l.tagID) := by
      simp only [Schema.removals, List.foldl_append, List.foldl_cons, List.foldl_nil]
      rfl
    rw [hstep, removal_link, hrs, List.map_append, List.map_append]
    rfl

end Removals

end TangraTicket.Database
