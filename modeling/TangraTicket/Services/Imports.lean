import TangraTicket.Services.Footprint
import TangraTicket.Services.Backup

/-!
The calls an import makes: for the target tenant only, with rows of the document up to their ids and
what the import overwrites.
-/

namespace TangraTicket.Services

open GoText Store CallProgram

/-- Every ticket created meets `P`. -/
def Creates (P : Ticket → Prop) : Call → Prop
  | .store (.createTicket t) => P t
  | _ => True

def tenantPrefix (T : GoString) : GoString := goString "tenants/" ++ T ++ goString "/"

/-- The calls of an import into `T`: every ticket created meets `P`, every attachment row names an
object of the tenant, every object deleted meets `K`. -/
def Within (T : GoString) (P : Ticket → Prop) (K : GoString → Prop) : Call → Prop
  | .store (.createTicket t) => t.tenantID = T ∧ P t
  | .store (.createComment c) => c.tenantID = T
  | .store (.createAttachment a) => a.tenantID = T ∧ hasPrefix a.storageKey (tenantPrefix T) = true
  | .store (.createTag t) | .store (.updateTag t) => t.tenantID = T
  | .store (.createRule r) | .store (.updateRule r) => r.tenantID = T
  | .store (.createMailbox mb) | .store (.updateMailbox mb) => mb.tenantID = T
  | .store (.appendHistory h) => h.tenantID = T
  | .store (.updateTicket ten ..) | .store (.setAssignee ten ..) | .store (.setStatus ten ..)
  | .store (.deleteTicket ten _) | .store (.deleteTag ten _) | .store (.deleteRule ten _)
  | .store (.deleteMailbox ten ..) | .store (.addTicketTags ten ..) => ten = T
  | .store (.setCommentDelivery ..) | .store (.deleteComment ..) | .store (.ensureTagByName ..) => False
  | .store _ | .newID | .now => True
  | .deleteObject key => K key
  | _ => False

theorem Within.creates {T : GoString} {P : Ticket → Prop} {K : GoString → Prop} {e : Call}
    (h : Within T P K e) :
    Creates P e := by
  unfold Creates
  split
  · exact h.2
  · trivial

theorem creates_deleteObjects {A : (e : Call) → Answer e → Prop} {P : Ticket → Prop}
    (keys : List GoString) :
    Issues A (Creates P) (Tickets.deleteObjects keys) (fun _ => True) :=
  issues_deleteObjects fun _ _ => trivial

namespace Backup

structure Portable (P : Ticket → Prop) : Prop where
  renamed (t : Ticket) (id mailboxID : GoString) : P t → P { t with id := id, mailboxID := mailboxID }
  imported (tgt : GoString) (known : List GoString) (row : TicketRow) : P row.ticket →
    P (importedTicket tgt known row)

section Rules

variable {A : (e : Call) → Answer e → Prop} {G : Call → Prop} {ε α β : Type}

theorem issues_done {q : StoreCall} (hq : G (.store q)) : Issues A G (done q) (fun _ => True) :=
  ⟨hq, fun _ _ => trivial⟩

theorem issues_settle (c : Collection) (s : Progress) (r : Except RepoErr Unit) :
    Issues A G (settle c s r).run (fun _ => True) := by
  rcases r with e | _
  · cases e <;> trivial
  · trivial

theorem issues_upsert (mode : Mode) (c : Collection) {present create update : Act (Except RepoErr Unit)}
    (hp : Issues A G present (fun _ => True)) (hc : Issues A G create (fun _ => True))
    (hu : Issues A G update (fun _ => True)) (s : Progress) :
    Issues A G (upsert mode c present create update s).run (fun _ => True) := by
  refine Issues.lift (hp.mono ?_)
  rintro (e | _) -
  · cases e with
    | notFound =>
      refine Issues.lift (hc.mono fun r _ => ?_)
      exact (issues_settle c s r).andThen (fun _ _ => trivial) fun _ => trivial
    | _ => trivial
  · dsimp only
    split
    · refine Issues.lift (hu.mono fun r _ => ?_)
      exact (issues_settle c s r).andThen (fun _ _ => trivial) fun _ => trivial
    · trivial

theorem issues_child (c : Collection) {present create : Act (Except RepoErr Unit)}
    (hp : Issues A G present (fun _ => True)) (hc : Issues A G create (fun _ => True)) (s : Progress) :
    Issues A G (child c present create s).run (fun _ => True) := by
  refine Issues.lift (hp.mono ?_)
  rintro (e | _) -
  · cases e with
    | notFound => exact Issues.lift (hc.mono fun r _ => issues_settle c s r)
    | _ => trivial
  · trivial

theorem issues_remapRows {f : α → Fresh → Act (α × Fresh)} {P : α → Prop} {xs : List α}
    (hf : ∀ x ∈ xs, ∀ fr, Issues A G (f x fr) (fun r => P r.1)) (fr : Fresh) :
    Issues A G (remapRows f xs fr) (fun r => ∀ y ∈ r.1, P y) := by
  induction xs generalizing fr with
  | nil => exact fun y hy => absurd hy List.not_mem_nil
  | cons x xs ih =>
    refine Issues.bind ((hf x List.mem_cons_self fr).mono fun r hr => Issues.bind ?_)
    refine (ih (fun y hy => hf y (List.mem_cons_of_mem x hy)) r.2).mono fun rs hrs => ?_
    exact List.forall_mem_cons.mpr ⟨hr, hrs⟩

theorem issues_freshID (hnew : G .newID) (old : GoString) (fresh : Fresh) :
    Issues A G (freshID old fresh) (fun _ => True) := by
  unfold freshID
  split
  · trivial
  · split
    · trivial
    · exact Issues.bind ⟨hnew, fun _ _ => trivial⟩

end Rules

section Within

variable {A : (e : Call) → Answer e → Prop} {T : GoString} {P : Ticket → Prop} {K : GoString → Prop}
  (hP : Portable P)

theorem within_freshID (old : GoString) (fresh : Fresh) :
    Issues A (Within T P K) (freshID old fresh) (fun _ => True) := issues_freshID trivial old fresh

theorem within_remapOther {α : Type} {f : α → Fresh → Act (α × Fresh)}
    (hf : ∀ x fr, Issues A (Within T P K) (f x fr) (fun _ => True)) (xs : List α) (fr : Fresh) :
    Issues A (Within T P K) (remapRows f xs fr) (fun _ => True) :=
  (issues_remapRows (P := fun _ => True) (fun x _ fr => hf x fr) fr).mono fun _ _ => trivial

include hP

theorem within_remap (b : Document) (hb : ∀ row ∈ b.tickets, P row.ticket) :
    Issues A (Within T P K) (remap b) (fun b' => ∀ row ∈ b'.tickets, P row.ticket) := by
  have hone : ∀ {β : Type} (id : GoString) (fr : Fresh) (g : GoString × Fresh → β),
      Issues A (Within T P K) (freshID id fr >>= fun r => pure (g r)) (fun _ => True) :=
    fun id fr g => Issues.bind ((within_freshID id fr).mono fun _ _ => trivial)
  unfold remap
  refine Issues.bind ((within_remapOther (fun t fr => hone t.id fr _) b.tags []).mono fun r₁ _ => ?_)
  refine Issues.bind ((within_remapOther (fun m fr => hone m.id fr _) b.mailboxes r₁.2).mono fun r₂ _ => ?_)
  refine Issues.bind ((within_remapOther (fun r fr => hone r.id fr _) b.rules r₂.2).mono fun r₃ _ => ?_)
  refine Issues.bind ((issues_remapRows (P := fun row : TicketRow => P row.ticket) ?_ r₃.2).mono ?_)
  · intro row hrow fr
    refine Issues.bind ((within_freshID _ _).mono fun r _ =>
      Issues.bind ((within_freshID _ _).mono fun r' _ => ?_))
    exact hP.renamed row.ticket r.1 r'.1 (hb row hrow)
  intro r₄ hr₄
  refine Issues.bind ((within_remapOther (fun l fr => ?_) b.tagLinks r₄.2).mono fun r₅ _ => ?_)
  · exact Issues.bind ((within_freshID _ _).mono fun r _ => hone _ _ _)
  refine Issues.bind ((within_remapOther (fun l fr => ?_) b.comments r₅.2).mono fun r₆ _ => ?_)
  · exact Issues.bind ((within_freshID _ _).mono fun r _ => hone _ _ _)
  refine Issues.bind ((within_remapOther (fun l fr => ?_) b.history r₆.2).mono fun r₇ _ => ?_)
  · exact Issues.bind ((within_freshID _ _).mono fun r _ => hone _ _ _)
  refine Issues.bind ((within_remapOther (fun l fr => ?_) b.attachments r₇.2).mono fun r₈ _ => hr₄)
  exact Issues.bind ((within_freshID _ _).mono fun r _ =>
    Issues.bind ((within_freshID _ _).mono fun r _ => hone _ _ _))

omit hP in
theorem within_done {q : StoreCall} (hq : Within T P K (.store q)) :
    Issues A (Within T P K) (done q) (fun _ => True) :=
  issues_done hq

omit hP in
theorem within_overwriteTicket (t : Ticket) :
    Issues A (Within T P K) (overwriteTicket T t) (fun _ => True) := by
  have hat : Issues A (Within T P K) (overwrittenAt t) (fun _ => True) := by
    unfold overwrittenAt
    split
    · exact ⟨trivial, fun _ _ => trivial⟩
    · trivial
  have hstatus : ∀ at_, Issues A (Within T P K) (overwriteStatus T t at_) (fun _ => True) := by
    intro at_
    unfold overwriteStatus
    split
    · trivial
    · exact within_done (by exact rfl)
  refine Issues.bind (hat.mono fun at_ _ => Issues.bind ((within_done (by exact rfl)).mono ?_))
  rintro (e | _) -
  · trivial
  · refine Issues.bind ((hstatus at_).mono ?_)
    rintro (e | _) -
    · trivial
    · exact within_done (by exact rfl)

theorem within_loadTickets (mode : Mode) (rows : List TicketRow)
    (hrows : ∀ row ∈ rows, P row.ticket) (s : Progress) :
    Issues A (Within T P K) (loadTickets T mode rows s).run (fun _ => True) := by
  refine Issues.lift ⟨trivial, ?_⟩
  rintro (e | mbs) -
  · trivial
  · refine Issues.foldlM (fun s row hrow => ?_) s
    have hcreate := within_done (A := A) (K := K)
      (q := .createTicket (importedTicket T (List.map Mailbox.id mbs) row))
      ⟨rfl, hP.imported T _ row (hrows row hrow)⟩
    exact (issues_upsert mode .tickets (within_done (by trivial)) hcreate
      (within_overwriteTicket _) s).andThen
      (fun _ _ => trivial) fun _ => trivial

omit hP in
theorem within_loadLinks (rows : List TagLink) (s : Progress) :
    Issues A (Within T P K) (loadLinks T rows s).run (fun _ => True) := by
  unfold loadLinks
  split
  · trivial
  · refine Issues.lift ⟨trivial, ?_⟩
    rintro (e | linked) -
    · trivial
    · refine Issues.foldlM (fun s tid _ => ?_) s
      unfold loadLinksOf
      dsimp only
      split
      · trivial
      · refine Issues.lift ⟨rfl, ?_⟩
        rintro (e | _) -
        · cases e <;> trivial
        · trivial

theorem within_load [GoLibrary] (mode : Mode) (b : Document) (hb : ∀ row ∈ b.tickets, P row.ticket)
    (s : Progress) :
    Issues A (Within T P K) (load T mode b s).run (fun _ => True) := by
  have hupsert : ∀ c (q q' q'' : StoreCall) s, Within T P K (.store q) → Within T P K (.store q') →
      Within T P K (.store q'') → Issues A (Within T P K)
        (upsert mode c (done q) (done q') (done q'') s >>= fun r => (pure r.2 : Loading Progress)).run
        (fun _ => True) := fun c q q' q'' s hq hq' hq'' =>
    (issues_upsert mode c (within_done hq) (within_done hq') (within_done hq'') s).andThen
    (fun _ _ => trivial)
      fun _ => trivial
  refine (Issues.foldlM (fun s t _ => ?_) s).andThen (fun s _ => ?_) fun _ => trivial
  · exact hupsert .tags _ _ _ s trivial rfl rfl
  refine (Issues.foldlM (fun s m _ => ?_) s).andThen (fun s _ => ?_) fun _ => trivial
  · exact hupsert .mailboxes _ _ _ s trivial rfl rfl
  refine (Issues.foldlM (fun s r _ => ?_) s).andThen (fun s _ => ?_) fun _ => trivial
  · exact hupsert .rules _ _ _ s trivial rfl rfl
  refine (within_loadTickets hP mode b.tickets hb s).andThen (fun s _ => ?_) fun _ => trivial
  refine (within_loadLinks b.tagLinks s).andThen (fun s _ => ?_) fun _ => trivial
  refine (Issues.foldlM (fun s c _ => ?_) s).andThen (fun s _ => ?_) fun _ => trivial
  · exact issues_child .comments (within_done (by trivial)) (within_done (by exact rfl)) s
  refine (Issues.foldlM (fun s h _ => ?_) s).andThen (fun s _ => Issues.foldlM (fun s a _ => ?_) s)
    fun _ => trivial
  · unfold loadHistory
    split
    · exact Issues.lift ((within_done (by exact rfl)).mono fun r _ => issues_settle .history s r)
    · trivial
  · unfold loadAttachment
    dsimp only
    split
    · trivial
    · rename_i hown
      have hkey : hasPrefix a.storageKey (tenantPrefix T) = true := by
        rw [not_or, Bool.not_eq_false] at hown
        exact hown.1
      exact issues_child .attachments (within_done (by trivial)) (within_done (by exact ⟨rfl, hkey⟩)) s

omit hP in
theorem within_wipeRow {q : StoreCall} (hq : Within T P K (.store q)) (n : ℕ) :
    Issues A (Within T P K) (wipeRow q n).run (fun _ => True) := by
  refine Issues.lift ((within_done hq).mono ?_)
  rintro (e | _) -
  · cases e <;> trivial
  · trivial

omit hP in
theorem within_listing {q : StoreCall} (hq : Within T P K (.store q)) (n : ℕ) :
    Issues A (Within T P K) (listing q n).run (fun _ => True) := by
  refine Issues.lift ⟨hq, ?_⟩
  rintro (e | rows) - <;> trivial

-- the objects that go with a ticket are those the store names
variable (hA : ∀ id (keys : List GoString), A (.store (.deleteTicket T id)) (.ok keys) → ∀ k ∈ keys, K k)

include hA

omit hP in
theorem within_wipeTicket (d : Deps) (kept : List GoString) (n : ℕ) (t : Ticket) :
    Issues A (Within T P K) (wipeTicket d T kept n t).run (fun _ => True) := by
  refine Issues.lift ⟨rfl, ?_⟩
  rintro (e | keys) hkeys
  · cases e <;> trivial
  · dsimp only
    split
    · refine Issues.lift ((issues_deleteObjects fun k hk => ?_).mono fun _ _ => trivial)
      exact hA t.id keys hkeys k (List.mem_filter.mp hk).1
    · trivial

omit hP in
theorem within_wipe (d : Deps) (b : Document) :
    Issues A (Within T P K) (wipe d T b).run (fun _ => True) := by
  refine (within_listing (q := .allTickets T) trivial 0).andThen (fun tks _ => ?_) fun _ => trivial
  refine (Issues.foldlM (fun n t _ => within_wipeTicket hA d _ n t) 0).andThen (fun n _ => ?_)
    fun _ => trivial
  refine (within_listing (q := .listRules T) trivial n).andThen (fun rules _ => ?_) fun _ => trivial
  refine (Issues.foldlM (fun n (r : Rule) _ => within_wipeRow (q := .deleteRule T r.id) rfl n) n).andThen
    (fun n _ => ?_) fun _ => trivial
  refine (within_listing (q := .listTags T .unset) trivial n).andThen (fun tags _ => ?_) fun _ => trivial
  refine (Issues.foldlM (fun n (t : Tag) _ => within_wipeRow (q := .deleteTag T t.id) rfl n) n).andThen
    (fun n _ => ?_) fun _ => trivial
  refine (within_listing (q := .listMailboxes T) trivial n).andThen (fun mbs _ => ?_) fun _ => trivial
  exact Issues.foldlM (fun n (m : Mailbox) _ => within_wipeRow (q := .deleteMailbox T m.id true) rfl n) n

theorem within_importDocument [GoLibrary] (d : Deps) {subj : Subjects} {b : Document} {opts : Options}
    (htgt : target subj opts.tenantID = .ok T)
    (hb : validate b = .ok () → ∀ row ∈ b.tickets, P row.ticket) :
    Issues A (Within T P K) (importDocument d subj b opts).run (fun _ => True) := by
  have hlocal : validate b = .ok () →
      Issues A (Within T P K) (localized T b) (fun b' => ∀ row ∈ b'.tickets, P row.ticket) := by
    intro hval
    unfold localized
    split
    · exact within_remap hP b (hb hval)
    · exact hb hval
  have hclear : ∀ b' res, Issues A (Within T P K) (cleared d T opts.full b' res).run (fun _ => True) := by
    intro b' res
    unfold cleared
    split
    · exact Issues.bind ((within_wipe hA d b').mono fun _ _ => trivial)
    · trivial
  unfold importDocument
  simp only [htgt]
  split
  · trivial
  · split
    · trivial
    · rename_i hval
      refine Issues.lift ((hlocal hval).mono fun b' hb' => ?_)
      refine (hclear _ _).andThen (fun n _ => ?_) fun _ => trivial
      exact (within_load hP _ b' hb' _).andThen (fun _ _ => trivial) fun _ => trivial

end Within

theorem creates_importDocument [GoLibrary] {A : (e : Call) → Answer e → Prop} {P : Ticket → Prop}
    (hP : Portable P) (d : Deps) (subj : Subjects) (b : Document) (opts : Options)
    (hb : validate b = .ok () → ∀ row ∈ b.tickets, P row.ticket) :
    Issues A (Creates P) (importDocument d subj b opts).run (fun _ => True) := by
  cases htgt : target subj opts.tenantID with
  | error e =>
    simp only [importDocument, htgt]
    trivial
  | ok T =>
    exact (within_importDocument (K := fun _ => True) hP (fun _ _ _ _ _ => trivial) d htgt
      hb).weaken fun _ => Within.creates

end Backup

end TangraTicket.Services
