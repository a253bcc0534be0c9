import Mathlib.Data.Fintype.Basic
import TangraTicket.Library.Interleaving
import TangraTicket.Library.KeyPartition
import TangraTicket.Properties.RefusedDelivery
import TangraTicket.Services.Operations

/-!
Deliveries, ticket deletions and comment deletions side by side. Every object is named by one
attachment row or is in the hands of one thread: staged by a delivery, or taken over from the rows
by a deletion.
-/

namespace TangraTicket.Services

open GoText Store KeyedTable CallProgram

/-- The keys of the objects in hand, after one more answered call. -/
def handle : (e : Call) → Answer e → Multiset GoString → Multiset GoString
  | .putObject key _ _, .ok _, ks => key ::ₘ ks
  | .store (.createAttachment a), .ok _, ks => ks.erase a.storageKey
  | .store (.deleteTicket ..), .ok keys, ks => Multiset.ofList keys + ks
  | .store (.deleteComment ..), .ok keys, ks => Multiset.ofList keys + ks
  | .deleteObject key, .ok _, ks => ks.erase key
  | _, _, ks => ks

def inHand (log : Log) : Multiset GoString := log.foldl (fun ks x => handle x.call x.answer ks) 0

@[simp] theorem inHand_append (log : Log) (x : Event Call Answer) :
    inHand (log ++ [x]) = handle x.call x.answer (inHand log) := by
  simp [inHand]

theorem handle_aloof {e : Call} (he : Aloof e) (r : Answer e) (ks : Multiset GoString) :
    handle e r ks = ks := by
  cases e with
  | store q => cases q <;> first | rfl | exact he.elim
  | putObject | deleteObject => exact he.elim
  | _ => rfl

theorem inHand_aloof {log l : Log} (hl : ∀ x ∈ l, Aloof x.call) : inHand (log ++ l) = inHand log := by
  induction l generalizing log with
  | nil => rw [List.append_nil]
  | cons x l ih =>
    obtain ⟨hx, hl⟩ := List.forall_mem_cons.mp hl
    rw [List.append_cons, ih hl, inHand_append, handle_aloof hx]

def mintedLast (log : Log) : Option GoString := log.getLast?.bind minted

theorem mintedLast_append (log : Log) (x : Event Call Answer) : mintedLast (log ++ [x]) = minted x := by
  simp [mintedLast]

theorem mem_of_mintedLast {log : Log} {id : GoString} (h : mintedLast log = some id) :
    ∃ x ∈ log, minted x = some id := by
  obtain ⟨x, hx, hid⟩ := Option.bind_eq_some_iff.mp h
  exact ⟨x, List.mem_of_getLast? hx, hid⟩

def Handles (log : Log) : Call → Prop
  | .putObject key _ _ => ∃ T ticketID id, mintedLast log = some id ∧ key = attachmentKey T ticketID id
  | .store (.createAttachment a) => a.storageKey ∈ inHand log
  | .deleteObject key => key ∈ inHand log
  | _ => True

def Deleted : (e : Call) → Answer e → Prop
  | .deleteObject _, .error _ => False
  | _, _ => True

abbrev Handling {α : Type} (Ψ : Log → α → Prop) (log : Log) (p : Act α) : Prop :=
  Obeys Deleted Handles Ψ log p

theorem handling_aloof {α : Type} {p : Act α} {Q : α → Prop} {log : Log} (hp : Issues Deleted Aloof p Q) :
    Handling (fun l a => Q a ∧ inHand l = inHand log) log p := by
  have hG : ∀ (l : Log) e, (∀ x ∈ l, Aloof x.call) → Aloof e → Handles (log ++ l) e := by
    intro l e _ he
    cases e with
    | store q => cases q <;> trivial
    | putObject | deleteObject => exact he.elim
    | _ => trivial
  refine Obeys.mono (p := p) (hp.obeys hG) ?_
  rintro _ a ⟨ha, l, rfl, hl⟩
  exact ⟨ha, inHand_aloof hl⟩

theorem handling_deleteObjects (rest : Multiset GoString) (keys : List GoString) {log : Log}
    (h : inHand log = ↑keys + rest) :
    Handling (fun l _ => inHand l = rest) log (Tickets.deleteObjects keys) := by
  induction keys generalizing log with
  | nil =>
    rw [Multiset.coe_nil, Multiset.zero_add] at h
    exact h
  | cons key keys ih =>
    rw [← Multiset.cons_coe, Multiset.cons_add] at h
    refine Obeys.bind ⟨?_, ?_⟩
    · show key ∈ inHand log
      simp [h]
    · rintro (_ | _) hr
      · exact hr.elim
      · refine ih ?_
        rw [inHand_append, h]
        exact Multiset.erase_cons_head key _

def keysOf (staged : List Attachment) : Multiset GoString := ↑(staged.map Attachment.storageKey)

theorem keysOf_cons (s : Attachment) (staged : List Attachment) :
    keysOf (s :: staged) = s.storageKey ::ₘ keysOf staged := rfl

theorem keysOf_append (staged : List Attachment) (s : Attachment) :
    keysOf (staged ++ [s]) = s.storageKey ::ₘ keysOf staged := by
  rw [keysOf, List.map_append, ← Multiset.coe_add, Multiset.add_comm]
  rfl

def Uploading (l : Log) : Except Err (List Attachment) → Prop
  | .ok staged => inHand l = keysOf staged
  | .error _ => inHand l = 0

theorem handling_upload (T ticketID : GoString) (atts : List MailAttachment)
    (out : List Attachment) {log : Log} (h : inHand log = keysOf out) :
    Handling Uploading log (Inbound.upload T ticketID atts out).run := by
  induction atts generalizing out log with
  | nil => exact h
  | cons a atts ih =>
    refine Obeys.lift ⟨trivial, fun id _ => Obeys.lift ⟨⟨T, ticketID, id, ?_, rfl⟩, ?_⟩⟩
    · exact mintedLast_append _ _
    · rintro (_ | sum) -
      · refine Obeys.lift (Obeys.mono (handling_deleteObjects 0 _ ?_) fun l _ hl => hl)
        rw [inHand_append, inHand_append, Multiset.add_zero]
        exact h
      · refine ih _ ?_
        rw [inHand_append, inHand_append, keysOf_append, ← h]
        rfl

theorem handling_record (commentID : GoString) {staged : List Attachment} {log : Log}
    (h : inHand log = keysOf staged) :
    Handling (fun l _ => inHand l = 0) log (Inbound.record commentID staged) := by
  induction staged generalizing log with
  | nil => exact h
  | cons s staged ih =>
    refine Obeys.bind ⟨?_, ?_⟩
    · show s.storageKey ∈ inHand log
      simp [h, keysOf_cons]
    · rintro (e | _) -
      · refine Obeys.bind (Obeys.mono (handling_deleteObjects (keysOf staged) _ ?_) fun l _ hl => ih hl)
        rw [inHand_append]
        exact h
      · refine ih ?_
        rw [inHand_append, h, keysOf_cons]
        simp only [handle, Multiset.erase_cons_head]

def EmptyHanded {α : Type} (l : Log) (_ : α) : Prop := inHand l = 0

section Operations

variable [GoLibrary] (d : Deps) (subj : Subjects) {log : Log} (hlog : inHand log = 0)

theorem handling_replied (ticketID commentID : GoString) (msg : Message)
    {staged : List Attachment} {log : Log} (h : inHand log = keysOf staged) :
    Handling EmptyHanded log (Inbound.replied d subj ticketID commentID msg staged) := by
  rw [replied_eq]
  refine Obeys.bind (Obeys.mono (handling_record commentID h) fun l _ hl => ?_)
  refine Obeys.bind (Obeys.mono (handling_aloof (aloof_note _ ticketID msg)) fun l' _ hl' => ?_)
  refine Obeys.mono (handling_aloof (aloof_replyTail d subj ticketID)) fun l'' _ hl'' => ?_
  exact hl''.2.trans (hl'.2.trans hl)

theorem handling_opened (route : MailboxRoute) (recipient : GoString) (msg : Message) (t : Ticket)
    (plan : Rules.Plan) {staged : List Attachment} {log : Log} (h : inHand log = keysOf staged) :
    Handling EmptyHanded log (Inbound.opened d subj route recipient msg t plan staged) := by
  rw [opened_eq]
  refine Obeys.bind (Obeys.mono (handling_record [] h) fun l _ hl => ?_)
  refine Obeys.bind (Obeys.mono (handling_aloof (aloof_note _ t.id msg)) fun l' _ hl' => ?_)
  refine Obeys.mono (handling_aloof (aloof_openTail d subj route recipient msg t plan)) fun l'' _ hl'' => ?_
  exact hl''.2.trans (hl'.2.trans hl)

include hlog

theorem handling_reply (ticketID : GoString) (msg : Message) :
    Handling EmptyHanded log (Inbound.reply d subj ticketID msg).run := by
  refine Obeys.andThen (handling_upload _ ticketID msg.attachments [] hlog) (fun l staged hl => ?_)
    fun l e hl => hl
  refine Obeys.lift ⟨trivial, fun id _ => Obeys.lift ⟨trivial, ?_⟩⟩
  rintro (e | _) -
  · refine Obeys.lift (Obeys.mono (handling_deleteObjects 0 _ ?_) fun l' _ hl' => ?_)
    · rw [inHand_append, inHand_append, Multiset.add_zero]
      exact hl
    · cases e <;> exact hl'
  · refine Obeys.lift (Obeys.mono (handling_replied d subj ticketID _ msg ?_) fun l' _ hl' => hl')
    rw [inHand_append, inHand_append]
    exact hl

theorem handling_create (route : MailboxRoute) (recipient : GoString) (msg : Message) (plan : Rules.Plan) :
    Handling EmptyHanded log (Inbound.create d subj route recipient msg plan).run := by
  refine Obeys.lift ⟨trivial, fun id _ => ?_⟩
  refine Obeys.andThen (handling_upload _ _ msg.attachments [] ?_) (fun l staged hl => ?_) fun l e hl => hl
  · rw [inHand_append]
    exact hlog
  · refine Obeys.lift ⟨trivial, ?_⟩
    rintro (e | _) -
    · refine Obeys.lift (Obeys.mono (handling_deleteObjects 0 _ ?_) fun l' _ hl' => ?_)
      · rw [inHand_append, Multiset.add_zero]
        exact hl
      · split
        · refine Obeys.lift ⟨trivial, ?_⟩
          rintro (e' | ex) -
          · exact (inHand_append _ _).trans hl'
          · exact (inHand_append _ _).trans hl'
        · exact hl'
    · refine Obeys.lift (Obeys.mono (handling_opened d subj route recipient msg _ plan ?_)
        fun l' _ hl' => hl')
      rw [inHand_append]
      exact hl

theorem handling_openNew (route : MailboxRoute) (recipient : GoString) (msg : Message) :
    Handling EmptyHanded log (Inbound.openNew d subj route recipient msg).run := by
  have htriage := issues_triagePlan (A := Deleted) aloof_of_peek d subj rfl recipient msg
  refine Obeys.lift (Obeys.mono (handling_aloof htriage) fun l plan hl => ?_)
  split
  · exact hl.2.trans hlog
  · exact handling_create d subj (hl.2.trans hlog) route recipient msg plan

theorem handling_ingest (route : MailboxRoute) (recipient : GoString) (msg : Message) :
    Handling EmptyHanded log (Inbound.ingest d subj route recipient msg).run := by
  have hdup := issues_duplicate (A := Deleted) (T := route.tenantID) aloof_of_peek msg.messageID
  refine Obeys.andThen (handling_aloof hdup) ?_ fun l e hl => hl.2.trans hlog
  rintro l (_ | id) ⟨-, hl⟩
  · have hresolve := issues_resolve (A := Deleted) (T := route.tenantID) aloof_of_peek msg.threadIDs
      msg.text msg.subject
    refine Obeys.lift (Obeys.mono (handling_aloof hresolve) ?_)
    rintro l' (e | _ | found) ⟨-, hl'⟩
    all_goals have hempty : inHand l' = 0 := hl'.trans (hl.trans hlog)
    · exact hempty
    · exact handling_openNew d subj hempty route recipient msg
    · dsimp only
      split
      · exact handling_openNew d subj hempty route recipient msg
      · refine Obeys.lift (Obeys.mono (handling_reply d subj hempty found.ticketID msg) ?_)
        rintro l'' (e | receipt) hl''
        · cases e with
          | ticketGone => exact handling_openNew d subj hl'' route recipient msg
          | _ => exact hl''
        · exact hl''
  · exact hl.trans hlog

end Operations

section Deletions

variable (d : Deps) (hblobs : d.blobs = true) (subj : Subjects) {log : Log} (hlog : inHand log = 0)
  (id : GoString)

theorem handling_takeOver {q : StoreCall} {g : RepoErr → Err} {f : q.Value → Attempt Unit}
    (hq : Handles log (.store q)) (herr : ∀ e, handle (.store q) (.error e) 0 = 0)
    (hok : ∀ v l, inHand l = handle (.store q) (.ok v) 0 → Handling EmptyHanded l (f v).run)
    (hlog : inHand log = 0) :
    Handling EmptyHanded log (ask q g >>= f).run := by
  refine (congrFun ((wp_tryBind _ _ f _).trans (wp_ask _ q g _)) log).mpr ⟨hq, ?_⟩
  rintro (e | v) -
  · exact (inHand_append _ _).trans (by rw [hlog]; exact herr e)
  · exact hok v _ (by rw [inHand_append, hlog])

include hblobs hlog

theorem handling_delete : Handling EmptyHanded log (Tickets.delete d subj id).run := by
  refine Obeys.andThen (handling_aloof (aloof_ofExcept _)) (fun l T hl => ?_) fun l e hl => hl.2.trans hlog
  refine handling_takeOver trivial (fun _ => rfl) (fun keys l' hl' => ?_) (hl.2.trans hlog)
  rw [if_pos hblobs]
  exact (congrFun (wp_lift _ _ _) l').mpr (handling_deleteObjects _ keys hl')

theorem handling_deleteComment : Handling EmptyHanded log (Comments.delete d subj id).run := by
  refine Obeys.andThen (handling_aloof (aloof_ofExcept _)) (fun l T hl => ?_) fun l e hl => hl.2.trans hlog
  refine handling_takeOver trivial (fun _ => rfl) (fun c l₁ hl₁ => ?_) (hl.2.trans hlog)
  refine handling_takeOver trivial (fun _ => rfl) (fun keys l₂ hl₂ => ?_) hl₁
  rw [if_pos hblobs]
  exact (congrFun (wp_lift _ _ _) l₂).mpr (handling_deleteObjects _ keys hl₂)

end Deletions

theorem handling_finish {α : Type} {x : Attempt α} {log : Log} (hx : Handling EmptyHanded log x.run) :
    Handling EmptyHanded log (finish x) := Obeys.bind (Obeys.mono hx fun _ _ hl => hl)

/-- The operations that store or remove attachments of tickets. -/
def Operation.movesAttachments : Operation → Prop
  | .ingest .. | .delete .. | .deleteComment .. => True
  | _ => False

theorem handling_operation [GoLibrary] (d : Deps) (hblobs : d.blobs = true) {op : Operation}
    (hop : op.movesAttachments) : Handling EmptyHanded [] (op.act d) := by
  cases op with
  | ingest route recipient msg => exact handling_finish (handling_ingest d _ rfl route recipient msg)
  | delete subj id => exact handling_finish (handling_delete d hblobs subj rfl id)
  | deleteComment subj id => exact handling_finish (handling_deleteComment d hblobs subj rfl id)
  | _ => exact hop.elim

theorem suffix_unique {a b s : GoString} (ha : 0x2F ∉ a) (hb : 0x2F ∉ b) (has : 0x2F :: a <:+ s)
    (hbs : 0x2F :: b <:+ s) : a = b := by
  have hcases : ∀ {x y : GoString}, 0x2F ∉ y → 0x2F :: x <:+ 0x2F :: y → x = y := by
    intro x y hy h
    rcases List.suffix_cons_iff.mp h with heq | h
    · exact (List.cons.inj heq).2
    · exact absurd (h.mem List.mem_cons_self) hy
  rcases List.suffix_or_suffix_of_suffix has hbs with h | h
  · exact hcases hb h
  · exact (hcases ha h).symm

def HasObject (w : World) (key : GoString) : Prop := ∃ o ∈ w.objects.rows, o.key = key

theorem hasObject_put {w w' : World} {object : Object} (h : w'.objects = w.objects.put object)
    (key : GoString) :
    HasObject w' key ↔ key = object.key ∨ HasObject w key := by
  unfold HasObject
  rw [h]
  constructor
  · rintro ⟨x, hx, rfl⟩
    rcases Table.mem_put.mp hx with rfl | ⟨hx, -⟩
    · exact .inl rfl
    · exact .inr ⟨x, hx, rfl⟩
  · rintro (rfl | ⟨x, hx, rfl⟩)
    · exact ⟨object, Table.mem_put.mpr (.inl rfl), rfl⟩
    · by_cases hkey : x.key = object.key
      · exact ⟨object, Table.mem_put.mpr (.inl rfl), hkey.symm⟩
      · exact ⟨x, Table.mem_put.mpr (.inr ⟨hx, hkey⟩), rfl⟩

theorem hasObject_keep {w w' : World} {key : GoString}
    (h : w'.objects = w.objects.keep (fun x => x.key ≠ key)) (x : GoString) :
    HasObject w' x ↔ x ≠ key ∧ HasObject w x := by
  unfold HasObject
  rw [h]
  constructor
  · rintro ⟨y, hy, rfl⟩
    obtain ⟨hy, hne⟩ := Table.mem_keep.mp hy
    exact ⟨of_decide_eq_true hne, y, hy, rfl⟩
  · rintro ⟨hne, y, hy, rfl⟩
    exact ⟨y, Table.mem_keep.mpr ⟨hy, decide_eq_true hne⟩, rfl⟩

def rowKeys (w : World) : Multiset GoString := keysOf w.mem.attachments.rows

theorem createAttachment_cases (now : Time) (m : Mem) (a : Attachment) :
    (∃ e, m.createAttachment now a = (.error e, m)) ∨ (m.attachments.get? a.id = none ∧
      m.createAttachment now a =
        (.ok (),
          { m with
            attachments := m.attachments.put { a with createdAt := orNow a.createdAt now } })) := by
  unfold Mem.createAttachment
  split
  · exact .inl ⟨_, rfl⟩
  · split_ifs with hcomment hid hkey
    · exact .inl ⟨_, rfl⟩
    · exact .inl ⟨_, rfl⟩
    · exact .inl ⟨_, rfl⟩
    · exact .inr ⟨by simpa using hid, rfl⟩

theorem keysOf_put {t : Table GoString Attachment Attachment.id} {row : Attachment}
    (h : t.get? row.id = none) :
    keysOf (t.put row).rows = row.storageKey ::ₘ keysOf t.rows := by
  rw [Table.put_rows_new h, keysOf_append]

theorem keysOf_keep (t : Table GoString Attachment Attachment.id) {gone stay : Attachment → Bool}
    (hstay : stay = fun a => !gone a) :
    keysOf t.rows = Multiset.ofList (sortStrings ((t.rows.filter gone).map Attachment.storageKey)) +
      keysOf (t.keep stay).rows := by
  subst hstay
  have hsort : Multiset.ofList (sortStrings ((t.rows.filter gone).map Attachment.storageKey)) =
      keysOf (t.rows.filter gone) := Multiset.coe_eq_coe.mpr (List.perm_insertionSort _ _)
  have hperm := (List.filter_append_perm gone t.rows).map Attachment.storageKey
  rw [hsort, keysOf, keysOf, keysOf, Multiset.coe_add, ← List.map_append]
  exact (Multiset.coe_eq_coe.mpr hperm).symm

section Config

variable {ι : Type}

def owns (cfg : Config ι Call Answer Unit World) : Option ι → Multiset GoString
  | none => rowKeys cfg.state
  | some i => inHand (cfg.threads i).log

def NewID (cfg : Config ι Call Answer Unit World) (id : GoString) : Prop :=
  0x2F ∉ id ∧ (∀ o ∈ cfg.state.objects.rows, ¬ 0x2F :: id <:+ o.key) ∧
    ∀ j, ∀ x ∈ (cfg.threads j).log, minted x ≠ some id

def mints : Act Unit → Bool
  | .call .newID _ => true
  | _ => false

/-- Object deletes go through, and a minted id is a new one without a slash. -/
def Minting (cfg : Config ι Call Answer Unit World) (i : ι) (c : Choice) : Prop :=
  c.deleteFails = false ∧ (mints (cfg.threads i).prog = true → NewID cfg c.newID)

structure InCustody (cfg : Config ι Call Answer Unit World) : Prop where
  owned : KeyPartition (HasObject cfg.state) (owns cfg)
  fresh : ∀ i id, mintedLast (cfg.threads i).log = some id →
    0x2F ∉ id ∧ (∀ o ∈ cfg.state.objects.rows, ¬ 0x2F :: id <:+ o.key) ∧
      ∀ j, j ≠ i → mintedLast (cfg.threads j).log ≠ some id

variable [DecidableEq ι]

theorem owns_answered (cfg : Config ι Call Answer Unit World) (i : ι) (e : Call) (k : Answer e → Act Unit)
    (o : Answer e × World) :
    owns (cfg.answered i e k o) = Function.update (Function.update (owns cfg) none (rowKeys o.2)) (some i)
      (handle e o.1 (owns cfg (some i))) := by
  funext p
  cases p with
  | none => simp [owns, Config.answered]
  | some j =>
    by_cases hj : j = i
    · subst hj
      simp [owns, Config.answered]
    · simp [owns, Config.answered, hj]

variable {cfg : Config ι Call Answer Unit World} {i : ι} {e : Call} {k : Answer e → Act Unit}
  {o : Answer e × World}

theorem mintedLast_answered {j : ι} (hnone : minted ⟨e, o.1⟩ = none) {id : GoString}
    (h : mintedLast ((cfg.answered i e k o).threads j).log = some id) :
    j ≠ i ∧ mintedLast (cfg.threads j).log = some id := by
  by_cases hj : j = i
  · subst hj
    simp only [Config.answered, Function.update_self, mintedLast_append, hnone] at h
    cases h
  · exact ⟨hj, by simpa [Config.answered, hj] using h⟩

theorem InCustody.fresh_answered (hI : InCustody cfg) (hnone : minted ⟨e, o.1⟩ = none)
    (hobjects : ∀ x ∈ o.2.objects.rows, ∀ j id, j ≠ i → mintedLast (cfg.threads j).log = some id →
      ¬ 0x2F :: id <:+ x.key) :
    ∀ j id, mintedLast ((cfg.answered i e k o).threads j).log = some id →
      0x2F ∉ id ∧ (∀ x ∈ o.2.objects.rows, ¬ 0x2F :: id <:+ x.key) ∧
        ∀ l, l ≠ j → mintedLast ((cfg.answered i e k o).threads l).log ≠ some id := by
  intro j id hj
  obtain ⟨hne, hj⟩ := mintedLast_answered hnone hj
  obtain ⟨hslash, -, hother⟩ := hI.fresh j id hj
  refine ⟨hslash, fun x hx => hobjects x hx j id hne hj, fun l hl hl' => ?_⟩
  exact hother l hl (mintedLast_answered hnone hl').2

theorem InCustody.same (hI : InCustody cfg) (hrows : o.2.mem.attachments = cfg.state.mem.attachments)
    (hobjects : o.2.objects = cfg.state.objects) (hhand : ∀ ks, handle e o.1 ks = ks)
    (hnone : minted ⟨e, o.1⟩ = none) :
    InCustody (cfg.answered i e k o) := by
  have howns : owns (cfg.answered i e k o) = owns cfg := by
    have hkeys : rowKeys o.2 = owns cfg none := congrArg (fun t => keysOf (Table.rows t)) hrows
    rw [owns_answered, hhand, hkeys, Function.update_eq_self, Function.update_eq_self]
  refine ⟨?_, hI.fresh_answered hnone ?_⟩
  · rw [howns]
    refine hI.owned.congr fun key => ?_
    simp only [HasObject, Config.answered, hobjects]
  · rw [hobjects]
    exact fun x hx j id _ hj => (hI.fresh j id hj).2.1 x hx

theorem InCustody.takeOver (hI : InCustody cfg) {ks : Multiset GoString}
    (hrows : rowKeys cfg.state = ks + rowKeys o.2) (hobjects : o.2.objects = cfg.state.objects)
    (hhand : ∀ held, handle e o.1 held = ks + held) (hnone : minted ⟨e, o.1⟩ = none) :
    InCustody (cfg.answered i e k o) := by
  refine ⟨?_, hI.fresh_answered hnone ?_⟩
  · rw [owns_answered, hhand]
    refine (hI.owned.handOver (p := none) (q := some i) nofun hrows).congr fun key => ?_
    simp only [HasObject, Config.answered, hobjects]
  · rw [hobjects]
    exact fun x hx j id _ hj => (hI.fresh j id hj).2.1 x hx

theorem InCustody.record (hI : InCustody cfg) {key : GoString} (hkey : key ∈ inHand (cfg.threads i).log)
    (hrows : rowKeys o.2 = key ::ₘ rowKeys cfg.state) (hobjects : o.2.objects = cfg.state.objects)
    (hhand : ∀ held, handle e o.1 held = held.erase key) (hnone : minted ⟨e, o.1⟩ = none) :
    InCustody (cfg.answered i e k o) := by
  have hsplit : owns cfg (some i) = {key} + (owns cfg (some i)).erase key := by
    rw [Multiset.singleton_add]
    exact (Multiset.cons_erase hkey).symm
  refine ⟨?_, hI.fresh_answered hnone ?_⟩
  · have hne : (none : Option ι) ≠ some i := nofun
    rw [owns_answered, hhand, Function.update_comm hne, hrows, ← Multiset.singleton_add]
    refine (hI.owned.handOver (p := some i) (q := none) nofun hsplit).congr fun key => ?_
    simp only [HasObject, Config.answered, hobjects]
  · rw [hobjects]
    exact fun x hx j id _ hj => (hI.fresh j id hj).2.1 x hx

theorem owns_hand (hrows : o.2.mem = cfg.state.mem) :
    owns (cfg.answered i e k o) = Function.update (owns cfg) (some i)
      (handle e o.1 (owns cfg (some i))) := by
  have hkeys : rowKeys o.2 = owns cfg none :=
    congrArg (fun m => keysOf (Table.rows (Mem.attachments m))) hrows
  rw [owns_answered, hkeys, Function.update_eq_self]

theorem InCustody.put (hI : InCustody cfg) {T ticketID id : GoString} {object : Object}
    (hid : mintedLast (cfg.threads i).log = some id) (hkey : object.key = attachmentKey T ticketID id)
    (hmem : o.2.mem = cfg.state.mem) (hobjects : o.2.objects = cfg.state.objects.put object)
    (hhand : ∀ held, handle e o.1 held = object.key ::ₘ held) (hnone : minted ⟨e, o.1⟩ = none) :
    InCustody (cfg.answered i e k o) := by
  obtain ⟨hslash, hnew, hother⟩ := hI.fresh i id hid
  have hsuffix : 0x2F :: id <:+ object.key := hkey ▸ attachmentKey_suffix T ticketID id
  have hfree : ¬ HasObject cfg.state object.key := by
    rintro ⟨x, hx, heq⟩
    exact hnew x hx (heq ▸ hsuffix)
  refine ⟨?_, hI.fresh_answered hnone ?_⟩
  · rw [owns_hand hmem, hhand]
    exact (hI.owned.gain hfree (some i)).congr fun key => hasObject_put hobjects key
  · rw [hobjects]
    intro x hx j id' hj hj'
    rcases Table.mem_put.mp hx with rfl | ⟨hx, -⟩
    · intro hsuffix'
      obtain rfl := suffix_unique hslash (hI.fresh j id' hj').1 hsuffix hsuffix'
      exact hother j hj hj'
    · exact (hI.fresh j id' hj').2.1 x hx

theorem InCustody.delete (hI : InCustody cfg) {key : GoString} (hkey : key ∈ inHand (cfg.threads i).log)
    (hmem : o.2.mem = cfg.state.mem)
    (hobjects : o.2.objects = cfg.state.objects.keep (fun x => x.key ≠ key))
    (hhand : ∀ held, handle e o.1 held = held.erase key) (hnone : minted ⟨e, o.1⟩ = none) :
    InCustody (cfg.answered i e k o) := by
  refine ⟨?_, hI.fresh_answered hnone ?_⟩
  · rw [owns_hand hmem, hhand]
    exact (hI.owned.drop (p := some i) hkey).congr fun x => hasObject_keep hobjects x
  · rw [hobjects]
    exact fun x hx j id _ hj => (hI.fresh j id hj).2.1 x (Table.mem_keep.mp hx).1

theorem InCustody.mint (hI : InCustody cfg) {k : Answer .newID → Act Unit} {id : GoString}
    (hnew : NewID cfg id) :
    InCustody (cfg.answered i .newID k (id, cfg.state)) := by
  obtain ⟨hslash, hobjects, hlogs⟩ := hnew
  have hlast (j : ι) : mintedLast ((cfg.answered i .newID k (id, cfg.state)).threads j).log =
      if j = i then some id else mintedLast (cfg.threads j).log := by
    by_cases hj : j = i
    · subst hj
      simp only [Config.answered, Function.update_self, mintedLast_append, if_true]
      rfl
    · simp [Config.answered, hj]
  have hunminted (j : ι) : mintedLast (cfg.threads j).log ≠ some id := by
    intro h
    obtain ⟨x, hx, hid⟩ := mem_of_mintedLast h
    exact hlogs j x hx hid
  refine ⟨?_, fun j id' hj => ?_⟩
  · rw [owns_hand rfl]
    show KeyPartition _ (Function.update (owns cfg) (some i) (owns cfg (some i)))
    rw [Function.update_eq_self]
    exact hI.owned
  · rw [hlast] at hj
    split at hj
    · rename_i heq
      subst heq
      obtain rfl := Option.some.inj hj
      refine ⟨hslash, hobjects, fun l hl => ?_⟩
      rw [hlast, if_neg hl]
      exact hunminted l
    · obtain ⟨hs, ho, hother⟩ := hI.fresh j id' hj
      refine ⟨hs, ho, fun l hl => ?_⟩
      rw [hlast]
      split
      · rintro ⟨⟩
        exact hunminted j hj
      · exact hother l hl

variable [GoLibrary] {c : Choice}

theorem InCustody.answered (hI : InCustody cfg) (hc : Minting cfg i c)
    (hp : (cfg.threads i).prog = .call e k) (he : Handles (cfg.threads i).log e) :
    InCustody (cfg.answered i e k (step c e cfg.state)) := by
  cases e with
  | newID => exact hI.mint (hc.2 (by rw [hp]; rfl))
  | putObject key data contentType =>
    obtain ⟨T, ticketID, id, hid, rfl⟩ := he
    simp only [step]
    cases c.putFails with
    | true => exact hI.same rfl rfl (fun _ => rfl) rfl
    | false => exact hI.put hid rfl rfl rfl (fun _ => rfl) rfl
  | deleteObject key =>
    simp only [step, hc.1]
    exact hI.delete he rfl rfl (fun _ => rfl) rfl
  | now | lookup | send | publish | evaluate => exact hI.same rfl rfl (fun _ => rfl) rfl
  | store q =>
    cases hf : c.fail q.method with
    | true =>
      rw [step_store_failed hf]
      refine hI.same rfl rfl (fun _ => ?_) rfl
      cases q <;> rfl
    | false =>
      rw [step_store hf]
      cases q with
      | createAttachment a =>
        obtain ⟨e, he'⟩ | ⟨hnew, heq⟩ := createAttachment_cases c.now cfg.state.mem a
        · simp only [performStore, he']
          exact hI.same rfl rfl (fun _ => rfl) rfl
        · simp only [performStore, heq]
          exact hI.record he (keysOf_put hnew) rfl (fun _ => rfl) rfl
      | deleteTicket ten id =>
        simp only [performStore, Mem.deleteTicket]
        split
        · exact hI.same rfl rfl (fun _ => rfl) rfl
        · exact hI.takeOver (keysOf_keep _ (funext fun a => decide_not)) rfl (fun _ => rfl) rfl
      | deleteComment ten id =>
        simp only [performStore, Mem.deleteComment]
        split
        · exact hI.same rfl rfl (fun _ => rfl) rfl
        · exact hI.takeOver (keysOf_keep _ (funext fun a => decide_not)) rfl (fun _ => rfl) rfl
      | _ =>
        refine hI.same (attachments_performStore _ _ _ trivial) rfl (fun _ => rfl) rfl

end Config

def NamedOnce (w : World) : Prop :=
  ∀ o ∈ w.objects.rows, ∃! a, a ∈ w.mem.attachments.rows ∧ a.storageKey = o.key

/-- Every row names a stored object, and every object is named by exactly one row. -/
def InStep (w : World) : Prop := (∀ a ∈ w.mem.attachments.rows, HasObject w a.storageKey) ∧ NamedOnce w

theorem mem_rowKeys {w : World} {key : GoString} :
    key ∈ rowKeys w ↔ ∃ a ∈ w.mem.attachments.rows, a.storageKey = key := by
  simp [rowKeys, keysOf]

theorem InStep.nodup {w : World} (hw : InStep w) : (rowKeys w).Nodup := by
  refine Multiset.coe_nodup.mpr (List.Nodup.map_on ?_ (List.Nodup.of_map _ w.mem.attachments.nodup))
  intro a ha b hb heq
  obtain ⟨o, ho, hkey⟩ := hw.1 a ha
  exact (hw.2 o ho).unique ⟨ha, hkey.symm⟩ ⟨hb, heq ▸ hkey.symm⟩

theorem InStep.custody {ι : Type} {w : World} (hw : InStep w) (p : ι → Act Unit) :
    InCustody (Config.start w p) := by
  have hhands (i : ι) (key : GoString) : key ∉ owns (Config.start w p) (some i) := Multiset.notMem_zero key
  refine ⟨⟨fun q => ?_, fun q q' key hq hq' => ?_, fun key => ?_⟩, nofun⟩
  · cases q with
    | none => exact hw.nodup
    | some i => exact Multiset.nodup_zero
  · cases q with
    | none =>
      cases q' with
      | none => rfl
      | some i => exact absurd hq' (hhands i key)
    | some i => exact absurd hq (hhands i key)
  · constructor
    · rintro ⟨o, ho, rfl⟩
      obtain ⟨a, ⟨ha, hkey⟩, -⟩ := hw.2 o ho
      exact ⟨none, mem_rowKeys.mpr ⟨a, ha, hkey⟩⟩
    · rintro ⟨_ | i, hq⟩
      · obtain ⟨a, ha, rfl⟩ := mem_rowKeys.mp hq
        exact hw.1 a ha
      · exact absurd hq (hhands i key)

theorem deleted_step [GoLibrary] {c : Choice} (hc : c.deleteFails = false) (e : Call) (w : World) :
    Deleted e (step c e w).1 := by
  cases e with
  | deleteObject key =>
    simp only [step, hc]
    trivial
  | _ => trivial

/-- At every moment a row names a stored object; once every operation has returned, every object is
named by exactly one row. -/
theorem attachments_in_step [GoLibrary] {ι : Type} [DecidableEq ι] (d : Deps) (hblobs : d.blobs = true)
    (ops : ι → Operation) (hops : ∀ i, (ops i).movesAttachments) {w : World} (hw : InStep w)
    {cfg : Config ι Call Answer Unit World}
    (h : Reaches step Minting (Config.start w fun i => (ops i).act d) cfg) :
    (∀ a ∈ cfg.state.mem.attachments.rows, HasObject cfg.state a.storageKey) ∧
    (cfg.Done → NamedOnce cfg.state) := by
  obtain ⟨hcustody, hobeys⟩ := h.guarded (A := Deleted) (Φ := fun _ => Handles) (Ψ := fun _ => EmptyHanded)
    (hw.custody _) (fun i => handling_operation d hblobs (hops i)) fun cfg i c e k hI hc hp he =>
      ⟨deleted_step hc.1 e cfg.state, hI.answered hc hp he⟩
  refine ⟨fun a ha => (hcustody.owned.cover _).mpr ⟨none, mem_rowKeys.mpr ⟨a, ha, rfl⟩⟩,
    fun hdone o ho => ?_⟩
  obtain ⟨p, hp⟩ := (hcustody.owned.cover o.key).mp ⟨o, ho, rfl⟩
  cases p with
  | none =>
    obtain ⟨a, ha, hkey⟩ := mem_rowKeys.mp hp
    refine ⟨a, ⟨ha, hkey⟩, fun b hb => ?_⟩
    have hinj := List.inj_on_of_nodup_map (Multiset.coe_nodup.mp (hcustody.owned.nodup none))
    exact hinj hb.1 ha (hb.2.trans hkey.symm)
  | some i =>
    obtain ⟨u, hu⟩ := hdone i
    have hempty := hobeys i
    rw [hu] at hempty
    have hnone : owns cfg (some i) = 0 := hempty
    rw [hnone] at hp
    exact absurd hp (Multiset.notMem_zero _)

instance {ι : Type} [Fintype ι] (cfg : Config ι Call Answer Unit World) (i : ι) (c : Choice) :
    Decidable (Minting cfg i c) := by
  unfold Minting NewID
  infer_instance

def racing : Bool → Operation
  | true => .ingest mailRoute "s@x" photoMail
  | false => .delete (systemFor mailRoute.tenantID) [3]

-- the ticket goes between its insert and the row of its attachment
def racingSchedule : List (Bool × Choice) :=
  ((List.replicate 7 true ++ [false] ++ List.replicate 4 true).zipIdx).map fun p =>
    (p.1, { newID := [p.2.toUInt8] })

def afterRacing : Config Bool Call Answer Unit World :=
  letI := asciiLibrary
  (Config.start {} fun i => (racing i).act {}).schedule step racingSchedule

theorem attachments_in_step_racing :
    letI := asciiLibrary
    afterRacing.Done ∧ afterRacing.state.mem.tickets.rows = [] ∧ NamedOnce afterRacing.state := by
  let := asciiLibrary
  have hreach : Reaches step Minting (Config.start {} fun i => (racing i).act {}) afterRacing :=
    Reaches.refl.schedule racingSchedule (by decide +kernel)
  have hresult : ∀ i, (afterRacing.threads i).prog.result? = some () := by decide +kernel
  have hdone : afterRacing.Done := fun i => ⟨(), Prog.eq_ret_of_result? (hresult i)⟩
  have hops : ∀ i, (racing i).movesAttachments := fun i => by cases i <;> trivial
  have hstep := attachments_in_step {} rfl racing hops (w := {}) ⟨nofun, nofun⟩ hreach
  exact ⟨hdone, by decide +kernel, hstep.2 hdone⟩

end TangraTicket.Services
