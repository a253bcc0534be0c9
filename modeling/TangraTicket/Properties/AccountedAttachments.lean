import TangraTicket.Library.GoUtf8
import TangraTicket.Properties.RefusedDelivery

/-!
What an accepted delivery keeps of the attachments of its message: a row with its object for each,
or a note on the ticket that names it.
-/

namespace TangraTicket.Services

open GoText Store KeyedTable CallProgram

def Stored (w : World) (T ticketID commentID : GoString) (a : MailAttachment) : Prop :=
  ∃ row ∈ w.mem.attachments.rows, row.tenantID = T ∧ row.ticketID = ticketID ∧ row.commentID = commentID ∧
    row.filename = a.filename ∧ row.contentType = a.contentType ∧
    ∃ o, w.objects.get? row.storageKey = some o ∧ o.data = a.data

def NamedUnstored [GoLibrary] (w : World) (T ticketID filename : GoString) : Prop :=
  ∃ c ∈ w.mem.comments.rows, c.tenantID = T ∧ c.ticketID = ticketID ∧ c.internal = true ∧
    ∃ size, goString "Attachment " ++ GoLibrary.quote filename ++ goString " (" ++ decimal size ++
      goString " bytes) was not stored" <:+: c.body

def Placed (w w' : World) (T : GoString) (msg : Message) (receipt : Inbound.Receipt)
    (commentID : GoString) : Prop :=
  match receipt.outcome with
  | .threaded => w.mem.comments.get? commentID = none ∧ ∃ c ∈ w'.mem.comments.rows, c.id = commentID ∧
      c.tenantID = T ∧ c.ticketID = receipt.ticketID ∧ c.messageID = msg.messageID ∧ c.internal = false
  | _ => commentID = []

def AccountsFor [GoLibrary] (w w' : World) (T : GoString) (msg : Message)
    (receipt : Inbound.Receipt) : Prop :=
  (∃ commentID, Placed w w' T msg receipt commentID ∧ ∀ a ∈ msg.attachments,
    Stored w' T receipt.ticketID commentID a ∨ NamedUnstored w' T receipt.ticketID a.filename) ∧
  ∀ s ∈ msg.skipped, NamedUnstored w' T receipt.ticketID s.filename

section HandsOff

variable {w w' w₀ : World} {T ticketID commentID : GoString} (h : HandsOff w w')

include h

theorem Stored.handsOff {a : MailAttachment} (hs : Stored w T ticketID commentID a) :
    Stored w' T ticketID commentID a := by
  unfold Stored
  rw [h.attachments, h.objects]
  exact hs

theorem NamedUnstored.handsOff [GoLibrary] {filename : GoString}
    (hn : NamedUnstored w T ticketID filename) :
    NamedUnstored w' T ticketID filename := by
  obtain ⟨c, hc, hrest⟩ := hn
  obtain ⟨dl, hdl⟩ := h.comments c hc
  exact ⟨_, hdl, hrest⟩

theorem Placed.handsOff {msg : Message} {receipt : Inbound.Receipt}
    (hp : Placed w₀ w T msg receipt commentID) :
    Placed w₀ w' T msg receipt commentID := by
  rcases receipt with ⟨outcome, ticketID⟩
  cases outcome with
  | threaded =>
    obtain ⟨hnew, c, hc, hrest⟩ := hp
    obtain ⟨dl, hdl⟩ := h.comments c hc
    exact ⟨hnew, _, hdl, hrest⟩
  | _ => exact hp

theorem AccountsFor.handsOff [GoLibrary] {msg : Message} {receipt : Inbound.Receipt}
    (ha : AccountsFor w₀ w T msg receipt) : AccountsFor w₀ w' T msg receipt := by
  obtain ⟨⟨commentID, hplaced, hstored⟩, hskipped⟩ := ha
  refine ⟨⟨commentID, hplaced.handsOff h, fun a ha => ?_⟩, fun s hs => (hskipped s hs).handsOff h⟩
  rcases hstored a ha with hs | hn
  · exact .inl (hs.handsOff h)
  · exact .inr (hn.handsOff h)

end HandsOff

theorem skippedLine_eq [GoLibrary] (s : Skipped) :
    Inbound.skippedLine s = (goString "Attachment " ++ GoLibrary.quote s.filename ++
      goString " (" ++ decimal s.size ++
      goString " bytes) was not stored") ++ goString ": it exceeds the size limit" ++ [0x2E, 0x0A] := by
  have htail : goString " bytes) was not stored: it exceeds the size limit.\n" =
      goString " bytes) was not stored" ++ (goString ": it exceeds the size limit" ++ [0x2E, 0x0A]) := by
    decide +kernel
  simp only [Inbound.skippedLine, htail, List.append_assoc]

def noteLines [GoLibrary] (msg : Message) : GoString :=
  msg.skipped.flatMap Inbound.skippedLine ++ (if msg.truncated then Inbound.truncatedLine else [])

theorem noteLines_end [GoLibrary] {msg : Message} (h : msg.skipped ≠ []) :
    ∃ pre, noteLines msg = pre ++ [0x2E, 0x0A] := by
  unfold noteLines
  split
  · have hline : Inbound.truncatedLine = goString ("Some parts of this message were not processed: " ++
        "it exceeds the MIME part or nesting limit") ++ [0x2E, 0x0A] := by decide +kernel
    exact ⟨_, by rw [hline, ← List.append_assoc]⟩
  · have hlast : msg.skipped = msg.skipped.dropLast ++ [msg.skipped.getLast h] :=
      (List.dropLast_append_getLast h).symm
    rw [hlast, List.flatMap_append, List.append_nil]
    rw [List.flatMap_singleton, skippedLine_eq, ← List.append_assoc]
    exact ⟨_, rfl⟩

theorem noteLines_start [GoLibrary] {msg : Message} (h : msg.skipped ≠ []) :
    ∃ post, noteLines msg = 0x41 :: post := by
  obtain ⟨s, rest, hs⟩ := List.exists_cons_of_ne_nil h
  have hword : goString "Attachment " = 0x41 :: goString "ttachment " := by decide
  simp only [noteLines, hs, List.flatMap_cons, Inbound.skippedLine, hword, List.cons_append]
  exact ⟨_, rfl⟩

theorem noteBody_eq [GoLibrary] {msg : Message} (h : msg.skipped ≠ []) :
    noteLines msg = Inbound.noteBody msg ++ [0x0A] := by
  obtain ⟨pre, hpre⟩ := noteLines_end h
  obtain ⟨post, hpost⟩ := noteLines_start h
  have htrim : Inbound.noteBody msg = trimSpace (noteLines msg) := rfl
  cases pre with
  | nil =>
    rw [hpost] at hpre
    cases hpre
  | cons x m =>
    rw [hpost, List.cons_append] at hpre
    obtain ⟨rfl, -⟩ := List.cons.inj hpre
    rw [htrim, hpost, hpre, ← List.cons_append, trimSpace_line m (by decide) (by decide)
      (by decide) (by decide)]
    · simp
    · simp only [List.mem_singleton, forall_eq]
      decide

theorem noteBody_names [GoLibrary] {msg : Message} {s : Skipped} (hs : s ∈ msg.skipped) :
    goString "Attachment " ++ GoLibrary.quote s.filename ++ goString " (" ++ decimal s.size ++
      goString " bytes) was not stored" <:+: Inbound.noteBody msg := by
  have hbody := noteBody_eq (List.ne_nil_of_mem hs)
  obtain ⟨before, after, hsplit⟩ := List.append_of_mem hs
  have hlines : noteLines msg = (before.flatMap Inbound.skippedLine ++ (goString "Attachment " ++
      GoLibrary.quote s.filename ++ goString " (" ++ decimal s.size ++
      goString " bytes) was not stored")) ++
      (goString ": it exceeds the size limit" ++ [0x2E, 0x0A] ++ after.flatMap Inbound.skippedLine ++
        (if msg.truncated then Inbound.truncatedLine else [])) := by
    simp only [noteLines, hsplit, List.flatMap_append, List.flatMap_cons, skippedLine_eq, List.append_assoc]
  have hne : goString ": it exceeds the size limit" ++ [0x2E, 0x0A] ++ after.flatMap Inbound.skippedLine ++
      (if msg.truncated then Inbound.truncatedLine else []) ≠ [] := by simp
  have hdrop := congrArg List.dropLast (hbody.symm.trans hlines)
  rw [List.dropLast_concat, List.dropLast_append_of_ne_nil hne] at hdrop
  rw [hdrop]
  exact ⟨_, _, rfl⟩

/-- An id that no comment, no attachment and no object key has. -/
def Unused (w : World) (id : GoString) : Prop :=
  w.mem.comments.get? id = none ∧ w.mem.attachments.get? id = none ∧
    (∀ o ∈ w.objects.rows, ¬ 0x2F :: id <:+ o.key) ∧ ∀ row ∈ w.mem.attachments.rows,
    ¬ 0x2F :: id <:+ row.storageKey

theorem Unused.object {w : World} {id : GoString} (h : Unused w id) (T ticketID : GoString) :
    w.objects.get? (attachmentKey T ticketID id) = none := by
  refine Table.get?_eq_none.mpr fun o ho heq => h.2.2.1 o ho ?_
  rw [heq]
  exact attachmentKey_suffix T ticketID id

theorem Unused.row {w : World} {id : GoString} (h : Unused w id) (T ticketID : GoString) :
    ∀ row ∈ w.mem.attachments.rows, row.storageKey ≠ attachmentKey T ticketID id := by
  intro row hrow heq
  refine h.2.2.2 row hrow ?_
  rw [heq]
  exact attachmentKey_suffix T ticketID id

/-- A minted id is new, and neither the row of an attachment nor the note is refused. -/
def Keeping (c : Choice) (e : Call) (w : World) : Prop :=
  match e with
  | .newID => Unused w c.newID
  | .store (.createAttachment _) => c.fail .createAttachment = false
  | .store (.createComment x) => x.internal = true → c.fail .createComment = false
  | _ => True

structure Uploaded (w : World) (T ticketID : GoString) (a : MailAttachment) (s : Attachment) : Prop where
  tenant : s.tenantID = T
  ticket : s.ticketID = ticketID
  filename : s.filename = a.filename
  contentType : s.contentType = a.contentType
  key : s.storageKey = attachmentKey T ticketID s.id
  object : ∃ o, w.objects.get? s.storageKey = some o ∧ o.data = a.data
  newID : w.mem.attachments.get? s.id = none
  newKey : ∀ row ∈ w.mem.attachments.rows, row.storageKey ≠ s.storageKey

theorem Uploaded.of_same {w w' : World} {T ticketID : GoString} {a : MailAttachment} {s : Attachment}
    (h : Uploaded w T ticketID a s) (hrows : w'.mem.attachments = w.mem.attachments)
    (hobjects : w'.objects.get? s.storageKey = w.objects.get? s.storageKey) :
    Uploaded w' T ticketID a s where
  tenant := h.tenant
  ticket := h.ticket
  filename := h.filename
  contentType := h.contentType
  key := h.key
  object := hobjects ▸ h.object
  newID := hrows ▸ h.newID
  newKey := hrows ▸ h.newKey

theorem Uploaded.key_ne {w : World} {T ticketID key : GoString} {a : MailAttachment} {s : Attachment}
    (h : Uploaded w T ticketID a s) (hkey : w.objects.get? key = none) : s.storageKey ≠ key := by
  rintro rfl
  obtain ⟨o, ho, -⟩ := h.object
  rw [hkey] at ho
  cases ho

def UploadedAll (w : World) (T ticketID : GoString) (atts : List MailAttachment)
    (staged : List Attachment) : Prop :=
  List.Forall₂ (Uploaded w T ticketID) atts staged ∧ (staged.map Attachment.storageKey).Nodup

theorem UploadedAll.handsOff {w w' : World} {T ticketID : GoString} {atts : List MailAttachment}
    {staged : List Attachment} (h : UploadedAll w T ticketID atts staged) (hw : HandsOff w w') :
    UploadedAll w' T ticketID atts staged :=
  ⟨h.1.imp fun _ _ hs => hs.of_same hw.attachments (by rw [hw.objects]), h.2⟩

theorem UploadedAll.put {w : World} {T ticketID : GoString} {pre : List MailAttachment}
    {out : List Attachment} (h : UploadedAll w T ticketID pre out) {a : MailAttachment}
    {s : Attachment} {o : Object} (hkey : s.storageKey = o.key)
    (hs : Uploaded { w with objects := w.objects.put o } T ticketID a s)
    (hobject : w.objects.get? o.key = none) :
    UploadedAll { w with objects := w.objects.put o } T ticketID (pre ++ [a]) (out ++ [s]) := by
  have hother : ∀ k ∈ out.map Attachment.storageKey, k ≠ o.key := by
    have hall := h.1
    clear h
    induction hall with
    | nil => nofun
    | cons hx _ ih => exact List.forall_mem_cons.mpr ⟨hx.key_ne hobject, ih⟩
  have hold : ∀ b x, Uploaded w T ticketID b x →
      Uploaded { w with objects := w.objects.put o } T ticketID b x :=
    fun b x hx => hx.of_same rfl (by rw [Table.get?_put, if_neg (hx.key_ne hobject)])
  refine ⟨List.rel_append (h.1.imp hold) (.cons hs .nil), ?_⟩
  · rw [List.map_append, List.nodup_append]
    refine ⟨h.2, List.nodup_singleton _, ?_⟩
    simp only [List.map_cons, List.map_nil, List.mem_singleton, hkey]
    rintro k hk _ rfl
    exact hother k hk

def Hosts (m : Mem) (T ticketID commentID : GoString) : Prop :=
  (∃ t ∈ m.tickets.rows, t.tenantID = T ∧ t.id = ticketID) ∧
    (commentID ≠ [] → ∃ c ∈ m.comments.rows, c.id = commentID ∧ c.tenantID = T ∧ c.ticketID = ticketID)

theorem createAttachment_ok (now : Time) {m : Mem} {a : Attachment}
    (hhost : Hosts m a.tenantID a.ticketID a.commentID) (hid : m.attachments.get? a.id = none)
    (hkey : ∀ row ∈ m.attachments.rows, row.storageKey ≠ a.storageKey) :
    m.createAttachment now a =
      (.ok (),
        { m with
          attachments := m.attachments.put { a with createdAt := orNow a.createdAt now } }) := by
  obtain ⟨⟨t, ht, hten, htid⟩, hcomment⟩ := hhost
  have hrow : ¬ (a.commentID ≠ [] ∧
      ¬ (m.comments.get? a.commentID).any (fun c => c.tenantID = a.tenantID ∧
        c.ticketID = a.ticketID)) := by
    rintro ⟨hne, hany⟩
    obtain ⟨c, hc, hcid, hcten, hctid⟩ := hcomment hne
    rw [Table.get?_eq_some.mpr ⟨hc, hcid⟩] at hany
    simp [hcten, hctid] at hany
  have hkeys : ¬ m.attachments.rows.any (fun x => x.storageKey = a.storageKey) := by
    simpa using hkey
  rw [Mem.createAttachment, ticket_eq_ok ht hten htid]
  simp only [if_neg hrow, hid, Option.isSome_none, Bool.false_eq_true, if_false, if_neg hkeys]

structure Records (w w' : World) (T ticketID commentID : GoString) (atts : List MailAttachment) : Prop where
  stored : ∀ a ∈ atts, Stored w' T ticketID commentID a
  rows : ∀ row ∈ w.mem.attachments.rows, row ∈ w'.mem.attachments.rows
  objects : w'.objects = w.objects
  comments : w'.mem.comments = w.mem.comments
  tickets : w'.mem.tickets = w.mem.tickets

theorem Uploaded.recorded {w : World} {T ticketID : GoString} {a b : MailAttachment} {s x : Attachment}
    (hx : Uploaded w T ticketID b x) (hs : Uploaded w T ticketID a s) (hne : x.storageKey ≠ s.storageKey)
    {row : Attachment} (hid : row.id = s.id) (hkey : row.storageKey = s.storageKey) :
    Uploaded { w with mem := { w.mem with attachments := w.mem.attachments.put row } } T ticketID b x := by
  have hids : x.id ≠ row.id := by
    intro heq
    apply hne
    rw [hx.key, hs.key, heq, hid]
  refine ⟨hx.tenant, hx.ticket, hx.filename, hx.contentType, hx.key, hx.object, ?_, ?_⟩
  · rw [Table.get?_put, if_neg hids]
    exact hx.newID
  · intro r hr
    rcases Table.mem_put.mp hr with rfl | ⟨hr, -⟩
    · rw [hkey]
      exact hne.symm
    · exact hx.newKey r hr

theorem uploaded_recorded {w : World} {T ticketID : GoString} {a : MailAttachment} {s : Attachment}
    (row : Attachment) {atts : List MailAttachment} {staged : List Attachment}
    (hs : Uploaded w T ticketID a s) (hall : List.Forall₂ (Uploaded w T ticketID) atts staged)
    (hnew : s.storageKey ∉ staged.map Attachment.storageKey) (hid : row.id = s.id)
    (hkey : row.storageKey = s.storageKey) :
    List.Forall₂ (Uploaded { w with mem := { w.mem with attachments := w.mem.attachments.put row } }
      T ticketID) atts
      staged := by
  induction hall with
  | nil => exact .nil
  | @cons b x atts staged hx _ ih =>
    rw [List.map_cons, List.mem_cons, not_or] at hnew
    exact .cons (hx.recorded hs (Ne.symm hnew.1) hid hkey) (ih hnew.2)

section Runs

variable [GoLibrary] {T ticketID : GoString} {w : World}

theorem ensures_uploadAll (atts : List MailAttachment) {pre : List MailAttachment} {out : List Attachment}
    (h : UploadedAll w T ticketID pre out) :
    EnsuresWhen step Keeping (Inbound.upload T ticketID atts out).run
      (fun r w' => ∀ st, r = .ok st → w'.mem = w.mem ∧ UploadedAll w' T ticketID (pre ++ atts) st) w := by
  induction atts generalizing pre out w with
  | nil =>
    rintro st ⟨⟩
    rw [List.append_nil]
    exact ⟨rfl, h⟩
  | cons a atts ih =>
    refine EnsuresWhen.lift fun c hc => EnsuresWhen.lift fun c' hc' => ?_
    simp only [step]
    cases c'.putFails with
    | true => exact EnsuresWhen.lift ((EnsuresWhen.any _ _).mono (by rintro _ _ _ _ ⟨⟩))
    | false =>
      have hnew : Unused w c.newID := hc
      rw [← List.singleton_append, ← List.append_assoc]
      refine ih (h.put (o := ⟨_, a.data, a.contentType⟩) rfl
        ⟨rfl, rfl, rfl, rfl, rfl, ?_, hnew.2.1, hnew.row T ticketID⟩ (hnew.object T ticketID))
      exact ⟨_, by rw [Table.get?_put, if_pos rfl], rfl⟩

theorem ensures_record (commentID : GoString) {atts : List MailAttachment} {staged : List Attachment}
    (h : UploadedAll w T ticketID atts staged) (hhost : Hosts w.mem T ticketID commentID) :
    EnsuresWhen step Keeping (Inbound.record commentID staged)
      (fun _ w' => Records w w' T ticketID commentID atts) w := by
  induction staged generalizing w atts with
  | nil =>
    cases h.1
    exact ⟨nofun, fun _ h => h, rfl, rfl, rfl⟩
  | cons s staged ih =>
    obtain ⟨hall, hnodup⟩ := h
    cases hall with
    | @cons a _ atts _ hs hall =>
      obtain ⟨hnew, hnodup⟩ := List.nodup_cons.mp hnodup
      refine EnsuresWhen.bind fun c hc => ?_
      have hfail : c.fail .createAttachment = false := hc
      have hok := createAttachment_ok c.now (a := { s with commentID := commentID })
        (by rw [hs.tenant, hs.ticket]; exact hhost) hs.newID hs.newKey
      rw [step_store hfail, performStore, hok]
      let row : Attachment := { s with commentID := commentID, createdAt := orNow s.createdAt c.now }
      have hrest := uploaded_recorded row hs hall hnew rfl rfl
      refine (ih ⟨hrest, hnodup⟩ hhost).mono fun _ w' hw' => ?_
      refine ⟨List.forall_mem_cons.mpr ⟨?_, hw'.stored⟩, ?_, hw'.objects, hw'.comments, hw'.tickets⟩
      · obtain ⟨o, ho, hdata⟩ := hs.object
        exact ⟨row, hw'.rows row (Table.mem_put.mpr (.inl rfl)), hs.tenant, hs.ticket, rfl, hs.filename,
          hs.contentType, o, hw'.objects ▸ ho, hdata⟩
      · intro x hx
        exact hw'.rows x (Table.mem_put.mpr (.inr ⟨hx, Table.get?_eq_none.mp hs.newID x hx⟩))

theorem ensures_note {msg : Message}
    (hticket : ∃ t ∈ w.mem.tickets.rows, t.tenantID = T ∧ t.id = ticketID) :
    EnsuresWhen step Keeping (Inbound.note T ticketID msg)
      (fun _ w' => HandsOff w w' ∧ ∀ s ∈ msg.skipped, NamedUnstored w' T ticketID s.filename) w := by
  unfold Inbound.note
  split
  · rename_i hnone
    have hskipped : msg.skipped = [] := List.isEmpty_iff.mp hnone.1
    refine ⟨.refl w, ?_⟩
    rw [hskipped]
    exact nofun
  · refine EnsuresWhen.bind fun c hc => EnsuresWhen.bind fun c' hc' => ?_
    obtain ⟨t, ht, hten, hid⟩ := hticket
    have hfail : c'.fail .createComment = false := hc' rfl
    refine ⟨aloof_step (e := .store (.createComment _)) trivial c' w, fun s hs => ?_⟩
    simp only [step, StoreCall.method, hfail, Bool.false_eq_true, if_false, performStore]
    rw [createComment_ok c'.now ht hten hid hc.1 fun hne => absurd rfl hne]
    exact ⟨_, Table.mem_put.mpr (.inl rfl), rfl, rfl, rfl, s.size, noteBody_names hs⟩

theorem ensures_kept (w₀ : World) {commentID : GoString} {msg : Message} {staged : List Attachment}
    (receipt : Inbound.Receipt) (h : UploadedAll w T receipt.ticketID msg.attachments staged)
    (hhost : Hosts w.mem T receipt.ticketID commentID) (hplaced : Placed w₀ w T msg receipt commentID) :
    EnsuresWhen step Keeping (Inbound.record commentID staged)
      (fun _ w₁ => EnsuresWhen step Keeping (Inbound.note T receipt.ticketID msg)
        (fun _ w₂ => AccountsFor w₀ w₂ T msg receipt) w₁) w := by
  refine (ensures_record commentID h hhost).mono fun _ w₁ hrec => ?_
  have hplaced₁ : Placed w₀ w₁ T msg receipt commentID := by
    unfold Placed
    rw [hrec.comments]
    exact hplaced
  have hticket : ∃ t ∈ w₁.mem.tickets.rows, t.tenantID = T ∧ t.id = receipt.ticketID := by
    rw [hrec.tickets]
    exact hhost.1
  refine (ensures_note hticket).mono fun _ w₂ hnote => ⟨⟨commentID, hplaced₁.handsOff hnote.1, ?_⟩, hnote.2⟩
  exact fun a ha => .inl ((hrec.stored a ha).handsOff hnote.1)

def KeepsAll (w : World) (T : GoString) (msg : Message) (r : Except Err Inbound.Receipt)
    (w' : World) : Prop :=
  ∀ receipt, r = .ok receipt → receipt.outcome = .created ∨ receipt.outcome = .threaded →
    AccountsFor w w' T msg receipt

theorem ensures_createComment {P : Choice → Call → World → Prop} (x : Comment) :
    EnsuresWhen step P (tryAsk (.createComment x)) (fun r w' => ∀ u, r = .ok u → HandsOff w w' ∧
      (∃ t ∈ w'.mem.tickets.rows, t.tenantID = x.tenantID ∧ t.id = x.ticketID) ∧
      ∃ y ∈ w'.mem.comments.rows, y.id = x.id ∧ y.tenantID = x.tenantID ∧ y.ticketID = x.ticketID ∧
        y.messageID = x.messageID ∧ y.internal = x.internal) w := by
  intro c _
  have haloof := aloof_step (e := .store (.createComment x)) trivial c w
  cases hf : c.fail (StoreCall.createComment x).method with
  | true =>
    rw [step_store_failed hf]
    rintro _ ⟨⟩
  | false =>
    rw [step_store hf] at haloof ⊢
    obtain ⟨e, he⟩ | ⟨t, -, hten, hid, -, -, heq⟩ := createComment_cases c.now w.mem x
    · simp only [performStore, he]
      rintro _ ⟨⟩
    · simp only [performStore, heq] at haloof ⊢
      refine fun u _ => ⟨haloof, ⟨_, Table.mem_put.mpr (.inl rfl), hten, hid⟩, ?_⟩
      exact ⟨_, Table.mem_put.mpr (.inl rfl), rfl, rfl, rfl, rfl, rfl⟩

theorem ensures_createTicket {P : Choice → Call → World → Prop} (x : Ticket) :
    EnsuresWhen step P (tryAsk (.createTicket x)) (fun r w' => ∀ u, r = .ok u → HandsOff w w' ∧
      ∃ t ∈ w'.mem.tickets.rows, t.tenantID = x.tenantID ∧ t.id = x.id) w := by
  intro c _
  have haloof := aloof_step (e := .store (.createTicket x)) trivial c w
  cases hf : c.fail (StoreCall.createTicket x).method with
  | true =>
    rw [step_store_failed hf]
    rintro _ ⟨⟩
  | false =>
    rw [step_store hf] at haloof ⊢
    obtain ⟨e, he⟩ | ⟨-, -, heq⟩ := createTicket_cases c.now w.mem x
    · simp only [performStore, he]
      rintro _ ⟨⟩
    · simp only [performStore, heq] at haloof ⊢
      exact fun u _ => ⟨haloof, _, Table.mem_put.mpr (.inl rfl), rfl, rfl⟩

variable (d : Deps) {subj : Subjects} (hT : subj.tenantID = T)

include hT

theorem keeps_replied {ticketID commentID : GoString} {msg : Message}
    {staged : List Attachment} {w₀ : World} (h : UploadedAll w T ticketID msg.attachments staged)
    (hhost : Hosts w.mem T ticketID commentID)
    (hplaced : Placed w₀ w T msg ⟨.threaded, ticketID⟩ commentID) :
    EnsuresWhen step Keeping (Inbound.replied d subj ticketID commentID msg staged)
      (fun _ w' => AccountsFor w₀ w' T msg ⟨.threaded, ticketID⟩) w := by
  subst hT
  rw [replied_eq]
  refine EnsuresWhen.bind ((ensures_kept _ _ h hhost hplaced).mono fun _ w₁ hw₁ =>
    EnsuresWhen.bind (hw₁.mono ?_))
  exact fun _ w₂ hw₂ => (ensures_aloof w₂ (aloof_replyTail d subj ticketID)).mono fun _ _ => hw₂.handsOff

theorem keeps_opened (route : MailboxRoute) (recipient : GoString) {msg : Message} (t : Ticket)
    (plan : Rules.Plan) {staged : List Attachment} (w₀ : World)
    (h : UploadedAll w T t.id msg.attachments staged) (hhost : Hosts w.mem T t.id []) :
    EnsuresWhen step Keeping (Inbound.opened d subj route recipient msg t plan staged)
      (fun _ w' => AccountsFor w₀ w' T msg ⟨.created, t.id⟩) w := by
  subst hT
  rw [opened_eq]
  have hkept := ensures_kept w₀ ⟨.created, t.id⟩ h hhost rfl
  refine EnsuresWhen.bind (hkept.mono fun _ w₁ hw₁ => EnsuresWhen.bind (hw₁.mono ?_))
  exact fun _ w₂ hw₂ => (ensures_aloof w₂ (aloof_openTail d subj route recipient msg t plan)).mono
    fun _ _ => hw₂.handsOff

theorem keeps_reply (ticketID : GoString) (msg : Message) :
    EnsuresWhen step Keeping (Inbound.reply d subj ticketID msg).run (KeepsAll w T msg) w := by
  subst hT
  have hnil : UploadedAll w subj.tenantID ticketID [] [] := ⟨.nil, List.nodup_nil⟩
  refine (ensures_uploadAll msg.attachments hnil).andThen (fun staged w₁ hst => ?_) nofun
  obtain ⟨hmem, hup⟩ := hst staged rfl
  refine EnsuresWhen.lift fun c hc => EnsuresWhen.lift ((ensures_createComment _).mono ?_)
  rintro (e | u) w₂ hw
  · refine EnsuresWhen.lift ((EnsuresWhen.any _ _).mono fun _ w₃ _ => ?_)
    cases e with
    | conflict => rintro receipt ⟨⟩ (h | h) <;> cases h
    | _ => exact nofun
  · obtain ⟨hoff, hticket, y, hy, hyid, hyten, hytid, hymsg, hyint⟩ := hw u rfl
    have hnewID : w.mem.comments.get? c.newID = none := hmem ▸ hc.1
    have hplaced : Placed w w₂ subj.tenantID msg ⟨.threaded, ticketID⟩ c.newID :=
      ⟨hnewID, y, hy, hyid, hyten, hytid, hymsg, hyint⟩
    have hhost : Hosts w₂.mem subj.tenantID ticketID c.newID :=
      ⟨hticket, fun _ => ⟨y, hy, hyid, hyten, hytid⟩⟩
    refine EnsuresWhen.lift ((keeps_replied d rfl (hup.handsOff hoff) hhost hplaced).mono
      fun _ w₃ hw₃ => ?_)
    rintro receipt ⟨⟩ -
    exact hw₃

theorem keeps_create (route : MailboxRoute) (recipient : GoString) (msg : Message)
    (plan : Rules.Plan) (w₀ : World) :
    EnsuresWhen step Keeping (Inbound.create d subj route recipient msg plan).run
      (KeepsAll w₀ T msg) w := by
  subst hT
  refine EnsuresWhen.lift fun c hc => ?_
  have hnil : UploadedAll w subj.tenantID c.newID [] [] := ⟨.nil, List.nodup_nil⟩
  refine (ensures_uploadAll msg.attachments hnil).andThen (fun staged w₁ hst => ?_) nofun
  obtain ⟨hmem, hup⟩ := hst staged rfl
  refine EnsuresWhen.lift ((ensures_createTicket _).mono ?_)
  rintro (e | u) w₂ hw
  · refine EnsuresWhen.lift ((EnsuresWhen.any _ _).mono fun _ w₃ _ => ?_)
    split
    · refine EnsuresWhen.lift ((EnsuresWhen.any _ _).mono ?_)
      rintro (e' | ex) w₄ -
      · exact nofun
      · rintro receipt ⟨⟩ (h | h) <;> cases h
    · exact nofun
  · obtain ⟨hoff, hticket⟩ := hw u rfl
    have hopened := keeps_opened d rfl route recipient
      (Inbound.newTicket subj route recipient msg c.newID) plan w₀
      (hup.handsOff hoff)
      ⟨hticket, fun h => absurd rfl h⟩
    refine EnsuresWhen.lift (hopened.mono fun _ w₃ hw₃ => ?_)
    rintro receipt ⟨⟩ -
    exact hw₃

theorem keeps_openNew (route : MailboxRoute) (recipient : GoString) (msg : Message) (w₀ : World) :
    EnsuresWhen step Keeping (Inbound.openNew d subj route recipient msg).run (KeepsAll w₀ T msg) w := by
  refine EnsuresWhen.lift ((EnsuresWhen.any _ w).mono fun plan w₁ _ => ?_)
  split
  · rintro receipt ⟨⟩ (h | h) <;> cases h
  · exact keeps_create d hT route recipient msg plan w₀

theorem keeps_ingest (route : MailboxRoute) (hroute : route.tenantID = T) (recipient : GoString)
    (msg : Message) :
    EnsuresWhen step Keeping (Inbound.ingest d subj route recipient msg).run (KeepsAll w T msg) w := by
  have hnew (w₁ : World) := keeps_openNew (w := w₁) d hT route recipient msg w
  unfold Inbound.ingest
  rw [hroute]
  refine (ensures_peek w (issues_duplicate (fun _ he => he) msg.messageID)).andThen ?_ nofun
  rintro (_ | id) _ rfl
  · refine EnsuresWhen.lift ((ensures_peek w (issues_resolve (fun _ he => he) _ _ _)).mono ?_)
    rintro (e | _ | found) _ rfl
    · exact nofun
    · exact hnew w
    · dsimp only
      split
      · exact hnew w
      · refine EnsuresWhen.lift ((keeps_reply d hT found.ticketID msg).mono ?_)
        rintro (e | receipt) w' hw
        · cases e with
          | ticketGone => exact hnew w'
          | _ => exact nofun
        · exact hw
  · rintro receipt ⟨⟩ (h | h) <;> cases h

end Runs

/-- Where no row of an attachment and no note is refused, an accepted delivery accounts for every
attachment. -/
theorem accepted_accounts_for [GoLibrary] (d : Deps) (w : World) (route : MailboxRoute)
    (recipient : GoString) (msg : Message) (cs : ℕ → Choice)
    (hcs : Meets step Keeping (Inbound.ingest d (systemFor route.tenantID) route recipient msg).run w cs)
    (receipt : Inbound.Receipt)
    (hvalue : (run step (Inbound.ingest d (systemFor route.tenantID) route recipient msg).run w
      cs).value = .ok receipt)
    (houtcome : receipt.outcome = .created ∨ receipt.outcome = .threaded) :
    AccountsFor w
      (run step (Inbound.ingest d (systemFor route.tenantID) route recipient msg).run w cs).state
        route.tenantID msg receipt :=
  (keeps_ingest d rfl route rfl recipient msg).run cs hcs receipt hvalue houtcome

def numbered (fail : Method → Bool) (n : ℕ) : Choice := { newID := [n.toUInt8], fail := fail }

theorem accepted_accounts_for_photo :
    letI := asciiLibrary
    let out := run step (Inbound.ingest {} (systemFor mailRoute.tenantID) mailRoute "s@x" photoMail).run {}
      (numbered fun _ => false)
    out.value = .ok ⟨.created, [3]⟩ ∧ AccountsFor {} out.state mailRoute.tenantID photoMail
      ⟨.created, [3]⟩ := by
  refine ⟨rfl, @accepted_accounts_for asciiLibrary {} {} mailRoute "s@x" photoMail _ ?_ _ rfl (.inl rfl)⟩
  have hunused (id : GoString) : Unused {} id := ⟨rfl, rfl, nofun, nofun⟩
  exact And.intro trivial (And.intro trivial
    (And.intro trivial (And.intro (hunused _) (And.intro (hunused _)
      (And.intro trivial (And.intro trivial
        (And.intro rfl (And.intro trivial (And.intro trivial trivial)))))))))

/-- The row of the attachment is refused: its object goes too, and no note tells of it. -/
theorem accepted_loses_attachment :
    letI := asciiLibrary
    let out := run step (Inbound.ingest {} (systemFor mailRoute.tenantID) mailRoute "s@x" photoMail).run {}
      (numbered fun μ => μ = .createAttachment)
    out.value = .ok ⟨.created, [3]⟩ ∧ ¬ AccountsFor {} out.state mailRoute.tenantID photoMail
      ⟨.created, [3]⟩ := by
  let := asciiLibrary
  refine ⟨rfl, ?_⟩
  rintro ⟨⟨commentID, -, hstored⟩, -⟩
  rcases hstored photo List.mem_cons_self with ⟨row, hrow, -⟩ | ⟨c, hc, -⟩
  · exact List.not_mem_nil hrow
  · exact List.not_mem_nil hc

end TangraTicket.Services
