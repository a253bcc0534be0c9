import TangraTicket.Library.CappedWalk
import TangraTicket.Mailparse.Parse

/-!
The walk through the parts as a fold: the parts are listed in the order in which they are met, and
the walk does its work on a start of that list, cut off by the count of parts or by a multipart body
that is too deep.
-/

namespace TangraTicket.Mailparse

open GoText Services CappedWalk

variable [GoLibrary] [MailLibrary]

def inside (part : Part) : Option (GoString × List Part) :=
  match reading part with
  | none => none
  | some r =>
    if r.isMultipart ∧ ¬ r.isAttachment then
      some (r.mediaType, if r.params "boundary" = [] then [] else MailLibrary.parts part.body
        (r.params "boundary"))
    else none

abbrev PartVisit := Visit GoString Part

def visits (lim : Limits) (levels depth : ℕ) (parentType : GoString) (parts : List Part) : List PartVisit :=
  preorder inside lim.maxDepth.toNat levels depth parentType parts

namespace Parser

/-- What is done with a part, apart from entering it. -/
def work (p : Parser) (v : PartVisit) : Parser := p.visit (fun _ _ _ p => p) v.context v.depth v.node

def step (p : Parser) (v : PartVisit) : Parser :=
  if p.out.truncated then p
  else
    let p := { p with parts := p.parts + 1 }
    if (p.parts : ℤ) > p.lim.maxParts then p.truncate else p.work v

theorem attach_lim (filename mediaType contentID : GoString) (inline : Bool)
    (enc content : GoString) (p : Parser) :
    (p.attach filename mediaType contentID inline enc content).lim = p.lim := by
  unfold attach
  dsimp only
  split_ifs <;> rfl

theorem collect_lim (mediaType enc charset parentType content : GoString) (p : Parser) :
    (p.collect mediaType enc charset parentType content).lim = p.lim := by
  unfold collect
  dsimp only
  split_ifs <;> rfl

theorem work_lim (p : Parser) (v : PartVisit) : (p.work v).lim = p.lim := by
  unfold work visit
  split
  · rfl
  · dsimp only
    split_ifs
    · rfl
    · rfl
    · rfl
    · rfl
    · exact attach_lim ..
    · exact collect_lim ..
    · rfl

theorem step_eq {p : Parser} (h : p.out.truncated = false) (v : PartVisit) :
    p.step v = if (p.parts : ℤ) + 1 > p.lim.maxParts then
    ({ p with parts := p.parts + 1 } : Parser).truncate
      else ({ p with parts := p.parts + 1 } : Parser).work v := by
  rw [step, if_neg (by simp [h])]
  rfl

theorem foldl_step_lim (p : Parser) (vs : List PartVisit) : (vs.foldl step p).lim = p.lim := by
  induction vs generalizing p with
  | nil => rfl
  | cons v vs ih =>
    rw [List.foldl_cons, ih]
    cases htr : p.out.truncated with
    | true => rw [step, if_pos htr]
    | false =>
      rw [step_eq htr]
      split_ifs
      · rfl
      · exact work_lim _ _

theorem foldl_step_truncated {p : Parser} (h : p.out.truncated = true) (vs : List PartVisit) :
    vs.foldl step p = p := by
  induction vs with
  | nil => rfl
  | cons v vs ih =>
    have hstep : p.step v = p := by rw [step, if_pos h]
    rw [List.foldl_cons, hstep, ih]

def below (lim : Limits) (levels depth : ℕ) (part : Part) : List PartVisit :=
  match inside part with
  | none => []
  | some (k, parts) => if lim.maxDepth.toNat < depth + 1 then [] else visits lim levels (depth + 1) k parts

theorem visits_cons (lim : Limits) (levels depth : ℕ) (parentType : GoString) (part : Part)
    (rest : List Part) :
    visits lim (levels + 1) depth parentType (part :: rest) =
      ⟨depth, parentType, part⟩ ::
      (below lim levels depth part ++ visits lim (levels + 1) depth parentType rest) := by
  unfold visits preorder below
  rw [List.flatMap_cons]
  cases inside part <;> rfl

theorem visit_eq_foldl {levels : ℕ} {p : Parser} {depth : ℕ} (hlim : 0 ≤ p.lim.maxDepth)
    (ih : ∀ parts parentType, walk levels parts parentType (depth + 1) p =
      (visits p.lim levels (depth + 1) parentType parts).foldl step p) (parentType : GoString)
      (part : Part) :
    p.visit (walk levels) parentType depth part =
      (below p.lim levels depth part).foldl step (p.work ⟨depth, parentType, part⟩) := by
  unfold work visit below inside
  cases reading part with
  | none => rfl
  | some r =>
    dsimp only
    by_cases hnested : r.isMultipart ∧ ¬ r.isAttachment
    · have hdeep : (depth : ℤ) + 1 > p.lim.maxDepth ↔ p.lim.maxDepth.toNat < depth + 1 := by omega
      simp only [if_pos hnested, hdeep]
      by_cases h : p.lim.maxDepth.toNat < depth + 1
      · simp only [if_pos h, List.foldl_nil]
      · by_cases hb : r.params "boundary" = []
        · have hnil : visits p.lim levels (depth + 1) r.mediaType [] = [] := by cases levels <;> rfl
          simp only [if_neg h, hb, ne_eq, not_true_eq_false, if_false, if_true, hnil, List.foldl_nil]
        · simp only [if_neg h, ne_eq, hb, not_false_eq_true, if_true, if_false]
          exact ih _ _
    · simp only [if_neg hnested, List.foldl_nil]

theorem walk_eq_foldl (levels : ℕ) (parts : List Part) (parentType : GoString) (depth : ℕ) (p : Parser)
    (hlim : 0 ≤ p.lim.maxDepth) :
    walk levels parts parentType depth p = (visits p.lim levels depth parentType parts).foldl step p := by
  induction levels generalizing parts parentType depth p with
  | zero => rfl
  | succ levels ih =>
    rw [walk]
    induction parts generalizing p with
    | nil => rfl
    | cons part rest ihrest =>
      rw [visits_cons, List.foldl_cons, List.foldl_append, loop]
      cases htr : p.out.truncated with
      | true =>
        have hstep : p.step ⟨depth, parentType, part⟩ = p := by rw [step, if_pos htr]
        rw [if_pos rfl, hstep, foldl_step_truncated htr, foldl_step_truncated htr]
      | false =>
        rw [if_neg Bool.false_ne_true, step_eq htr]
        dsimp only
        by_cases hmax : (p.parts : ℤ) + 1 > p.lim.maxParts
        · have htrunc : (({ p with parts := p.parts + 1 } : Parser).truncate).out.truncated = true := rfl
          rw [if_pos hmax, foldl_step_truncated htrunc, foldl_step_truncated htrunc]
          exact if_pos hmax
        · have hvisit := visit_eq_foldl (p := { p with parts := p.parts + 1 }) hlim
            (fun ps pt => ih ps pt (depth + 1) { p with parts := p.parts + 1 } hlim) parentType part
          have hkept : (({ p with parts := p.parts + 1 } : Parser).visit
              (walk levels) parentType depth part).lim = p.lim := by
            rw [hvisit, foldl_step_lim, work_lim]
          have hrest :=
            ihrest (({ p with parts := p.parts + 1 } : Parser).visit
              (walk levels) parentType depth part)
              (by rw [hkept]; exact hlim)
          rw [if_neg hmax]
          refine (if_neg hmax).trans ?_
          rw [hrest, hkept, hvisit]

end Parser

/-- A file as it comes in a message; the file of a part is read up to a limit, that of a whole
message is there already. -/
structure File where
  filename : GoString
  mediaType : GoString
  contentID : GoString := []
  inline : Bool := false
  enc : GoString
  body : GoString
  ofPart : Bool := true

def fileOf (part : Part) : Option File :=
  match reading part with
  | none => none
  | some r =>
    if r.isMultipart ∧ ¬ r.isAttachment then none
    else if r.isAttachment ∨ r.isInline then
      some
        { filename := r.filename, mediaType := r.mediaType, contentID := r.contentID, inline := r.isInline
          enc := part.header.get "Content-Transfer-Encoding", body := part.body }
    else none

namespace File

variable (lim : Limits) (f : File)

def decoded : GoString := decodeTransfer f.body f.enc

def Fits : Prop := (f.decoded.length : ℤ) ≤ lim.maxAttachmentBytes

instance : Decidable (f.Fits lim) := inferInstanceAs (Decidable (_ ≤ _))

omit [GoLibrary] [MailLibrary] in
def Over : Prop := f.ofPart = true ∧ (f.body.length : ℤ) > 3 * lim.maxAttachmentBytes + 4096

omit [GoLibrary] [MailLibrary] in
instance : Decidable (f.Over lim) := inferInstanceAs (Decidable (_ ∧ _))

def attachment : MailAttachment :=
  ⟨safeFilename f.filename, Parser.storedType f.mediaType, f.contentID, f.inline, f.decoded⟩

/-- What a file leaves in the message when all of it is read. -/
def stored : Option MailAttachment := if f.Fits lim then some f.attachment else none

def refused : Option Skipped :=
  if f.Fits lim then none else some ⟨safeFilename f.filename, f.decoded.length⟩

def kept : Option MailAttachment := if f.Over lim then none else f.stored lim

def dropped : Option Skipped :=
  if f.Over lim then some ⟨safeFilename f.filename, (3 * lim.maxAttachmentBytes + 4096 + 1).toNat⟩
  else f.refused lim

end File

def addFiles (lim : Limits) (files : List File) (out : Message) : Message :=
  { out with
    attachments := out.attachments ++ files.filterMap (File.kept lim)
    skipped := out.skipped ++ files.filterMap (File.dropped lim) }

theorem addFiles_nil (lim : Limits) (out : Message) : addFiles lim [] out = out := by
  simp only [addFiles, List.filterMap_nil, List.append_nil]

theorem addFiles_addFiles (lim : Limits) (fs fs' : List File) (out : Message) :
    addFiles lim fs' (addFiles lim fs out) = addFiles lim (fs ++ fs') out := by
  simp only [addFiles, List.filterMap_append, List.append_assoc]

def markShort (short : Bool) (out : Message) : Message := { out with truncated := short }

omit [GoLibrary] [MailLibrary] in
theorem markShort_of_eq {out : Message} {short : Bool} (h : out.truncated = short) :
    markShort short out = out := by
  rw [← h]
  rfl

namespace Parser

theorem attach_out (p : Parser) (f : File) :
    (p.attach f.filename f.mediaType f.contentID f.inline f.enc f.body).out =
      { p.out with
        attachments := p.out.attachments ++ (f.stored p.lim).toList
        skipped := p.out.skipped ++ (f.refused p.lim).toList } := by
  unfold attach File.stored File.refused
  by_cases hfit : f.Fits p.lim
  · have hle : ¬ ((decodeTransfer f.body f.enc).length : ℤ) > p.lim.maxAttachmentBytes := not_lt.mpr hfit
    simp only [if_pos hfit, if_neg hle, Option.toList_some, Option.toList_none, List.append_nil]
    rfl
  · have hgt : ((decodeTransfer f.body f.enc).length : ℤ) > p.lim.maxAttachmentBytes := not_le.mp hfit
    simp only [if_neg hfit, if_pos hgt, Option.toList_some, Option.toList_none, List.append_nil]
    rfl

omit [GoLibrary] [MailLibrary] in
theorem readEncoded_eq {lim : Limits} (hlim : 0 < lim.maxAttachmentBytes) {f : File}
    (hf : f.ofPart = true) :
    readEncoded lim f.body = if f.Over lim then
    (f.body.take (3 * lim.maxAttachmentBytes + 4096 + 1).toNat, true)
      else (f.body, false) := by
  unfold readEncoded
  dsimp only
  rw [List.length_take]
  by_cases h : f.Over lim
  · rw [if_pos h]
    unfold File.Over at h
    rw [decide_eq_true (by omega)]
  · have hle : (f.body.length : ℤ) ≤ 3 * lim.maxAttachmentBytes + 4096 := not_lt.mp fun hgt => h ⟨hf, hgt⟩
    rw [if_neg h, decide_eq_false (by omega), List.take_of_length_le (by omega)]

theorem collect_out (mediaType enc charset parentType content : GoString) (p : Parser) :
    (p.collect mediaType enc charset parentType content).out = p.out := by
  unfold collect
  dsimp only
  split_ifs <;> rfl

theorem work_out {p : Parser} (hlim : 0 < p.lim.maxAttachmentBytes) (hdepth : 0 ≤ p.lim.maxDepth)
    (v : PartVisit) :
    (p.work v).out = if stops inside p.lim.maxDepth.toNat v then p.truncate.out
      else addFiles p.lim (fileOf v.node).toList p.out := by
  unfold work visit fileOf stops inside
  cases reading v.node with
  | none => exact (addFiles_nil _ _).symm
  | some r =>
    dsimp only
    by_cases hnested : r.isMultipart ∧ ¬ r.isAttachment
    · have hdeep : (v.depth : ℤ) + 1 > p.lim.maxDepth ↔ p.lim.maxDepth.toNat < v.depth + 1 := by omega
      simp only [if_pos hnested, hdeep, Option.isSome_some, Bool.true_and, decide_eq_true_eq,
        Option.toList_none, addFiles_nil, ite_self]
      split_ifs <;> rfl
    · simp only [if_neg hnested, Option.isSome_none, Bool.false_and, Bool.false_eq_true, if_false]
      by_cases hfile : r.isAttachment ∨ r.isInline
      · let f : File :=
          { filename := r.filename, mediaType := r.mediaType, contentID := r.contentID, inline := r.isInline
            enc := v.node.header.get "Content-Transfer-Encoding", body := v.node.body }
        have hread : readEncoded p.lim v.node.body = _ := readEncoded_eq (f := f) hlim rfl
        simp only [if_pos hfile, Option.toList_some, addFiles, List.filterMap_cons, List.filterMap_nil]
        rw [hread]
        by_cases hover : f.Over p.lim
        · have hlen : (f.body.take (3 * p.lim.maxAttachmentBytes + 4096 + 1).toNat).length =
              (3 * p.lim.maxAttachmentBytes + 4096 + 1).toNat := by
            unfold File.Over at hover
            rw [List.length_take]
            omega
          have hkept : File.kept p.lim f = none := if_pos hover
          have hdropped : File.dropped p.lim f = some ⟨safeFilename f.filename, _⟩ := if_pos hover
          rw [if_pos hover, if_pos rfl, hkept, hdropped, hlen, List.append_nil]
          rfl
        · have hkept : File.kept p.lim f = f.stored p.lim := if_neg hover
          have hdropped : File.dropped p.lim f = f.refused p.lim := if_neg hover
          rw [if_neg hover, if_neg Bool.false_ne_true, hkept, hdropped]
          refine (attach_out p f).trans ?_
          cases f.stored p.lim <;> cases f.refused p.lim <;> rfl
      · simp only [if_neg hfile, Option.toList_none, addFiles_nil]
        split_ifs
        · exact collect_out ..
        · rfl

theorem work_parts (p : Parser) (n : ℕ) (v : PartVisit) :
    ({ p with parts := n } : Parser).work v = { p.work v with parts := n } := by
  unfold work visit
  split
  · rfl
  · dsimp only
    split_ifs
    · rfl
    · rfl
    · rfl
    · rfl
    · unfold attach
      dsimp only
      split_ifs <;> rfl
    · unfold collect
      dsimp only
      split_ifs <;> rfl
    · rfl

def workAll (p : Parser) (vs : List PartVisit) : Parser := vs.foldl work p

theorem workAll_cons (p : Parser) (v : PartVisit) (vs : List PartVisit) :
    p.workAll (v :: vs) = (p.work v).workAll vs := rfl

theorem workAll_lim (p : Parser) (vs : List PartVisit) : (p.workAll vs).lim = p.lim := by
  induction vs generalizing p with
  | nil => rfl
  | cons v vs ih => rw [workAll_cons, ih, work_lim]

theorem workAll_out {p : Parser} (hlim : 0 < p.lim.maxAttachmentBytes) (hdepth : 0 ≤ p.lim.maxDepth)
    {vs : List PartVisit} (hvs : ∀ v ∈ vs, stops inside p.lim.maxDepth.toNat v = false) :
    (p.workAll vs).out = addFiles p.lim (vs.filterMap (fileOf ·.node)) p.out := by
  induction vs generalizing p with
  | nil => exact (addFiles_nil _ _).symm
  | cons v vs ih =>
    obtain ⟨hv, hrest⟩ := List.forall_mem_cons.mp hvs
    have hlim' := work_lim p v
    have hout := work_out hlim hdepth v
    rw [hv, if_neg Bool.false_ne_true] at hout
    rw [workAll_cons, ih (by rwa [hlim']) (by rwa [hlim']) (by rwa [hlim']), hlim', hout, addFiles_addFiles]
    cases hf : fileOf v.node with
    | none => simp [hf]
    | some f => simp [hf]

theorem workAll_parts (p : Parser) (n : ℕ) (vs : List PartVisit) :
    ({ p with parts := n } : Parser).workAll vs = { p.workAll vs with parts := n } := by
  induction vs generalizing p with
  | nil => rfl
  | cons v vs ih => rw [workAll_cons, workAll_cons, work_parts, ih]

theorem work_stops {p : Parser} (hdepth : 0 ≤ p.lim.maxDepth) {v : PartVisit}
    (hv : stops inside p.lim.maxDepth.toNat v = true) : p.work v = p.truncate := by
  unfold stops inside at hv
  unfold work visit
  cases hr : reading v.node with
  | none => simp [hr] at hv
  | some r =>
    rw [hr] at hv
    dsimp only at hv ⊢
    by_cases hnested : r.isMultipart ∧ ¬ r.isAttachment
    · simp only [if_pos hnested, Option.isSome_some, Bool.true_and, decide_eq_true_eq] at hv
      rw [if_pos hnested, if_pos (by omega)]
    · rw [if_neg hnested] at hv
      cases hv

omit [GoLibrary] [MailLibrary] in
def ended (p : Parser) (parts : ℕ) (short : Bool) : Parser :=
  { p with parts := parts, out := { p.out with truncated := short } }

def takes (p : Parser) (vs : List PartVisit) : List PartVisit :=
  taken inside p.lim.maxDepth.toNat (p.lim.maxParts.toNat - p.parts) vs

theorem foldl_step_eq {p : Parser} (hdepth : 0 ≤ p.lim.maxDepth) (hatt : 0 < p.lim.maxAttachmentBytes)
    (htr : p.out.truncated = false) (vs : List PartVisit) :
    ∃ n, vs.foldl step p = (p.workAll (p.takes vs)).ended n (decide ((p.takes vs).length < vs.length)) := by
  induction vs generalizing p with
  | nil =>
    have hnone : p.takes [] = [] := by
      unfold takes
      cases p.lim.maxParts.toNat - p.parts <;> rfl
    refine ⟨p.parts, ?_⟩
    rw [hnone]
    show p = { p with parts := p.parts, out := { p.out with truncated := false } }
    rw [← htr]
  | cons v vs ih =>
    rw [List.foldl_cons, step_eq htr]
    by_cases hroom : (p.parts : ℤ) + 1 > p.lim.maxParts
    · have hnone : p.takes (v :: vs) = [] := by
        have hzero : p.lim.maxParts.toNat - p.parts = 0 := by omega
        rw [takes, hzero]
        rfl
      refine ⟨p.parts + 1, ?_⟩
      rw [if_pos hroom, foldl_step_truncated rfl, hnone]
      rfl
    · have hsucc : p.lim.maxParts.toNat - p.parts = p.lim.maxParts.toNat - (p.parts + 1) + 1 := by omega
      rw [if_neg hroom]
      by_cases hv : stops inside p.lim.maxDepth.toNat v = true
      · have hnone : p.takes (v :: vs) = [] := by
          rw [takes, hsucc, taken, if_pos hv]
        refine ⟨p.parts + 1, ?_⟩
        have hstop := work_stops (p := { p with parts := p.parts + 1 }) hdepth hv
        rw [hstop, foldl_step_truncated rfl, hnone]
        rfl
      · let q : Parser := ({ p with parts := p.parts + 1 } : Parser).work v
        have hq : q = { p.work v with parts := p.parts + 1 } := work_parts p _ v
        have hqlim : q.lim = p.lim := by rw [hq]; exact work_lim p v
        have hqparts : q.parts = p.parts + 1 := by rw [hq]
        have hqtr : q.out.truncated = false := by
          rw [hq]
          show (p.work v).out.truncated = false
          rw [work_out hatt hdepth, if_neg hv]
          exact htr
        have htakes : p.takes (v :: vs) = v :: q.takes vs := by
          rw [takes, hsucc, taken, if_neg hv, takes, hqlim, hqparts]
        obtain ⟨n, hn⟩ := ih (p := q) (by rwa [hqlim]) (by rwa [hqlim]) hqtr
        refine ⟨n, ?_⟩
        rw [hn, htakes, workAll_cons, hq, workAll_parts, List.length_cons, List.length_cons]
        simp only [Nat.add_lt_add_iff_right]
        rfl

theorem walk_eq {p : Parser} (hdepth : 0 ≤ p.lim.maxDepth) (hatt : 0 < p.lim.maxAttachmentBytes)
    (htr : p.out.truncated = false) (levels depth : ℕ) (parentType : GoString) (parts : List Part) :
    ∃ n, walk levels parts parentType depth p =
      (p.workAll (p.takes (visits p.lim levels depth parentType parts))).ended n
        (decide ((p.takes (visits p.lim levels depth parentType parts)).length <
          (visits p.lim levels depth parentType parts).length)) := by
  rw [walk_eq_foldl levels parts parentType depth p hdepth]
  exact foldl_step_eq hdepth hatt htr _

theorem walk_levels {p : Parser} (hdepth : 0 ≤ p.lim.maxDepth) {n m depth : ℕ}
    (hd : depth ≤ p.lim.maxDepth.toNat) (hn : p.lim.maxDepth.toNat < depth + n)
    (hm : p.lim.maxDepth.toNat < depth + m) (parts : List Part) (parentType : GoString) :
    walk n parts parentType depth p = walk m parts parentType depth p := by
  rw [walk_eq_foldl _ _ _ _ _ hdepth, walk_eq_foldl _ _ _ _ _ hdepth, visits, visits,
    preorder_levels hd hn hm]

end Parser

def partsOf (lim : Limits) (h : Header) (body : GoString) : List PartVisit :=
  let contentType := MailLibrary.parseMediaType (orPlain (h.get "Content-Type"))
  if contentType.failed then []
  else if hasPrefix contentType.value "multipart/" then
    visits lim (Parser.levels lim) 0 contentType.value
      (MailLibrary.parts body (contentType.params "boundary"))
  else []

def reachedParts (lim : Limits) (h : Header) (body : GoString) : List PartVisit :=
  taken inside lim.maxDepth.toNat (lim.maxParts.toNat - 1) (partsOf lim h body)

def filesOf (lim : Limits) (h : Header) (body : GoString) : List File :=
  let contentType := MailLibrary.parseMediaType (orPlain (h.get "Content-Type"))
  if contentType.failed then []
  else if hasPrefix contentType.value "multipart/" then (reachedParts lim h body).filterMap (fileOf ·.node)
  else if hasPrefix contentType.value "text/" then []
  else
    let disposition := MailLibrary.parseMediaType (h.get "Content-Disposition")
    let named := !disposition.failed && disposition.params "filename" ≠ []
    [{ filename := if named then disposition.params "filename" else contentType.params "name"
       mediaType := contentType.value
       enc := h.get "Content-Transfer-Encoding"
       body := body
       ofPart := false }]

theorem attach_whole (p : Parser) (filename mediaType enc body : GoString) :
    (p.attach filename mediaType [] false enc body).out =
      addFiles p.lim
      [{ filename := filename, mediaType := mediaType, enc := enc, body := body, ofPart := false }]
      p.out := by
  let f : File :=
    { filename := filename, mediaType := mediaType, enc := enc, body := body, ofPart := false }
  have hover : ¬ f.Over p.lim := fun h => nomatch h.1
  have hkept : File.kept p.lim f = f.stored p.lim := if_neg hover
  have hdropped : File.dropped p.lim f = f.refused p.lim := if_neg hover
  refine (Parser.attach_out p f).trans ?_
  rw [addFiles, List.filterMap_cons, List.filterMap_cons, hkept, hdropped]
  cases f.stored p.lim <;> cases f.refused p.lim <;> rfl

theorem readBody_out {p : Parser} (hdepth : 0 ≤ p.lim.maxDepth) (hatt : 0 < p.lim.maxAttachmentBytes)
    (htr : p.out.truncated = false) (h : Header) (body : GoString) :
    (p.readBody h body).lim = p.lim ∧ (p.readBody h body).out =
      markShort (decide ((reachedParts p.lim h body).length < (partsOf p.lim h body).length))
        (addFiles p.lim (filesOf p.lim h body) p.out) := by
  have hnone : taken (κ := GoString) inside p.lim.maxDepth.toNat (p.lim.maxParts.toNat - 1) [] = [] :=
    List.prefix_nil.mp (taken_isPrefix _ _)
  unfold Parser.readBody filesOf reachedParts partsOf
  generalize MailLibrary.parseMediaType (orPlain (h.get "Content-Type")) = contentType
  dsimp only
  by_cases hfailed : contentType.failed = true
  · simp only [if_pos hfailed, addFiles_nil, hnone]
    exact ⟨trivial, (markShort_of_eq htr).symm⟩
  by_cases hmulti : hasPrefix contentType.value "multipart/" = true
  · simp only [if_neg hfailed, if_pos hmulti]
    obtain ⟨n, hn⟩ := Parser.walk_eq (p := { p with parts := 1 }) hdepth hatt htr
      (Parser.levels p.lim) 0 contentType.value
      (MailLibrary.parts body (contentType.params "boundary"))
    have hstops : ∀ v ∈ taken inside p.lim.maxDepth.toNat (p.lim.maxParts.toNat - 1)
        (visits p.lim (Parser.levels p.lim) 0 contentType.value
          (MailLibrary.parts body (contentType.params "boundary"))),
        stops inside p.lim.maxDepth.toNat v = false := fun v hv => stops_of_mem_taken hv
    have hout := Parser.workAll_out (p := { p with parts := 1 }) hatt hdepth hstops
    rw [hn]
    refine ⟨Parser.workAll_lim _ _, ?_⟩
    exact congrArg (markShort _) hout
  by_cases htext : hasPrefix contentType.value "text/" = true
  · simp only [if_neg hfailed, if_neg hmulti, if_pos htext, addFiles_nil, hnone]
    refine ⟨Parser.collect_lim .., ?_⟩
    rw [Parser.collect_out]
    exact (markShort_of_eq htr).symm
  · simp only [if_neg hfailed, if_neg hmulti, if_neg htext, hnone]
    refine ⟨Parser.attach_lim .., (attach_whole ..).trans (markShort_of_eq ?_).symm⟩
    exact htr

end TangraTicket.Mailparse
