import Mathlib.Data.List.Forall2
import TangraTicket.Mailparse.Laws
import TangraTicket.Services.Sanitize

/-!
What a sanitised body loads. Every image shows an attachment of the ticket, whatever the body holds.
Link targets are checked on the `a` element only, and only when the reference names a content id.
-/

namespace TangraTicket.Services.Sanitize

open GoText Store Markup

section Laws

variable [HtmlLibrary]

structure Allowed (t : Token) : Prop where
  kind : t.type ≠ .comment ∧ t.type ≠ .doctype
  name : t.type ≠ .text → HtmlLibrary.policy.allowsElement t.data = true
  keys : ∀ a ∈ t.attr, HtmlLibrary.policy.allowsAttr t.data a.key = true

def tagsOf (s : GoString) : List Token := (HtmlLibrary.tokens s).filter Token.isTag

/-- The sanitiser emits what its policy allows, which is one source at most for an image; the
tokenizer finds the tags of what is written. -/
class HtmlLaws : Prop where
  sanitize : ∀ raw, ∀ t ∈ HtmlLibrary.tokens (HtmlLibrary.sanitize raw), Allowed t
  srcset : HtmlLibrary.policy.allowsAttr "img" "srcset" = false
  tagsOf : ∀ ts : List Token, (∀ t ∈ ts, Allowed t) → tagsOf (ts.flatMap HtmlLibrary.tokenString) =
    ts.filter Token.isTag

end Laws

section Bodies

variable [GoLibrary] [HtmlLibrary]

/-- The tokens that the second pass reads. -/
def sanitised (raw : GoString) : List Token :=
  if trimSpace raw = [] then [] else HtmlLibrary.tokens (HtmlLibrary.sanitize raw)

def isImage (t : Token) : Prop := t.data = goString "img"

instance (t : Token) : Decidable (isImage t) := inferInstanceAs (Decidable (t.data = goString "img"))

def isLink (t : Token) : Prop := t.data = goString "a" ∨ t.data = goString "area"

structure Shows (ticketID : GoString) (a : Attachment) (source t : Token) : Prop where
  image : isImage source
  reference : ∃ src ∈ source.attr, src.key = goString "src" ∧
    ∃ id, cidOf src.val = some id ∧ normCID id = normCID a.contentID
  has_source : ∃ src ∈ t.attr, src.key = goString "src"
  sources : ∀ src ∈ t.attr, src.key = goString "src" ∨ src.key = goString "srcset" →
    src = ⟨"src", attachmentURL ticketID a.id⟩

/-- The images of a body are, in their order, images of the sanitised one, each written with the
attachment of the ticket that it refers to, and no link target is a reference to one. -/
structure OwnImages (t : Ticket) (atts : List Attachment) (body : GoString) : Prop where
  images : ∃ sources, sources.Sublist (sanitised t.bodyHTML) ∧
    List.Forall₂ (fun source tag => rewritten (fun cid => byCID t.id atts (normCID cid)) source = some tag ∧
      ∃ a ∈ atts, Shows t.id a source tag) sources ((tagsOf body).filter fun tag => isImage tag)
  links : ∀ tag ∈ tagsOf body, isLink tag → ∀ a ∈ tag.attr, a.key = goString "href" → isCid a.val = false

section Token

variable {resolve : GoString → Option GoString} {tok tok' : Token}

def withSource (target : GoString) (tok : Token) : Token :=
  { tok with attr := tok.attr.map fun a => if a.key = goString "src" then { a with val := target } else a }

def withoutReferences (tok : Token) : Token :=
  { tok with attr := tok.attr.filter fun a => !(a.key = goString "href" && (cidOf a.val).isSome) }

omit [HtmlLibrary] in
theorem rewritten_tag (htag : tok.isTag = true) (h : rewritten resolve tok = some tok') :
    (isImage tok ∧ ∃ target, (sourceID tok.attr).bind resolve = some target ∧
      tok' = withSource target tok) ∨
      (tok.data = goString "a" ∧ tok' = withoutReferences tok) ∨
      (¬ isImage tok ∧ tok.data ≠ goString "a" ∧ tok' = tok) := by
  rw [rewritten, if_pos htag] at h
  split_ifs at h with himage ha
  · cases htarget : (sourceID tok.attr).bind resolve with
    | none => rw [htarget] at h; cases h
    | some target =>
      rw [htarget] at h
      dsimp only at h
      split_ifs at h
      exact .inl ⟨himage, target, rfl, (Option.some.inj h).symm⟩
  · exact .inr (.inl ⟨ha, (Option.some.inj h).symm⟩)
  · exact .inr (.inr ⟨himage, ha, (Option.some.inj h).symm⟩)

omit [HtmlLibrary] in
theorem rewritten_keeps (h : rewritten resolve tok = some tok') :
    tok'.type = tok.type ∧ tok'.data = tok.data ∧ ∀ a ∈ tok'.attr, ∃ a' ∈ tok.attr, a'.key = a.key := by
  by_cases htag : tok.isTag = true
  · rcases rewritten_tag htag h with ⟨-, target, -, rfl⟩ | ⟨-, rfl⟩ | ⟨-, -, rfl⟩
    · refine ⟨rfl, rfl, fun a ha => ?_⟩
      obtain ⟨a', ha', rfl⟩ := List.mem_map.mp ha
      refine ⟨a', ha', ?_⟩
      split_ifs <;> rfl
    · exact ⟨rfl, rfl, fun a ha => ⟨a, (List.mem_filter.mp ha).1, rfl⟩⟩
    · exact ⟨rfl, rfl, fun a ha => ⟨a, ha, rfl⟩⟩
  · rw [rewritten, if_neg htag] at h
    obtain rfl := Option.some.inj h
    exact ⟨rfl, rfl, fun a ha => ⟨a, ha, rfl⟩⟩

theorem Allowed.rewritten (hallowed : Allowed tok) (h : rewritten resolve tok = some tok') :
    Allowed tok' := by
  obtain ⟨htype, hdata, hkeys⟩ := rewritten_keeps h
  refine ⟨by rw [htype]; exact hallowed.kind, fun ht => ?_, fun a ha => ?_⟩
  · rw [hdata]
    exact hallowed.name (htype ▸ ht)
  · obtain ⟨a', ha', hkey⟩ := hkeys a ha
    rw [hdata, ← hkey]
    exact hallowed.keys a' ha'

omit [HtmlLibrary] in
theorem of_sourceID {attrs : List Attr} {id : GoString} (h : sourceID attrs = some id) :
    ∃ src ∈ attrs, src.key = goString "src" ∧ cidOf src.val = some id := by
  have hlast : ∀ id, sourceID attrs = some id → ∃ src ∈ attrs, src.key = goString "src" ∧
      cidOf src.val = some id := by
    refine List.foldlRecOn (motive := fun found => ∀ id, found = some id →
      ∃ src ∈ attrs, src.key = goString "src" ∧ cidOf src.val = some id) attrs _ nofun ?_
    intro found ih a ha id h
    split_ifs at h with hkey
    · exact ⟨a, ha, hkey, h⟩
    · exact ih id h
  exact hlast id h

omit [HtmlLibrary] in
theorem of_byCID {ticketID : GoString} {atts : List Attachment} (cid url : GoString) :
    byCID ticketID atts cid = some url → ∃ a ∈ atts, normCID a.contentID = cid ∧
    url = attachmentURL ticketID a.id := by
  revert cid url
  refine List.foldlRecOn (motive := fun found : GoString → Option GoString => ∀ cid url,
    found cid = some url →
    ∃ a ∈ atts, normCID a.contentID = cid ∧
    url = attachmentURL ticketID a.id) atts _ (fun _ _ h => nomatch h) ?_
  intro found ih a ha cid url h
  split_ifs at h with hnone
  · exact ih cid url h
  · by_cases hcid : cid = normCID a.contentID
    · rw [hcid, Function.update_self] at h
      exact ⟨a, ha, hcid.symm, (Option.some.inj h).symm⟩
    · rw [Function.update_of_ne hcid] at h
      exact ih cid url h

theorem shows_of_rewritten [HtmlLaws] {ticketID : GoString} {atts : List Attachment}
    (hallowed : Allowed tok) (himage : isImage tok) {target : GoString}
    (htarget : (sourceID tok.attr).bind (fun cid => byCID ticketID atts (normCID cid)) = some target) :
    ∃ a ∈ atts, Shows ticketID a tok (withSource target tok) := by
  obtain ⟨id, hid, hurl⟩ := Option.bind_eq_some_iff.mp htarget
  obtain ⟨src, hsrc, hkey, hcid⟩ := of_sourceID hid
  obtain ⟨a, ha, hcontent, rfl⟩ := of_byCID _ _ hurl
  refine ⟨a, ha, himage, ⟨src, hsrc, hkey, id, hcid, hcontent.symm⟩, ?_, fun v hv hsource => ?_⟩
  · exact ⟨_, List.mem_map_of_mem hsrc, by rw [if_pos hkey]; exact hkey⟩
  · obtain ⟨v', hv', rfl⟩ := List.mem_map.mp hv
    have hplain : v'.key ≠ goString "srcset" := by
      intro heq
      have hkeys := hallowed.keys v' hv'
      rw [show tok.data = goString "img" from himage, heq, HtmlLaws.srcset] at hkeys
      cases hkeys
    by_cases hk : v'.key = goString "src"
    · rw [if_pos hk, ← hk]
    · rw [if_neg hk] at hsource
      exact absurd hsource (not_or.mpr ⟨hk, hplain⟩)

end Token

variable [Mailparse.MailLibrary]

omit [GoLibrary] [Mailparse.MailLibrary] in
theorem allowed_of_mem [HtmlLaws] {raw : GoString} {t : Token} (h : t ∈ sanitised raw) : Allowed t := by
  rw [sanitised] at h
  split_ifs at h
  · cases h
  · exact HtmlLaws.sanitize raw t h

theorem tagsOf_message [HtmlLaws] (t : Ticket) (atts : List Attachment) :
    tagsOf (message t atts).htmlSanitized =
      ((sanitised t.bodyHTML).filterMap (rewritten fun cid => byCID t.id atts (normCID cid))).filter
      Token.isTag := by
  have hbody : (message t atts).htmlSanitized =
      ((sanitised t.bodyHTML).filterMap (rewritten fun cid => byCID t.id atts (normCID cid))).flatMap
        HtmlLibrary.tokenString := by
    rw [message, html, sanitised]
    split_ifs <;> rfl
  rw [hbody]
  refine HtmlLaws.tagsOf _ fun tok' htok' => ?_
  obtain ⟨tok, htok, hrewritten⟩ := List.mem_filterMap.mp htok'
  exact (allowed_of_mem htok).rewritten hrewritten

theorem mem_tagsOf_message [HtmlLaws] {t : Ticket} {atts : List Attachment} {tag : Token} :
    tag ∈ tagsOf (message t atts).htmlSanitized ↔ ∃ source ∈ sanitised t.bodyHTML, source.isTag = true ∧
      rewritten (fun cid => byCID t.id atts (normCID cid)) source = some tag := by
  rw [tagsOf_message, List.mem_filter, List.mem_filterMap]
  have hkeeps : ∀ source, rewritten (fun cid => byCID t.id atts (normCID cid)) source = some tag →
      tag.isTag = source.isTag := fun source h => by rw [Token.isTag, Token.isTag, (rewritten_keeps h).1]
  constructor
  · rintro ⟨⟨source, hsource, h⟩, htag⟩
    exact ⟨source, hsource, hkeeps source h ▸ htag, h⟩
  · rintro ⟨source, hsource, htag, h⟩
    exact ⟨⟨source, hsource, h⟩, (hkeeps source h).trans htag⟩

omit [GoLibrary] [HtmlLibrary] [Mailparse.MailLibrary] in
theorem exists_sources {α β : Type} (f : α → Option β) (p : β → Bool) (l : List α) :
    ∃ sources, sources.Sublist l ∧
      List.Forall₂ (fun a b => a ∈ l ∧ f a = some b ∧ p b = true) sources ((l.filterMap f).filter p) := by
  induction l with
  | nil => exact ⟨[], .slnil, .nil⟩
  | cons x l ih =>
    obtain ⟨sources, hsub, hall⟩ := ih
    replace hall := hall.imp fun a b h =>
      (⟨List.mem_cons_of_mem x h.1, h.2⟩ : a ∈ x :: l ∧ f a = some b ∧ p b = true)
    cases hx : f x with
    | none => exact ⟨sources, hsub.cons x, by rwa [List.filterMap_cons_none hx]⟩
    | some y =>
      rw [List.filterMap_cons_some hx]
      by_cases hy : p y = true
      · rw [List.filter_cons_of_pos hy]
        exact ⟨x :: sources, hsub.cons_cons x, .cons ⟨List.mem_cons_self, hx, hy⟩ hall⟩
      · rw [List.filter_cons_of_neg hy]
        exact ⟨sources, hsub.cons x, hall⟩

theorem images_message [HtmlLaws] (t : Ticket) (atts : List Attachment) :
    ∃ sources, sources.Sublist (sanitised t.bodyHTML) ∧
      List.Forall₂ (fun source tag =>
      rewritten (fun cid => byCID t.id atts (normCID cid)) source = some tag ∧
        ∃ a ∈ atts, Shows t.id a source tag) sources
        ((tagsOf (message t atts).htmlSanitized).filter fun tag => isImage tag) := by
  have hdistinct : goString "a" ≠ goString "img" := by decide
  rw [tagsOf_message, List.filter_filter]
  obtain ⟨sources, hsub, hall⟩ := exists_sources (rewritten fun cid => byCID t.id atts (normCID cid))
    (fun tag => isImage tag && tag.isTag) (sanitised t.bodyHTML)
  refine ⟨sources, hsub, hall.imp fun source tag => ?_⟩
  rintro ⟨hsource, h, hkept⟩
  rw [Bool.and_eq_true, decide_eq_true_eq] at hkept
  obtain ⟨himage, htag⟩ := hkept
  have hstart : source.isTag = true := by rwa [Token.isTag, ← (rewritten_keeps h).1]
  refine ⟨h, ?_⟩
  rcases rewritten_tag hstart h with ⟨himg, target, htarget, rfl⟩ | ⟨hname, rfl⟩ | ⟨hname, -, rfl⟩
  · exact shows_of_rewritten (allowed_of_mem hsource) himg htarget
  · exact absurd (hname.symm.trans himage) hdistinct
  · exact absurd himage hname

/-- The images are the ticket's own for every body. The link targets are no references exactly when,
in the sanitised body, every reference names a content id and none stands on an `area`. -/
theorem own_images_iff [HtmlLaws] (t : Ticket) (atts : List Attachment) :
    OwnImages t atts (message t atts).htmlSanitized ↔
      ∀ tag ∈ sanitised t.bodyHTML, tag.isTag = true → isLink tag → ∀ a ∈ tag.attr,
      a.key = goString "href" →
        isCid a.val = true → tag.data = goString "a" ∧ cidOf a.val ≠ none := by
  have hdistinct : goString "area" ≠ goString "img" ∧ goString "area" ≠ goString "a" ∧
      goString "a" ≠ goString "img" := by
    decide
  constructor
  · intro hown source hsource htag hlink a ha hkey hcid
    have hlinks : ∀ tag, rewritten (fun cid => byCID t.id atts (normCID cid)) source = some tag →
        a ∈ tag.attr → False := by
      intro tag h hmem
      have htarget := hown.links tag (mem_tagsOf_message.mpr ⟨source, hsource, htag, h⟩)
        (by rwa [isLink, (rewritten_keeps h).2.1]) a hmem hkey
      rw [hcid] at htarget
      cases htarget
    rcases hlink with hname | hname
    · refine ⟨hname, fun hnone => hlinks (withoutReferences source) ?_ ?_⟩
      · rw [rewritten, if_pos htag, if_neg (by rw [hname]; exact hdistinct.2.2), if_pos hname,
          withoutReferences]
      · exact List.mem_filter.mpr ⟨ha, by simp [hnone]⟩
    · refine (hlinks source ?_ ha).elim
      rw [rewritten, if_pos htag, if_neg (by rw [hname]; exact hdistinct.1),
        if_neg (by rw [hname]; exact hdistinct.2.1)]
  · intro hlinks
    refine ⟨images_message t atts, fun tag htag hlink a ha hkey => ?_⟩
    obtain ⟨source, hsource, hstart, h⟩ := mem_tagsOf_message.mp htag
    have hname : isLink source := by rwa [isLink, ← (rewritten_keeps h).2.1]
    rw [← Bool.not_eq_true]
    intro hcid
    rcases rewritten_tag hstart h with ⟨himg, target, -, rfl⟩ | ⟨-, rfl⟩ | ⟨-, hother, rfl⟩
    · rcases hname with hname | hname
      · exact hdistinct.2.2 (hname.symm.trans himg)
      · exact hdistinct.1 (hname.symm.trans himg)
    · obtain ⟨hmem, hkept⟩ := List.mem_filter.mp ha
      have hnamed := (hlinks source hsource hstart hname a hmem hkey hcid).2
      rw [← Option.isSome_iff_ne_none] at hnamed
      simp [hkey, hnamed] at hkept
    · exact hother (hlinks tag hsource hstart hname a ha hkey hcid).1

end Bodies

def plainPolicy : Policy where
  allowsElement n := n ∈ [goString "a", goString "area", goString "img", goString "map"]
  allowsAttr _ key := key ∈ [goString "alt", goString "href", goString "src"]

def plainAllows (t : Token) : Bool :=
  t.type ≠ .comment && t.type ≠ .doctype && (t.type = .text || plainPolicy.allowsElement t.data) &&
    t.attr.all fun a => plainPolicy.allowsAttr t.data a.key

@[reducible] def plainHtml : HtmlLibrary where
  policy := plainPolicy
  sanitize := id
  tokens s := (Markup.read s).filter plainAllows
  tokenString := Token.write

theorem plainAllows_iff (t : Token) : letI := plainHtml; plainAllows t = true ↔ Allowed t := by
  let := plainHtml
  simp only [plainAllows, Bool.and_eq_true, Bool.or_eq_true, decide_eq_true_eq, List.all_eq_true]
  constructor
  · rintro ⟨⟨hkind, hname⟩, hkeys⟩
    exact ⟨hkind, fun ht => hname.resolve_left ht, hkeys⟩
  · rintro ⟨hkind, hname, hkeys⟩
    exact ⟨⟨hkind, or_iff_not_imp_left.mpr hname⟩, hkeys⟩

theorem plain_of_plainAllows {t : Token} (h : plainAllows t = true) : t.Plain := by
  let := plainHtml
  have helements : ∀ n ∈ [goString "a", goString "area", goString "img", goString "map"], n ≠ [] ∧
    PlainName n := by decide +kernel
  have hattrs : ∀ k ∈ [goString "alt", goString "href", goString "src"], PlainName k := by decide +kernel
  have hallowed := (plainAllows_iff t).mp h
  exact ⟨hallowed.kind, fun ht => helements _ (of_decide_eq_true (hallowed.name ht)),
    fun a ha => hattrs _ (of_decide_eq_true (hallowed.keys a ha))⟩

theorem plainHtml_laws : @HtmlLaws plainHtml := by
  let := plainHtml
  refine ⟨fun raw t ht => (plainAllows_iff t).mp (List.mem_filter.mp ht).2, by decide, fun ts hts => ?_⟩
  have hall : ∀ t ∈ ts, plainAllows t = true := fun t ht => (plainAllows_iff t).mpr (hts t ht)
  have hread := filter_read fun t ht => plain_of_plainAllows (hall t ht)
  show ((Markup.read (ts.flatMap Token.write)).filter plainAllows).filter Token.isTag = _
  rw [List.filter_comm, hread, List.filter_eq_self]
  exact fun t ht => hall t (List.mem_filter.mp ht).1

def markupTicket (bodyHTML : GoString) : Ticket := { id := "t1", bodyHTML := bodyHTML }

/-- A target on an `area`, and one that names no content id. -/
theorem references_are_kept :
    letI := asciiLibrary
    letI := plainHtml
    letI := Mailparse.plainMail
    ((message (markupTicket "<map><area href=\"cid:x\"></map>") []).htmlSanitized =
      "<map><area href=\"cid:x\"></map>" ∧
      ¬ OwnImages (markupTicket "<map><area href=\"cid:x\"></map>") [] "<map><area href=\"cid:x\"></map>") ∧
    (message (markupTicket "<a href=\"cid:\">x</a>") []).htmlSanitized = "<a href=\"cid:\">x</a>" ∧
      ¬ OwnImages (markupTicket "<a href=\"cid:\">x</a>") [] "<a href=\"cid:\">x</a>" := by
  let := asciiLibrary
  let := plainHtml
  let := Mailparse.plainMail
  have harea : Token.mk .startTag "area" [⟨"href", "cid:x"⟩] ∈
    tagsOf "<map><area href=\"cid:x\"></map>" := by decide +kernel
  have hlink : Token.mk .startTag "a" [⟨"href", "cid:"⟩] ∈ tagsOf "<a href=\"cid:\">x</a>" := by
    decide +kernel
  refine ⟨⟨by decide +kernel, fun h => ?_⟩, by decide +kernel, fun h => ?_⟩
  · have hcid := h.links _ harea (.inr rfl) _ List.mem_cons_self rfl
    exact absurd hcid (by decide +kernel)
  · have hcid := h.links _ hlink (.inl rfl) _ List.mem_cons_self rfl
    exact absurd hcid (by decide +kernel)

def logo : Attachment := { id := "a1", ticketID := "t1", contentID := "<Logo>" }

def photo : Attachment := { id := "a2", ticketID := "t1", contentID := "photo" }

def illustrated : Ticket :=
  markupTicket
    "<img src=\"cid:photo\"><img src=\"cid:logo\"><img src=\"cid:gone\"><a href=\"cid:logo\">x</a>"

theorem inline_images_are_shown :
    letI := asciiLibrary
    letI := plainHtml
    letI := Mailparse.plainMail
    (message illustrated [logo, photo]).htmlSanitized =
    goString "<img src=\"/api/ticket/v1/tickets/t1/attachments/a2\">" ++
        goString "<img src=\"/api/ticket/v1/tickets/t1/attachments/a1\"><a>x</a>" ∧
      OwnImages illustrated [logo, photo] (message illustrated [logo, photo]).htmlSanitized := by
  let := asciiLibrary
  let := plainHtml
  let := Mailparse.plainMail
  have := plainHtml_laws
  refine ⟨by decide +kernel, (own_images_iff _ _).mpr ?_⟩
  have hchecked : ((sanitised illustrated.bodyHTML).all fun tag =>
      tag.attr.all fun a => a.key ≠ goString "href" ||
          (tag.data = goString "a" && (cidOf a.val).isSome)) = true := by
    decide +kernel
  intro tag htag _ _ a ha hkey _
  have hattr := List.all_eq_true.mp (List.all_eq_true.mp hchecked tag htag) a ha
  simpa [hkey, Option.isSome_iff_ne_none] using hattr

end TangraTicket.Services.Sanitize
