import Mathlib.Data.List.Infix
import TangraTicket.Library.GoFields
import TangraTicket.Services.Backup
import TangraTicket.Services.Comments
import TangraTicket.Services.Inbound
import TangraTicket.Services.Mailboxes

/-!
The reference token of outbound mail. Replies and acknowledgements append the ticket's token unless
the text already holds one, or this ticket's reference line; readers take the leftmost token.
-/

namespace TangraTicket.Services.Threading

open GoText

structure IsTokenID (id : GoString) : Prop where
  long : 8 ≤ id.length
  short : id.length ≤ 64
  bytes : ∀ b ∈ id, isTokenByte b = true

theorem token_eq (id : GoString) : token id = 0x5B :: 0x23 :: (id ++ [0x5D]) := by
  have hopen : goString "[#" = [0x5B, 0x23] := by decide
  have hclose : goString "]" = [0x5D] := by decide
  rw [token, hopen, hclose]
  simp

theorem tokenAt_eq_some {s id : GoString} : tokenAt s = some id ↔ IsTokenID id ∧ token id <+: s := by
  constructor
  · intro h
    unfold tokenAt at h
    split at h
    · rename_i rest
      dsimp only at h
      split_ifs at h with hok
      obtain rfl := Option.some.inj h
      obtain ⟨hlong, hshort, hnext⟩ := hok
      refine ⟨⟨hlong, hshort, fun b hb => List.mem_takeWhile_imp hb⟩, ?_⟩
      have hsplit := List.takeWhile_append_dropWhile (p := isTokenByte) (l := rest)
      have hdrop : rest.drop (rest.takeWhile isTokenByte).length = rest.dropWhile isTokenByte := by
        conv_lhs => arg 2; rw [← hsplit]
        exact List.drop_left
      rw [hdrop] at hnext
      obtain ⟨tail, htail⟩ := List.head?_eq_some_iff.mp hnext
      refine ⟨tail, ?_⟩
      rw [htail] at hsplit
      conv_rhs => rw [← hsplit]
      simp [token_eq]
    · cases h
  · rintro ⟨hid, t, rfl⟩
    have hwhile : (id ++ 0x5D :: t).takeWhile isTokenByte = id := by
      rw [List.takeWhile_append_of_pos hid.bytes, List.takeWhile_cons_of_neg (by decide), List.append_nil]
    rw [token_eq, List.cons_append, List.cons_append, List.append_assoc, List.singleton_append]
    simp [tokenAt, hwhile, hid.long, hid.short]

theorem IsTokenID.not_mem_token {id : GoString} (h : IsTokenID id) {c : UInt8}
    (hc : isTokenByte c = false ∧ c ∉ [0x5B, 0x23, 0x5D]) : c ∉ token id := by
  rw [token_eq]
  intro hmem
  simp only [List.mem_cons, List.mem_append, List.not_mem_nil, or_false, not_or] at hmem hc
  rcases hmem with h₁ | h₂ | h₃ | h₄
  · exact hc.2.1 h₁
  · exact hc.2.2.1 h₂
  · rw [h.bytes c h₃] at hc
    exact absurd hc.1 (by decide)
  · exact hc.2.2.2 h₄

theorem prefix_of_not_mem {α : Type} {l s t : List α} {c : α} (hc : c ∉ l) (h : l <+: s ++ c :: t) :
    l <+: s := by
  obtain ⟨u, hu⟩ := h
  rcases List.append_eq_append_iff.mp hu with ⟨v, hv, -⟩ | ⟨v, hv, hvu⟩
  · exact ⟨v, hv.symm⟩
  · cases v with
    | nil => exact ⟨[], by simpa using hv⟩
    | cons x v =>
      obtain rfl : c = x := (List.cons.inj hvu).1
      exact absurd (by simp [hv]) hc

def Separates (c : UInt8) : Prop := isTokenByte c = false ∧ c ∉ [0x5B, 0x23, 0x5D]

theorem tokenAt_append {c : UInt8} (hc : Separates c) (s t : GoString) :
    tokenAt (s ++ c :: t) = tokenAt s := by
  refine Option.ext fun id => ?_
  simp only [tokenAt_eq_some]
  constructor
  · rintro ⟨hid, hpre⟩
    exact ⟨hid, prefix_of_not_mem (hid.not_mem_token hc) hpre⟩
  · rintro ⟨hid, hpre⟩
    exact ⟨hid, hpre.trans (List.prefix_append s _)⟩

theorem tokenAt_of_ne {x : UInt8} (s : GoString) (h : x ≠ 0x5B) : tokenAt (x :: s) = none := by
  unfold tokenAt
  split
  · rename_i heq
    exact absurd (List.cons.inj heq).1 h
  · rfl

def firstToken (s : GoString) : Option GoString := s.tails.findSome? tokenAt

theorem firstToken_cons (x : UInt8) (s : GoString) :
    firstToken (x :: s) = (tokenAt (x :: s)).or (firstToken s) := by
  unfold firstToken
  rw [List.tails, List.findSome?_cons]
  cases tokenAt (x :: s) <;> rfl

theorem firstToken_skip {l : GoString} (h : 0x5B ∉ l) (s : GoString) :
    firstToken (l ++ s) = firstToken s := by
  induction l with
  | nil => rfl
  | cons x l ih =>
    simp only [List.mem_cons, not_or] at h
    rw [List.cons_append, firstToken_cons, tokenAt_of_ne _ (Ne.symm h.1), Option.none_or, ih h.2]

theorem firstToken_append {c : UInt8} (hc : Separates c) (s t : GoString) :
    firstToken (s ++ c :: t) = (firstToken s).or (firstToken t) := by
  induction s with
  | nil =>
    have hopen : c ≠ 0x5B := fun h => hc.2 (by simp [h])
    rw [List.nil_append, firstToken_cons, tokenAt_of_ne _ hopen]
    rfl
  | cons x s ih =>
    have hhead := tokenAt_append hc (x :: s) t
    rw [List.cons_append] at hhead ⊢
    rw [firstToken_cons, ih, firstToken_cons, hhead, Option.or_assoc]

theorem firstToken_token {id : GoString} (h : IsTokenID id) (t : GoString) :
    firstToken (token id ++ t) = some id := by
  have hat : tokenAt (token id ++ t) = some id := tokenAt_eq_some.mpr ⟨h, List.prefix_append _ _⟩
  rw [token_eq, List.cons_append] at hat ⊢
  rw [firstToken_cons, hat, Option.some_or]

theorem firstToken_isSome {s id : GoString} (h : IsTokenID id) (hs : contains s (token id) = true) :
    (firstToken s).isSome := by
  rw [contains_iff, List.infix_iff_prefix_suffix] at hs
  obtain ⟨t, hpre, hsuf⟩ := hs
  rw [firstToken, List.findSome?_isSome_iff]
  exact ⟨t, (List.mem_tails _ _).mpr hsuf, by rw [tokenAt_eq_some.mpr ⟨h, hpre⟩]; rfl⟩

theorem firstToken_eq_some {s id : GoString} (h : firstToken s = some id) :
    IsTokenID id ∧ contains s (token id) = true := by
  obtain ⟨t, ht, hat⟩ := List.exists_of_findSome?_eq_some h
  obtain ⟨hid, hpre⟩ := tokenAt_eq_some.mp hat
  refine ⟨hid, contains_iff.mpr ?_⟩
  exact List.infix_iff_prefix_suffix.mpr ⟨t, hpre, (List.mem_tails _ _).mp ht⟩

theorem parseToken_eq (s : GoString) : parseToken s = (firstToken s).getD [] := rfl

def Names (s id : GoString) : Prop := contains s (token id) = true ∧ parseToken s = id

def Unclaimed (s id : GoString) : Prop := parseToken s = [] ∨ parseToken s = id

section Appended

variable {s id : GoString} (hid : IsTokenID id)

include hid

theorem IsTokenID.ne_nil : id ≠ [] := by
  rintro rfl
  exact absurd hid.long (by decide)

theorem names_iff : Names s id ↔ firstToken s = some id := by
  rw [Names, parseToken_eq]
  constructor
  · rintro ⟨-, hparse⟩
    cases hfirst : firstToken s with
    | none =>
      rw [hfirst] at hparse
      exact absurd hparse.symm hid.ne_nil
    | some id' =>
      rw [hfirst] at hparse
      exact congrArg some hparse
  · intro hfirst
    exact ⟨(firstToken_eq_some hfirst).2, by rw [hfirst]; rfl⟩

omit hid in
theorem unclaimed_iff : Unclaimed s id ↔ ((firstToken s).or (some id)) = some id := by
  rw [Unclaimed, parseToken_eq]
  cases hfirst : firstToken s with
  | none => simp
  | some id' =>
    have hne : id' ≠ [] := (firstToken_eq_some hfirst).1.ne_nil
    simp [hne]

omit hid in
theorem firstToken_trimRight (s : GoString) : firstToken (trimRight s "\r\n") = firstToken s := by
  have hcut : ∀ b ∈ goString "\r\n", Separates b := by
    unfold Separates
    decide +kernel
  induction s using List.reverseRecOn with
  | nil => rfl
  | append_singleton l x ih =>
    rw [trimRight, List.rdropWhile_concat]
    split
    · rename_i hx
      have hnil : firstToken [] = none := rfl
      rw [firstToken_append (hcut x (List.contains_iff_mem.mp hx)), hnil, Option.or_none]
      exact ih
    · rfl

theorem firstToken_withReference : firstToken (withReference s id) = (firstToken s).or (some id) := by
  have hnewline : Separates 0x0A := by
    unfold Separates
    decide +kernel
  have hlines : goString "\n\n--\n" = 0x0A :: goString "\n--\n" := by decide
  have hplain : 0x5B ∉ goString "\n--\n" ++ goString "Ticket reference: " := by decide
  have htext : withReference s id =
      trimRight s "\r\n" ++ 0x0A ::
      (goString "\n--\n" ++ goString "Ticket reference: " ++ (token id ++ goString "\n")) := by
    simp only [withReference, referenceLine, hlines, List.append_assoc, List.cons_append]
  rw [htext, firstToken_append hnewline, firstToken_trimRight, firstToken_skip hplain, firstToken_token hid]

theorem names_withReference : Names (withReference s id) id ↔ Unclaimed s id := by
  rw [names_iff hid, firstToken_withReference hid, unclaimed_iff]

theorem names_of_contains (h : contains s (token id) = true) : Names s id ↔ Unclaimed s id := by
  rw [names_iff hid, unclaimed_iff]
  cases hfirst : firstToken s with
  | none =>
    have hsome := firstToken_isSome hid h
    rw [hfirst] at hsome
    cases hsome
  | some id' => rfl

theorem names_appendReference : Names (appendReference s id) id ↔ Unclaimed s id := by
  unfold appendReference
  split
  · rename_i hkept
    rcases hkept with htoken | hown
    · rw [names_iff hid, unclaimed_iff]
      cases hfirst : firstToken s with
      | none =>
        rw [parseToken_eq, hfirst] at htoken
        exact absurd rfl htoken
      | some id' => rfl
    · exact names_of_contains hid hown
  · exact names_withReference hid

end Appended

end TangraTicket.Services.Threading

namespace TangraTicket.Services

open GoText Store CallProgram Threading

/-- The acknowledgement text before its reference: the template, or the built-in greeting, with the
name put in. -/
def Inbound.rendered (template name : GoString) : GoString :=
  if trimSpace template = [] then
    replaceAll defaultAck greetingPlaceholder (if trimSpace name ≠ [] then goString " " ++
      trimSpace name else [])
  else replaceAll template namePlaceholder (trimSpace name)

theorem names_ackBody {id : GoString} (hid : IsTokenID id) (template name : GoString) :
    Names (Inbound.ackBody template name id) id ↔ Unclaimed (Inbound.rendered template name) id := by
  have hbody : Inbound.ackBody template name id =
      if contains (Inbound.rendered template name) (referenceLine id) then Inbound.rendered template name
      else withReference (Inbound.rendered template name) id := rfl
  rw [hbody]
  split
  · rename_i hline
    apply names_of_contains hid
    rw [contains_iff] at hline ⊢
    have hown : token id <:+: referenceLine id :=
      (List.suffix_append (goString "Ticket reference: ") (token id)).isInfix
    exact hown.trans hline
  · exact names_withReference hid

theorem length_split (c : UInt8) (s : GoString) :
    ((split c s).map (·.length)).sum + (split c s).length = s.length + 1 := by
  induction s with
  | nil => rfl
  | cons b s ih =>
    unfold split
    cases hsplit : split c s with
    | nil => simp [hsplit] at ih
    | cons w ws =>
      rw [hsplit] at ih
      simp only [List.map_cons, List.sum_cons, List.length_cons] at ih ⊢
      split_ifs <;> simp only [List.map_cons, List.sum_cons, List.length_cons, List.length_nil] <;> omega

theorem isTokenID_of_isUUID {id : GoString} (h : Backup.isUUID id = true) : IsTokenID id := by
  simp only [Backup.isUUID, Bool.and_eq_true, decide_eq_true_eq, List.all_eq_true] at h
  obtain ⟨hparts, hbytes⟩ := h
  have hlen := length_split 0x2D id
  have hcount : (split 0x2D id).length = 5 := by rw [← List.length_map, hparts]; rfl
  rw [hparts, hcount] at hlen
  have hlength : id.length = 36 := by simpa using hlen.symm
  refine ⟨by omega, by omega, fun b hb => ?_⟩
  have := hbytes b hb
  simpa [isTokenByte, Backup.isHex] using this

/-- For a ticket whose id is a UUID, the mail of an accepted reply, and the acknowledgement of an
accepted mailbox, name the ticket exactly when the body, or the rendered template, does not start
its tokens with another ticket's. -/
theorem reference_names_ticket [GoLibrary] {id : GoString} (hid : Backup.isUUID id = true) :
    (∀ input body, Comments.cleanBody input = .ok body →
      ((contains (appendReference body id) (token id) = true ∧ parseToken (appendReference body id) = id) ↔
        (parseToken body = [] ∨ parseToken body = id))) ∧
    (∀ mb₀ input mb name, Mailboxes.apply mb₀ input = .ok mb →
      ((contains (Inbound.ackBody mb.autoAckTemplate name id) (token id) = true ∧
          parseToken (Inbound.ackBody mb.autoAckTemplate name id) = id) ↔
        (parseToken (Inbound.rendered mb.autoAckTemplate name) = [] ∨
          parseToken (Inbound.rendered mb.autoAckTemplate name) = id))) := by
  have hid' := isTokenID_of_isUUID hid
  exact ⟨fun _ _ _ => names_appendReference hid', fun _ _ mb name _ =>
    names_ackBody hid' mb.autoAckTemplate name⟩

def ownID : GoString := uniformID 0x31

def otherID : GoString := uniformID 0x32

/-- A reply body, a template and a requester name that carry another ticket's token. -/
theorem reference_names_other :
    letI := asciiLibrary
    Backup.isUUID ownID = true ∧ (Comments.cleanBody (token otherID)).toOption = some (token otherID) ∧
      parseToken (appendReference (token otherID) ownID) = otherID ∧
      ((Mailboxes.apply {} { autoAckTemplate := some (token otherID) }).toOption.map (·.autoAckTemplate)) =
        some (token otherID) ∧
      parseToken (Inbound.ackBody (token otherID) [] ownID) = otherID ∧
      parseToken (Inbound.ackBody Inbound.namePlaceholder (token otherID) ownID) = otherID := by
  decide +kernel

theorem reference_names_ticket_plain :
    letI := asciiLibrary
    parseToken (appendReference [0x61] ownID) = ownID ∧
    parseToken (Inbound.ackBody [0x61] [] ownID) = ownID := by
  let := asciiLibrary
  have hown : Backup.isUUID ownID = true := by decide +kernel
  have hbody : Comments.cleanBody [0x61] = .ok [0x61] := rfl
  have hmailbox : Mailboxes.apply { autoAckTemplate := [0x61] } {} =
    .ok { autoAckTemplate := [0x61] } := rfl
  obtain ⟨hreply, hack⟩ := reference_names_ticket hown
  exact ⟨((hreply _ _ hbody).mpr (.inl (by decide +kernel))).2,
    ((hack _ _ _ [] hmailbox).mpr (.inl (by decide +kernel))).2⟩

end TangraTicket.Services
