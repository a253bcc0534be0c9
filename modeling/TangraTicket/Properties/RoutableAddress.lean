import TangraTicket.Mailparse.Parse
import TangraTicket.Properties.AckLoop
import TangraTicket.Properties.SafeFilename
import TangraTicket.Services.Mailboxes

/-!
Mailbox addresses and the recipients of relayed mail. The mailbox service lower-cases an address and
then checks it; the inbound edge takes it out of its brackets, checks it and then lower-cases it.
Both end at the stored address.
-/

namespace TangraTicket.Mailparse

open GoText Store Services KeyedTable CallProgram

structure BareAddress (v user domain : GoString) : Prop where
  eq : v = user ++ 0x40 :: domain
  user_ne : user ≠ []
  domain_ne : domain ≠ []
  user_bytes : ∀ b ∈ user, isAddressByte b = true ∧ b ≠ 0x22
  domain_bytes : ∀ b ∈ domain, isAddressByte b = true ∧ b ≠ 0x22

/-- `mail.ParseAddress` on an address it gives back without a name: a plain one, in any letter case. -/
class AddressLaws [GoLibrary] : Prop where
  bare : ∀ v, GoLibrary.parseAddress v = some ([], v) → ∃ user domain, BareAddress v user domain
  anyCase : ∀ v w, SameButCase v w → GoLibrary.parseAddress w = some ([], w) →
    GoLibrary.parseAddress v = some ([], v)

section Brackets

variable {v user domain : GoString}

theorem BareAddress.of_mem (h : BareAddress v user domain) {b : UInt8} (hb : b ∈ v) :
    b ≠ 0x3C ∧ b ≠ 0x3E ∧ b ≠ 0x20 ∧ b ≠ 0x22 := by
  rw [h.eq, List.mem_append, List.mem_cons] at hb
  have hok : ∀ b : UInt8, isAddressByte b = true ∧ b ≠ 0x22 → b ≠ 0x3C ∧ b ≠ 0x3E ∧ b ≠ 0x20 ∧
      b ≠ 0x22 := by
    intro b hb
    simp only [isAddressByte, isPatternSpace] at hb
    refine ⟨?_, ?_, ?_, hb.2⟩ <;> rintro rfl <;> simp at hb
  rcases hb with hb | rfl | hb
  · exact hok b (h.user_bytes b hb)
  · decide
  · exact hok b (h.domain_bytes b hb)

theorem takeWhile_stop {p : UInt8 → Bool} {l t : GoString} {c : UInt8} (hl : ∀ b ∈ l, p b = true)
    (hc : p c = false) :
    (l ++ c :: t).takeWhile p = l ∧ (l ++ c :: t).dropWhile p = c :: t := by
  constructor
  · rw [List.takeWhile_append_of_pos hl, List.takeWhile_cons_of_neg (by simp [hc]), List.append_nil]
  · rw [List.dropWhile_append_of_pos hl, List.dropWhile_cons_of_neg (by simp [hc])]

theorem bracketAddressAt_eq (h : BareAddress v user domain) (rest : GoString) :
    bracketAddressAt (0x3C :: (v ++ 0x3E :: rest)) = some v := by
  have huser := takeWhile_stop (t := domain ++ 0x3E :: rest) (fun b hb => (h.user_bytes b hb).1)
    (show isAddressByte 0x40 = false by decide)
  have hdomain := takeWhile_stop (t := rest) (fun b hb => (h.domain_bytes b hb).1)
    (show isAddressByte 0x3E = false by decide)
  have hsplit : v ++ 0x3E :: rest = user ++ 0x40 :: (domain ++ 0x3E :: rest) := by rw [h.eq]; simp
  rw [hsplit, bracketAddressAt]
  simp only [huser.1, huser.2, hdomain.1, hdomain.2]
  rw [if_pos ⟨h.user_ne, h.domain_ne, rfl⟩, h.eq]

theorem bracketAddressAt_none {b : UInt8} (hb : b ≠ 0x3C) (s : GoString) :
    bracketAddressAt (b :: s) = none := by
  rw [bracketAddressAt]
  intro rest heq
  exact hb (List.cons.inj heq).1

theorem findSome_skip {front : GoString} (hfront : ∀ b ∈ front, b ≠ 0x3C) (s : GoString) :
    (front ++ s).tails.findSome? bracketAddressAt = s.tails.findSome? bracketAddressAt := by
  induction front with
  | nil => rfl
  | cons b front ih =>
    obtain ⟨hb, hfront⟩ := List.forall_mem_cons.mp hfront
    rw [List.cons_append, List.tails, List.findSome?_cons, bracketAddressAt_none hb, ih hfront]

theorem bracketAddress_named (h : BareAddress v user domain) {front : GoString}
    (hfront : ∀ b ∈ front, b ≠ 0x3C) (rest : GoString) :
    bracketAddress (front ++ 0x3C :: (v ++ 0x3E :: rest)) = v := by
  rw [bracketAddress, findSome_skip hfront, List.tails, List.findSome?_cons, bracketAddressAt_eq h]
  rfl

theorem bracketAddress_none (h : ∀ b ∈ v, b ≠ 0x3C) : bracketAddress v = [] := by
  have hskip := findSome_skip h []
  rw [List.append_nil] at hskip
  rw [bracketAddress, hskip]
  rfl

end Brackets

theorem isControl_lowerAscii (r : ℕ) : isControl (lowerAscii r) = isControl r := by
  rw [lowerAscii]
  split_ifs with h
  · have hup : isControl (r + 32) = false := by simp [isControl]; omega
    have hr : isControl r = false := by simp [isControl]; omega
    rw [hup, hr]
  · rfl

theorem isSpace_lowerAscii (r : ℕ) : isSpace (lowerAscii r) = isSpace r := by
  rw [lowerAscii]
  split_ifs with h
  · have hup : isSpace (r + 32) = false := by simp [isSpace]; omega
    have hr : isSpace r = false := by simp [isSpace]; omega
    rw [hup, hr]
  · rfl

theorem map_trimmed (rs : List ℕ) : (trimmed rs).map lowerAscii = trimmed (rs.map lowerAscii) := by
  have hspace : isSpace ∘ lowerAscii = isSpace := funext isSpace_lowerAscii
  rw [trimmed, trimmed, List.dropWhile_map, rdropWhile_map, hspace]

theorem trimmed_of_same {rs rs' : List ℕ} (hcase : rs'.map lowerAscii = rs.map lowerAscii)
    (h : trimmed rs = rs) :
    trimmed rs' = rs' := by
  have hinfix : trimmed rs' <:+: rs' :=
    (trimmed_starts rs').isInfix.trans (List.dropWhile_suffix isSpace).isInfix
  have hmap : (trimmed rs').map lowerAscii = rs'.map lowerAscii := by
    rw [map_trimmed, hcase, ← map_trimmed, h]
  exact hinfix.eq_of_length (by simpa using congrArg List.length hmap)

theorem trimmed_surrounded {before rs after : List ℕ} (hbefore : ∀ r ∈ before, isSpace r = true)
    (hafter : ∀ r ∈ after, isSpace r = true) (hne : rs ≠ []) (h : trimmed rs = rs) :
    trimmed (before ++ (rs ++ after)) = rs := by
  have hfront : rs.dropWhile isSpace = rs := dropWhile_of_trimmed h
  have hback : rs.rdropWhile isSpace = rs := by
    conv_lhs => rw [← hfront]
    exact h
  rw [trimmed, List.dropWhile_append_of_pos hbefore, List.dropWhile_append, hfront,
    if_neg (by simpa using hne), List.rdropWhile, List.reverse_append,
    List.dropWhile_append_of_pos (fun r hr => hafter r (List.mem_reverse.mp hr))]
  exact hback

section Accepted

variable [GoLibrary] {v a : GoString}

structure Accepted (v a : GoString) : Prop where
  eq : a = toLower (trimSpace v)
  nonempty : a ≠ []
  short : a.length ≤ maxAddressBytes
  plain : ∀ r ∈ runes a, isControl r = false
  valid : validString a = true
  parsed : GoLibrary.parseAddress a = some ([], a)

theorem accepted_of_normalizeAddress (h : Mailboxes.normalizeAddress v = .ok a) : Accepted v a := by
  rw [Mailboxes.normalizeAddress] at h
  split_ifs at h with hbad hparse
  obtain rfl := Except.ok.inj h
  simp only [not_or, not_not] at hbad
  obtain ⟨hne, hshort, hcontrol, hvalid⟩ := hbad
  refine ⟨rfl, hne, not_lt.mp hshort, fun r hr => ?_, hvalid, hparse⟩
  have hall : (Services.hasControl (toLower (trimSpace v)) false) = false := by simpa using hcontrol
  rw [Services.hasControl, List.any_eq_false] at hall
  simpa using hall r hr

variable [LowerLaws] [LowerAscii] [AddressLaws]

omit [LowerLaws] [AddressLaws] in
theorem lowerRune_lowerAscii (r : ℕ) : GoLibrary.lowerRune (lowerAscii r) = GoLibrary.lowerRune r := by
  by_cases hr : r < 0x80
  · have hlow : lowerAscii r < 0x80 := by
      rw [lowerAscii]
      split_ifs <;> omega
    rw [LowerAscii.ascii _ hlow, LowerAscii.ascii r hr]
    simp only [lowerAscii]
    split_ifs <;> omega
  · rw [lowerAscii, if_neg (by omega)]

omit [AddressLaws] in
theorem Accepted.toLower_variant (h : Accepted v a) {rs rs₀ : List ℕ} (hrs : Scalars rs)
    (hrs₀ : Scalars rs₀) (ha : a = encode rs₀) (hlower : rs.map lowerAscii = rs₀.map lowerAscii) :
    toLower (encode rs) = a := by
  have hcomp : GoLibrary.lowerRune ∘ lowerAscii = GoLibrary.lowerRune := funext lowerRune_lowerAscii
  have hsame : rs.map GoLibrary.lowerRune = rs₀.map GoLibrary.lowerRune := by
    rw [← hcomp, ← List.map_map, hlower, List.map_map]
  have hfix : toLower a = a := by rw [h.eq, toLower_toLower]
  rw [toLower_encode hrs, hsame, ← toLower_encode hrs₀, ← ha, hfix]

theorem Accepted.variant (h : Accepted v a) {a' : GoString} (hcase : SameButCase a' a) :
    (∃ rs, Scalars rs ∧ a' = encode rs ∧ rs ≠ [] ∧ trimmed rs = rs) ∧
    (∃ user domain, BareAddress a' user domain) ∧
      toLower (cleanAddress a') = a := by
  have hparsed : GoLibrary.parseAddress a' = some ([], a') := AddressLaws.anyCase a' a hcase h.parsed
  obtain ⟨user, domain, hbare⟩ := AddressLaws.bare a' hparsed
  have hlength : a'.length = a.length := by simpa using congrArg List.length hcase
  obtain ⟨rs₀, hrs₀, ha⟩ := exists_encode h.valid
  rw [ha] at hcase
  obtain ⟨rs, hrs, rfl, hlower⟩ := hcase.exists_encode hrs₀
  have hne : rs ≠ [] := by
    rintro rfl
    obtain rfl : rs₀ = [] := List.map_eq_nil_iff.mp hlower.symm
    exact h.nonempty (ha.trans encode_nil)
  have htrim : trimmed rs = rs := by
    have hself : trimSpace a = a := by rw [h.eq]; exact trimSpace_toLower (trimSpace_trimSpace v)
    rw [ha, trimSpace_encode hrs₀] at hself
    exact trimmed_of_same hlower (encode_inj (hrs₀.of_subset (trimmed_subset rs₀)) hrs₀ hself)
  have hplain : hasControl (encode rs) = false := by
    rw [hasControl, runes_encode hrs, List.any_eq_false]
    intro r hr
    have hmem : lowerAscii r ∈ rs₀.map lowerAscii := by rw [← hlower]; exact List.mem_map_of_mem hr
    obtain ⟨r₀, hr₀, heq⟩ := List.mem_map.mp hmem
    have hplain₀ := h.plain r₀ (by rw [ha, runes_encode hrs₀]; exact hr₀)
    rw [← isControl_lowerAscii, ← heq, isControl_lowerAscii, hplain₀]
    decide
  have hany : containsAny (encode rs) " <>\"" = false := by
    have hchars : goString " <>\"" = [0x20, 0x3C, 0x3E, 0x22] := by decide
    rw [containsAny, hchars, List.any_eq_false]
    intro b hb
    obtain ⟨hopen, hclose, hblank, hquote⟩ := hbare.of_mem hb
    simp [hopen, hclose, hblank, hquote]
  refine ⟨⟨rs, hrs, rfl, hne, htrim⟩, ⟨user, domain, hbare⟩, ?_⟩
  have hclean : cleanAddress (encode rs) = encode rs := by
    have htrimmed : trimSpace (encode rs) = encode rs := by
      rw [trimSpace_encode hrs]
      exact congrArg encode htrim
    have hempty : encode rs ≠ [] := fun hnil => hne ((encode_eq_nil hrs).mp hnil)
    have hshort := h.short
    rw [cleanAddress]
    simp only [htrimmed, hany, hplain, hparsed, Option.map_some, if_true]
    rw [if_neg (by simp [hempty]; omega)]
  rw [hclean, h.toLower_variant hrs hrs₀ ha hlower]

/-- The ways a relay writes an address: bare or behind a display name, in any letter case, white
space around it. -/
inductive Presents (a : GoString) : GoString → Prop
  | bare {a' : GoString} {before after : List ℕ} (hcase : SameButCase a' a)
      (hbefore : ∀ r ∈ before, isSpace r = true)
      (hafter : ∀ r ∈ after, isSpace r = true) : Presents a (encode before ++ (a' ++ encode after))
  | named {a' name : GoString} {before after : List ℕ} (hcase : SameButCase a' a)
      (hname : ∀ b ∈ name, b ≠ 0x3C ∧ b ≠ 0x3E)
      (hbefore : ∀ r ∈ before, isSpace r = true) (hafter : ∀ r ∈ after, isSpace r = true) :
      Presents a (encode before ++ name ++ 0x3C :: (a' ++ 0x3E :: encode after))

omit [GoLibrary] [LowerLaws] [LowerAscii] [AddressLaws] in
theorem scalar_of_isSpace {r : ℕ} (h : isSpace r = true) : Scalar r ∧ r ≠ 0x3C := by
  simp only [isSpace, Bool.or_eq_true, Bool.and_eq_true, decide_eq_true_eq, beq_iff_eq] at h
  unfold Scalar
  omega

omit [GoLibrary] [LowerLaws] [LowerAscii] [AddressLaws] in
theorem no_bracket {rs : List ℕ} (h : ∀ r ∈ rs, isSpace r = true) : ∀ b ∈ encode rs, b ≠ 0x3C := by
  rintro b hb rfl
  obtain ⟨r, hr, hb⟩ := List.mem_flatMap.mp hb
  obtain ⟨hscalar, hne⟩ := scalar_of_isSpace (h r hr)
  by_cases hlow : r < 0x80
  · rw [encodeRune_ascii hlow, List.mem_singleton] at hb
    have heq := congrArg UInt8.toNat hb
    rw [toNat_toUInt8 (by omega)] at heq
    exact hne heq.symm
  · have hwide := le_of_mem_encodeRune (by omega) hscalar hb
    exact absurd hwide (by decide)

theorem normalizeRecipient_eq (h : Accepted v a) {value : GoString} (hvalue : Presents a value) :
    normalizeRecipient value = a := by
  cases hvalue with
  | @bare a' before after hcase hbefore hafter =>
    obtain ⟨⟨rs, hrs, rfl, hne, htrim⟩, ⟨user, domain, hbare⟩, hlower⟩ := h.variant hcase
    have hnone : bracketAddress (encode before ++ (encode rs ++ encode after)) = [] := by
      apply bracketAddress_none
      refine List.forall_mem_append.mpr
        ⟨no_bracket hbefore, List.forall_mem_append.mpr ⟨?_, no_bracket hafter⟩⟩
      exact fun b hb => (hbare.of_mem hb).1
    have hscalars : Scalars (before ++ (rs ++ after)) :=
      Scalars.append_iff.mpr ⟨fun r hr => (scalar_of_isSpace (hbefore r hr)).1,
        Scalars.append_iff.mpr ⟨hrs, fun r hr => (scalar_of_isSpace (hafter r hr)).1⟩⟩
    have htrimmed : trimSpace (encode before ++ (encode rs ++ encode after)) = encode rs := by
      rw [← encode_append, ← encode_append, trimSpace_encode hscalars]
      exact congrArg encode (trimmed_surrounded hbefore hafter hne htrim)
    simp only [normalizeRecipient, hnone, ne_eq, not_true_eq_false, if_false, htrimmed, hlower]
  | @named a' name before after hcase hname hbefore hafter =>
    obtain ⟨⟨rs, hrs, rfl, hne, htrim⟩, ⟨user, domain, hbare⟩, hlower⟩ := h.variant hcase
    have hfound : bracketAddress
        (encode before ++ name ++ 0x3C :: (encode rs ++ 0x3E :: encode after)) = encode rs :=
      bracketAddress_named hbare
        (List.forall_mem_append.mpr ⟨no_bracket hbefore, fun b hb => (hname b hb).1⟩) _
    have hempty : encode rs ≠ [] := fun hnil => hne ((encode_eq_nil hrs).mp hnil)
    have htrimmed : trimSpace (encode rs) = encode rs := by
      rw [trimSpace_encode hrs]
      exact congrArg encode htrim
    simp only [normalizeRecipient, hfound, ne_eq, hempty, not_false_eq_true, if_true, htrimmed, hlower]

end Accepted

section Routing

variable [GoLibrary]

def UniqueAddresses (m : Mem) : Prop :=
  ∀ x ∈ m.mailboxes.rows, ∀ y ∈ m.mailboxes.rows, x.address = y.address → x = y

omit [GoLibrary] in
theorem UniqueAddresses.put {m : Mem} (h : UniqueAddresses m) {mb : Mailbox}
    (hfree : m.addressTaken mb.id mb.address = false) :
    UniqueAddresses { m with mailboxes := m.mailboxes.put mb } := by
  have hother : ∀ x ∈ m.mailboxes.rows, x.id ≠ mb.id → x.address ≠ mb.address := by
    intro x hx hid haddr
    rw [Mem.addressTaken, List.any_eq_false] at hfree
    exact hfree x hx (by simp [hid, haddr])
  intro x hx y hy haddr
  rcases Table.mem_put.mp hx with rfl | ⟨hxold, hxid⟩
  · rcases Table.mem_put.mp hy with rfl | ⟨hyold, hyid⟩
    · rfl
    · exact absurd haddr.symm (hother y hyold hyid)
  · rcases Table.mem_put.mp hy with rfl | ⟨hyold, hyid⟩
    · exact absurd haddr (hother x hxold hxid)
    · exact h x hxold y hyold haddr

theorem UniqueAddresses.performStore {m : Mem} (h : UniqueAddresses m) (now : Time) (id : GoString)
    (q : StoreCall) :
    UniqueAddresses (performStore now id m q).2 := by
  cases hq : writesMailboxes q with
  | false =>
    unfold UniqueAddresses
    rw [mailboxes_performStore now id m hq]
    exact h
  | true =>
    cases q with
    | createMailbox mb =>
      simp only [Services.performStore, Mem.createMailbox]
      split
      · exact h
      · rename_i hfree
        exact h.put (by simpa using fun htaken => hfree (.inr htaken))
    | updateMailbox mb =>
      simp only [Services.performStore, Mem.updateMailbox]
      split
      · exact h
      · split
        · exact h
        · rename_i hfree
          exact h.put (by simpa using hfree)
    | deleteMailbox ten i force =>
      simp only [Services.performStore, Mem.deleteMailbox]
      split
      · exact h
      · split
        · exact h
        · exact fun x hx y hy => h x (Table.mem_keep.mp hx).1 y (Table.mem_keep.mp hy).1
    | _ => cases hq

theorem unique_run {α : Type} (p : Act α) {w : World} (hw : UniqueAddresses w.mem) (cs : ℕ → Choice) :
    UniqueAddresses (run step p w cs).state.mem := by
  induction p generalizing w cs with
  | ret a => exact hw
  | call e k ih => exact ih _ (mem_step hw fun q _ _ => hw.performStore _ _ q) _

def routeOf (mb : Mailbox) : MailboxRoute :=
  ⟨mb.tenantID, mb.id, mb.displayName, mb.active, mb.autoAck, mb.autoAckTemplate⟩

theorem routeMailbox_eq {m : Mem} (h : UniqueAddresses m) {mb : Mailbox} (hmb : mb ∈ m.mailboxes.rows)
    (hnorm : Mem.normAddr mb.address = mb.address) (hne : mb.address ≠ []) :
    (m.routeMailbox mb.address).1 = .ok (routeOf mb) := by
  rw [Mem.routeMailbox, hnorm]
  cases hfind : m.mailboxes.rows.find? fun x => x.address = mb.address ∧ mb.address ≠ [] with
  | none => exact absurd (List.find?_eq_none.mp hfind mb hmb) (by simp [hne])
  | some x =>
    have haddr : x.address = mb.address := by simpa [hne] using List.find?_some hfind
    obtain rfl := h x (List.mem_of_find?_eq_some hfind) mb hmb haddr
    rfl

/-- Whatever ran before, mail for a stored address that the mailbox service has accepted is routed
to its mailbox, however the relay writes it. -/
theorem routable [LowerLaws] [LowerAscii] [AddressLaws] {v a : GoString}
    (hv : Mailboxes.normalizeAddress v = .ok a) (before : Act Unit) (cs : ℕ → Choice) {w : World}
    (hw : w = (run step before {} cs).state) {mb : Mailbox} (hmb : mb ∈ w.mem.mailboxes.rows)
    (hstored : mb.address = a) {value : GoString} (hvalue : Presents a value) :
    normalizeRecipient value = a ∧ (w.mem.routeMailbox (normalizeRecipient value)).1 = .ok
      (routeOf mb) := by
  have haccepted := accepted_of_normalizeAddress hv
  have hunique : UniqueAddresses w.mem := by
    rw [hw]
    exact unique_run before (fun x hx => absurd hx List.not_mem_nil) cs
  have hnorm : Mem.normAddr a = a := by rw [haccepted.eq]; exact normAddr_normAddr v
  rw [normalizeRecipient_eq haccepted hvalue]
  subst hstored
  exact ⟨rfl, routeMailbox_eq hunique hmb hnorm haccepted.nonempty⟩

end Routing

def isPlainByte (b : UInt8) : Bool := isAddressByte b && b != 0x22

def isPlainAddress (s : GoString) : Bool :=
  !(s.takeWhile isPlainByte).isEmpty && (s.dropWhile isPlainByte).head? == some 0x40 &&
    !(s.dropWhile isPlainByte).tail.isEmpty && (s.dropWhile isPlainByte).tail.all isPlainByte

@[reducible] def plainLibrary : GoLibrary :=
  { asciiLibrary with parseAddress := fun s => if isPlainAddress s then some ([], s) else none }

theorem byte_lowerByte (b : UInt8) :
    isPlainByte (lowerByte b) = isPlainByte b ∧ (lowerByte b == 0x40) = (b == 0x40) := by
  have hall : ∀ n < 256, isPlainByte (lowerByte n.toUInt8) = isPlainByte n.toUInt8 ∧
      (lowerByte n.toUInt8 == 0x40) = (n.toUInt8 == 0x40) := by decide +kernel
  have hb := hall b.toNat b.toNat_lt
  rwa [Nat.toUInt8_eq, UInt8.ofNat_toNat] at hb

theorem isPlainAddress_lower (s : GoString) : isPlainAddress (s.map lowerByte) = isPlainAddress s := by
  have hcomp : isPlainByte ∘ lowerByte = isPlainByte := funext fun b => (byte_lowerByte b).1
  have hhead : ∀ o : Option UInt8, (o.map lowerByte == some 0x40) = (o == some 0x40) := by
    rintro (_ | b)
    · rfl
    · exact (byte_lowerByte b).2
  simp only [isPlainAddress, List.takeWhile_map, List.dropWhile_map, hcomp, List.head?_map, hhead,
    ← List.map_tail, List.all_map, List.isEmpty_map]

theorem plainLaws : @AddressLaws plainLibrary := by
  let := plainLibrary
  have hparse : ∀ v, GoLibrary.parseAddress v = some ([], v) ↔ isPlainAddress v = true := by
    intro v
    change (if isPlainAddress v then some (([] : GoString), v) else none) = some ([], v) ↔ _
    split_ifs with h <;> simp [h]
  constructor
  · intro v hv
    rw [hparse, isPlainAddress] at hv
    simp only [Bool.and_eq_true, Bool.not_eq_true', List.isEmpty_eq_false_iff, beq_iff_eq,
      List.all_eq_true] at hv
    obtain ⟨⟨⟨huser, hhead⟩, hdomain⟩, hbytes⟩ := hv
    have hplain : ∀ b, isPlainByte b = true → isAddressByte b = true ∧ b ≠ 0x22 := by
      intro b hb
      simpa [isPlainByte] using hb
    refine ⟨v.takeWhile isPlainByte, (v.dropWhile isPlainByte).tail, ?_, huser, hdomain,
      fun b hb => hplain b (List.mem_takeWhile_imp hb), fun b hb => hplain b (hbytes b hb)⟩
    conv_lhs => rw [← List.takeWhile_append_dropWhile (p := isPlainByte) (l := v)]
    rw [List.eq_cons_of_mem_head? hhead]
    rfl
  · intro v w hcase hw
    rw [hparse] at hw ⊢
    rw [← isPlainAddress_lower, hcase, isPlainAddress_lower, hw]

def helpMailbox : Act Unit := do
  let _ ← tryAsk (.createMailbox { id := "m", tenantID := "t", address := "Help@x", active := true })

def helpWorld : World :=
  letI := plainLibrary
  (run step helpMailbox {} fun _ => {}).state

theorem help_desk_routed :
    letI := plainLibrary
    ∃ mb ∈ helpWorld.mem.mailboxes.rows, mb.address = "help@x" ∧
      normalizeRecipient " Help Desk <HELP@X>" = "help@x" ∧
      (helpWorld.mem.routeMailbox (normalizeRecipient " Help Desk <HELP@X>")).1 = .ok (routeOf mb) := by
  let := plainLibrary
  have hlower : @LowerLaws plainLibrary :=
    ⟨asciiLowerLaws.idem, asciiLowerLaws.scalar, asciiLowerLaws.space⟩
  have hascii : @LowerAscii plainLibrary := ⟨lowerAscii_ascii.ascii, lowerAscii_ascii.wide⟩
  have hv : Mailboxes.normalizeAddress "Help@x" = .ok "help@x" := by
    have hlow : toLower (trimSpace "Help@x") = "help@x" := by decide +kernel
    rw [Mailboxes.normalizeAddress, hlow, if_neg (by decide +kernel), if_pos (by decide +kernel)]
  have hvalue : Presents "help@x"
      (encode [0x20] ++ "Help Desk " ++ 0x3C :: (goString "HELP@X" ++ 0x3E :: encode [])) :=
    .named (by rw [SameButCase]; decide) (by decide +kernel) (by decide +kernel) (by decide +kernel)
  obtain ⟨mb, hmb, hstored⟩ : ∃ mb ∈ helpWorld.mem.mailboxes.rows, mb.address = "help@x" := by
    decide +kernel
  exact ⟨mb, hmb, hstored, @routable plainLibrary hlower hascii plainLaws _ _ hv helpMailbox
    (fun _ => {}) _ rfl _ hmb hstored
    _ hvalue⟩

end TangraTicket.Mailparse
