import TangraTicket.Store.Ids

/-!
New ids increase as text, in the order in which the calls pass the critical section, as long as the
millisecond reached has 48 bits. A sequence that is exhausted borrows the next millisecond, so
readings of the clock below 2^48 alone are not enough.
-/

namespace TangraTicket.Store

open GoText

abbrev hexWidth : ℕ → ℕ → GoString := fixedWidth hexChar 16

theorem hexChar_lt : ∀ c d, c < d → d < 16 → hexChar c < hexChar d := by
  have htable : ∀ d < 16, ∀ c < d, hexChar c < hexChar d := by decide
  exact fun c d hcd hd => htable d hd c hcd

theorem encodeHex_byte (n : ℕ) : encodeHex [n.toUInt8] = hexWidth 2 n := by
  have hbyte : n.toUInt8.toNat = n % 256 := UInt8.toNat_ofNat'
  have hhigh : n % 256 / 16 = n / 16 % 16 := by omega
  have hlow : n % 256 % 16 = n % 16 := by omega
  simp [encodeHex, hbyte, hhigh, hlow, fixedWidth]

theorem encodeHex_append (bs bs' : List UInt8) :
    encodeHex (bs ++ bs') = encodeHex bs ++ encodeHex bs' := List.flatMap_append

theorem length_encodeHex (bs : List UInt8) : (encodeHex bs).length = 2 * bs.length := by
  induction bs with
  | nil => rfl
  | cons b bs ih =>
    have hcons : encodeHex (b :: bs) = [hexChar (b.toNat / 16), hexChar (b.toNat % 16)] ++
      encodeHex bs := rfl
    rw [hcons, List.length_append, ih, List.length_cons, List.length_cons, List.length_cons,
      List.length_nil]
    omega

theorem encodeHex_cons (n : ℕ) (bs : List UInt8) :
    encodeHex (n.toUInt8 :: bs) = hexWidth 2 n ++ encodeHex bs := by
  rw [← encodeHex_byte, ← encodeHex_append]
  rfl

theorem version_byte {seq : ℕ} (h : seq < 4096) :
    (0x70 : UInt8) ||| ((seq >>> 8).toUInt8 &&& 0x0f) = ((0x7000 + seq) / 16 ^ 2).toUInt8 := by
  have htable : ∀ k < 16, (0x70 : UInt8) ||| (k.toUInt8 &&& 0x0f) = (0x70 + k).toUInt8 := by decide
  have hshift : seq >>> 8 = seq / 256 := Nat.shiftRight_eq_div_pow seq 8
  have hsum : (0x7000 + seq) / 16 ^ 2 = 0x70 + seq / 256 := by omega
  rw [hshift, hsum]
  exact htable _ (by omega)

def idTail (b : Fin 16 → UInt8) : List UInt8 :=
  [(b 8 &&& 0x3f) ||| 0x80, b 9, b 10, b 11, b 12, b 13, b 14, b 15]

theorem hexWidth_four (n : ℕ) : hexWidth 4 n = hexWidth 2 (n / 16 ^ 2) ++ hexWidth 2 n :=
  fixedWidth_add 2 2 n

theorem hexWidth_eight (n : ℕ) :
    hexWidth 8 n = hexWidth 2 (n / 16 ^ 6) ++
    (hexWidth 2 (n / 16 ^ 4) ++ (hexWidth 2 (n / 16 ^ 2) ++ hexWidth 2 n)) := by
  have hhalves : hexWidth 8 n = hexWidth 4 (n / 16 ^ 4) ++ hexWidth 4 n := fixedWidth_add 4 4 n
  rw [hhalves, hexWidth_four, hexWidth_four, Nat.div_div_eq_div_mul, ← Nat.pow_add, List.append_assoc]

theorem encodeHex_idBytes (u : ℕ) {seq : ℕ} (h : seq < 4096) (b : Fin 16 → UInt8) :
    encodeHex (idBytes u seq b) =
      hexWidth 8 (u / 16 ^ 4) ++ (hexWidth 4 u ++ (hexWidth 4 (0x7000 + seq) ++ encodeHex (idTail b))) := by
  have hlow : (seq &&& 0xff).toUInt8 = (0x7000 + seq).toUInt8 := by
    have hmask : seq &&& 0xff = seq % 256 := Nat.and_two_pow_sub_one_eq_mod seq 8
    have hleft : (seq % 256).toUInt8.toNat = seq % 256 % 256 := UInt8.toNat_ofNat'
    have hright : (0x7000 + seq).toUInt8.toNat = (0x7000 + seq) % 256 := UInt8.toNat_ofNat'
    rw [hmask, ← UInt8.toNat_inj, hleft, hright]
    omega
  have hshift : ∀ j, u >>> (4 * j) = u / 16 ^ j := fun j => by
    rw [Nat.shiftRight_eq_div_pow, Nat.pow_mul]
  have hdiv : ∀ j, u / 16 ^ 4 / 16 ^ j = u / 16 ^ (4 + j) := fun j => by
    rw [Nat.div_div_eq_div_mul, ← Nat.pow_add]
  rw [idBytes, version_byte h, hlow, ← idTail]
  simp only [encodeHex_cons, hshift 10, hshift 8, hshift 6, hshift 4, hshift 2, hexWidth_eight,
    hexWidth_four, hdiv 6, hdiv 4, hdiv 2, List.append_assoc]

theorem cut_groups {g₁ g₂ g₃ g₄ g₅ : GoString} (h₁ : g₁.length = 8) (h₂ : g₂.length = 4)
    (h₃ : g₃.length = 4) (h₄ : g₄.length = 4) (h₅ : g₅.length = 12) :
    (g₁ ++ (g₂ ++ (g₃ ++ (g₄ ++ g₅)))).take 8 = g₁ ∧
    ((g₁ ++ (g₂ ++ (g₃ ++ (g₄ ++ g₅)))).drop 8).take 4 = g₂ ∧
      ((g₁ ++ (g₂ ++ (g₃ ++ (g₄ ++ g₅)))).drop 12).take 4 = g₃ ∧
      ((g₁ ++ (g₂ ++ (g₃ ++ (g₄ ++ g₅)))).drop 16).take 4 = g₄ ∧
      ((g₁ ++ (g₂ ++ (g₃ ++ (g₄ ++ g₅)))).drop 20).take 12 = g₅ := by
  simp [List.drop_append, List.take_of_length_le, List.drop_eq_nil_of_le, h₁, h₂, h₃, h₄, h₅]

theorem text_eq {s : IdState} (hlast : 0 ≤ s.idLast) (hbits : s.idLast < 2 ^ 64)
    (hseq : s.idSeq < 4096) (b : Fin 16 → UInt8) :
    s.text b = hexWidth 8 (s.idLast.toNat / 16 ^ 4) ++
    (goString "-" ++ (hexWidth 4 s.idLast.toNat ++ (goString "-" ++
      (hexWidth 4 (0x7000 + s.idSeq) ++ (goString "-" ++ ((encodeHex (idTail b)).take 4 ++ (goString "-" ++
        (encodeHex (idTail b)).drop 4))))))) := by
  have hu : (s.idLast % 2 ^ 64).toNat = s.idLast.toNat := by rw [Int.emod_eq_of_lt hlast hbits]
  have hlength : ∀ w n, (hexWidth w n).length = w := length_fixedWidth
  have hsixteen : (encodeHex (idTail b)).length = 16 := length_encodeHex _
  have hfront : ((encodeHex (idTail b)).take 4).length = 4 := by rw [List.length_take, hsixteen]; rfl
  have hback : ((encodeHex (idTail b)).drop 4).length = 12 := by rw [List.length_drop, hsixteen]
  have hbytes : encodeHex (idBytes s.idLast.toNat s.idSeq b) = hexWidth 8 (s.idLast.toNat / 16 ^ 4) ++
      (hexWidth 4 s.idLast.toNat ++ (hexWidth 4 (0x7000 + s.idSeq) ++
        ((encodeHex (idTail b)).take 4 ++ (encodeHex (idTail b)).drop 4))) := by
    rw [encodeHex_idBytes _ hseq, List.take_append_drop]
  obtain ⟨h₁, h₂, h₃, h₄, h₅⟩ := cut_groups (hlength 8 (s.idLast.toNat / 16 ^ 4)) (hlength 4 s.idLast.toNat)
    (hlength 4 (0x7000 + s.idSeq)) hfront hback
  rw [IdState.text, hu, hbytes, h₁, h₂, h₃, h₄, h₅]
  simp only [List.append_assoc]

structure IdState.InRange (s : IdState) : Prop where
  nonneg : 0 ≤ s.idLast
  bits : s.idLast < 2 ^ 48
  seq : s.idSeq < 4096

def IdState.ticks (s : IdState) : ℤ := s.idLast * 2 ^ 12 + s.idSeq

theorem IdState.InRange.of_ticks {s : IdState} (hnonneg : 0 ≤ s.idLast) (hseq : s.idSeq < 4096)
    (h : s.ticks < 2 ^ 60) :
    s.InRange := by
  rw [IdState.ticks] at h
  exact ⟨hnonneg, by omega, hseq⟩

theorem text_lt {s s' : IdState} (h : s.InRange) (h' : s'.InRange) (hlt : s.ticks < s'.ticks)
    (b b' : Fin 16 → UInt8) :
    s.text b < s'.text b' := by
  have hsame : ∀ w m n, (hexWidth w m).length = (hexWidth w n).length := fun w m n => by
    rw [length_fixedWidth, length_fixedWidth]
  have hbits : s'.idLast.toNat < 16 ^ 12 := by
    have := h'.nonneg
    have := h'.bits
    omega
  rw [text_eq h.nonneg (h.bits.trans (by decide)) h.seq,
    text_eq h'.nonneg (h'.bits.trans (by decide)) h'.seq]
  have hcases : s.idLast < s'.idLast ∨ s.idLast = s'.idLast ∧ s.idSeq < s'.idSeq := by
    have := h.seq
    have := h'.seq
    rw [IdState.ticks, IdState.ticks] at hlt
    omega
  rcases hcases with hlt | ⟨heq, hlt⟩
  · have hnat : s.idLast.toNat < s'.idLast.toNat := by
      have := h.nonneg
      omega
    rcases Nat.lt_or_eq_of_le (Nat.div_le_div_right (c := 16 ^ 4) hnat.le) with hhigh | hhigh
    · exact append_lt_append (fixedWidth_lt hexChar_lt hhigh (Nat.div_lt_of_lt_mul (by omega)))
        (hsame ..) _ _
    · have hlow : s.idLast.toNat % 16 ^ 4 < s'.idLast.toNat % 16 ^ 4 := by omega
      have hgroup : hexWidth 4 s.idLast.toNat < hexWidth 4 s'.idLast.toNat := by
        have hmod : ∀ n, hexWidth 4 (n % 16 ^ 4) = hexWidth 4 n := fixedWidth_mod 4
        rw [← hmod s.idLast.toNat, ← hmod s'.idLast.toNat]
        exact fixedWidth_lt hexChar_lt hlow (Nat.mod_lt _ (by decide))
      rw [hhigh]
      exact List.append_left_lt (List.append_left_lt (append_lt_append hgroup (hsame ..) _ _))
  · have hgroup : hexWidth 4 (0x7000 + s.idSeq) < hexWidth 4 (0x7000 + s'.idSeq) := by
      have := h'.seq
      exact fixedWidth_lt hexChar_lt (by omega) (by omega)
    rw [heq]
    exact List.append_left_lt (List.append_left_lt (List.append_left_lt (List.append_left_lt
      (append_lt_append hgroup (hsame ..) _ _))))

theorem sequenceStart_lt (b : Fin 16 → UInt8) : sequenceStart b < 2 ^ 11 := by
  have hmask : (b 6).toNat &&& 0x07 < 2 ^ 3 := Nat.and_lt_two_pow _ (by decide)
  have hshift : ((b 6).toNat &&& 0x07) <<< 8 < 2 ^ 11 := by
    rw [Nat.shiftLeft_eq]
    omega
  exact Nat.or_lt_two_pow hshift (lt_trans (b 7).toNat_lt (by decide))

theorem ticks_mint {s : IdState} (hseq : s.idSeq < 4096) (c : IdCall) :
    (s.mint c).idSeq < 4096 ∧ s.idLast ≤ (s.mint c).idLast ∧ s.ticks < (s.mint c).ticks ∧
      ((s.mint c).ticks = s.ticks + 1 ∨ (s.mint c).ticks < c.ms * 2 ^ 12 + 2 ^ 11) := by
  have hwrap : (s.idSeq + 1) % 2 ^ 16 = s.idSeq + 1 := Nat.mod_eq_of_lt (by omega)
  have hlimit : 1 <<< 12 = 4096 := rfl
  have hstart := sequenceStart_lt c.b
  rw [IdState.mint]
  simp only [hwrap, hlimit, IdState.ticks]
  split_ifs with hms hfull
  · -- borrowed: the sequence number was the last one of its millisecond
    dsimp only
    omega
  · dsimp only
    omega
  · dsimp only
    omega

def isHex (c : UInt8) : Bool := (0x30 ≤ c && c ≤ 0x39) || (0x61 ≤ c && c ≤ 0x66)

/-- `xxxxxxxx-xxxx-7xxx-vxxx-xxxxxxxxxxxx` in lower case, where `v` is 8, 9, a or b. -/
def CanonicalV7 (id : GoString) : Prop :=
  ∃ g₁ g₂ g₃ g₄ g₅ : GoString, ∃ v ∈ goString "89ab",
    id = g₁ ++ goString "-" ++ g₂ ++ goString "-7" ++ g₃ ++ goString "-" ++ [v] ++ g₄ ++
    goString "-" ++ g₅ ∧
      (g₁.length = 8 ∧ g₂.length = 4 ∧ g₃.length = 3 ∧ g₄.length = 3 ∧ g₅.length = 12) ∧
      ∀ c ∈ g₁ ++ g₂ ++ g₃ ++ g₄ ++ g₅, isHex c = true

theorem CanonicalV7.length {id : GoString} (h : CanonicalV7 id) : id.length = 36 := by
  obtain ⟨g₁, g₂, g₃, g₄, g₅, v, -, rfl, ⟨h₁, h₂, h₃, h₄, h₅⟩, -⟩ := h
  have hdash : (goString "-").length = 1 := by decide
  have hversion : (goString "-7").length = 2 := by decide
  simp only [List.length_append, h₁, h₂, h₃, h₄, h₅, hdash, hversion, List.length_singleton]

theorem isHex_hexChar : ∀ d < 16, isHex (hexChar d) = true := by decide

theorem isHex_of_mem_hexWidth {w n : ℕ} {c : UInt8} (hc : c ∈ hexWidth w n) : isHex c = true := by
  obtain ⟨d, hd, rfl⟩ := mem_fixedWidth (by decide) hc
  exact isHex_hexChar d hd

theorem isHex_of_mem_encodeHex {bs : List UInt8} {c : UInt8} (hc : c ∈ encodeHex bs) : isHex c = true := by
  obtain ⟨b, -, hc⟩ := List.mem_flatMap.mp hc
  have hb : b.toNat < 256 := b.toNat_lt
  simp only [List.mem_cons, List.not_mem_nil, or_false] at hc
  rcases hc with rfl | rfl
  · exact isHex_hexChar _ (by omega)
  · exact isHex_hexChar _ (by omega)

theorem encodeHex_idTail (b : Fin 16 → UInt8) :
    ∃ v ∈ goString "89ab", ∃ g₄ g₅ : GoString, g₄.length = 3 ∧ g₅.length = 12 ∧
    (∀ c ∈ g₄ ++ g₅, isHex c = true) ∧
      (encodeHex (idTail b)).take 4 = v :: g₄ ∧ (encodeHex (idTail b)).drop 4 = g₅ := by
  have hvariant : ∀ x : UInt8, hexChar (((x &&& 0x3f) ||| 0x80).toNat / 16) ∈ goString "89ab" := by
    have htable : ∀ n < 256, hexChar (((n.toUInt8 &&& 0x3f) ||| 0x80).toNat / 16) ∈
      goString "89ab" := by decide +kernel
    intro x
    have hx := htable x.toNat x.toNat_lt
    rwa [show x.toNat.toUInt8 = x from UInt8.ofNat_toNat] at hx
  have hlength : (encodeHex (idTail b)).length = 16 := length_encodeHex _
  refine ⟨_, hvariant (b 8), ((encodeHex (idTail b)).drop 1).take 3, _, ?_, ?_, ?_, rfl, rfl⟩
  · rw [List.length_take, List.length_drop, hlength]
    rfl
  · rw [List.length_drop, hlength]
  · intro c hc
    rcases List.mem_append.mp hc with hc | hc
    · exact isHex_of_mem_encodeHex (List.mem_of_mem_drop (List.mem_of_mem_take hc))
    · exact isHex_of_mem_encodeHex (List.mem_of_mem_drop hc)

theorem canonicalV7_text {s : IdState} (h : s.InRange) (b : Fin 16 → UInt8) : CanonicalV7 (s.text b) := by
  have hversion : hexWidth 4 (0x7000 + s.idSeq) = hexWidth 1 7 ++ hexWidth 3 (0x7000 + s.idSeq) := by
    have hseven : (0x7000 + s.idSeq) / 16 ^ 3 = 7 := by
      have := h.seq
      omega
    rw [← hseven]
    exact fixedWidth_add 1 3 _
  have hdigit : goString "-" ++ hexWidth 1 7 = goString "-7" := by decide
  obtain ⟨v, hv, g₄, g₅, hg₄, hg₅, hhex, hfront, hback⟩ := encodeHex_idTail b
  refine ⟨hexWidth 8 (s.idLast.toNat / 16 ^ 4), hexWidth 4 s.idLast.toNat,
    hexWidth 3 (0x7000 + s.idSeq), g₄, g₅, v, hv, ?_,
    ⟨length_fixedWidth .., length_fixedWidth .., length_fixedWidth .., hg₄, hg₅⟩, fun c hc => ?_⟩
  · rw [text_eq h.nonneg (h.bits.trans (by decide)) h.seq, hfront, hback, hversion, ← hdigit]
    simp only [List.append_assoc, List.cons_append, List.nil_append]
  · rw [List.append_assoc, List.mem_append] at hc
    rcases hc with hc | hc
    · rcases List.mem_append.mp hc with hc | hc
      · rcases List.mem_append.mp hc with hc | hc <;> exact isHex_of_mem_hexWidth hc
      · exact isHex_of_mem_hexWidth hc
    · exact hhex c hc

structure Counted (limit : ℤ) (s : IdMachine) : Prop where
  waiting : ∀ c ∈ s.waiting, c.ms < limit
  nonneg : 0 ≤ s.state.idLast
  seq : s.state.idSeq < 4096
  bound : s.state.ticks + 1 < limit * 2 ^ 12 - 2 ^ 11 + s.minted.length
  ids : ∀ id ∈ s.minted, ∃ (t : IdState) (b : Fin 16 → UInt8),
    id = t.text b ∧ 0 ≤ t.idLast ∧ t.idSeq < 4096 ∧ t.ticks ≤ s.state.ticks
  increasing : s.state.ticks < 2 ^ 60 → s.minted.Pairwise (· < ·)

theorem Counted.next {limit : ℤ} {s s' : IdMachine} {a : IdAction} (h : Counted limit s)
    (ha : ∀ c, a = .begin c → c.ms < limit) (hnext : s.next a = some s') : Counted limit s' := by
  cases a with
  | begin c =>
    obtain rfl := Option.some.inj hnext
    exact { h with waiting := List.forall_mem_cons.mpr ⟨ha c rfl, h.waiting⟩ }
  | pass i =>
    obtain ⟨c, hc, rfl⟩ := Option.map_eq_some_iff.mp hnext
    obtain ⟨hseq, hlast, hticks, hnew⟩ := ticks_mint h.seq c
    have hms := h.waiting c (List.mem_of_getElem? hc)
    have hnonneg := h.nonneg.trans hlast
    refine ⟨fun c hc => h.waiting c (List.mem_of_mem_eraseIdx hc), hnonneg, hseq, ?_, ?_, ?_⟩
    · have hbound := h.bound
      simp only [List.length_append, List.length_singleton]
      omega
    · intro id hid
      rcases List.mem_append.mp hid with hid | hid
      · obtain ⟨t, b, ht, hlast, hseq, hle⟩ := h.ids id hid
        exact ⟨t, b, ht, hlast, hseq, hle.trans hticks.le⟩
      · exact ⟨_, c.b, List.mem_singleton.mp hid, hnonneg, hseq, le_rfl⟩
    · intro hroom
      have hrange := IdState.InRange.of_ticks hnonneg hseq hroom
      refine List.pairwise_append.mpr ⟨h.increasing (hticks.trans hroom), List.pairwise_singleton .., ?_⟩
      intro id hid id' hid'
      obtain rfl := List.mem_singleton.mp hid'
      obtain ⟨t, b, rfl, hlast, hseq, hle⟩ := h.ids id hid
      have hlt := hle.trans_lt hticks
      exact text_lt (.of_ticks hlast hseq (hlt.trans hroom)) hrange hlt b c.b

theorem Counted.reach {limit : ℤ} (hlimit : 0 < limit) {s : IdMachine}
    (h : Machine.Reach IdMachine.next (fun _ a => ∀ c, a = .begin c → c.ms < limit) {} s) :
    Counted limit s := by
  refine h.invariant ⟨by simp, le_rfl, by decide, ?_, by simp, fun _ => .nil⟩ fun _ _ _ => Counted.next
  simp only [IdState.ticks, List.length_nil]
  omega

/-- Ids increase as text in the order of the critical section, and are UUIDs of version 7, for every
number of goroutines, all random bytes and all readings of the clock below `limit`, where `n` ids
leave room for the milliseconds they may borrow. -/
theorem new_ids_increase {limit : ℤ} (hlimit : 0 < limit) {s : IdMachine}
    (h : Machine.Reach IdMachine.next (fun _ a => ∀ c, a = .begin c → c.ms < limit) {} s)
    (hroom : limit * 2 ^ 12 + s.minted.length ≤ 2 ^ 60 + 2 ^ 11 + 1) :
    s.minted.Pairwise (fun id id' => id ≠ id' ∧ lessString id id' = true) ∧
      ∀ id ∈ s.minted, CanonicalV7 id ∧ id.length = 36 := by
  have hcounted := Counted.reach hlimit h
  have hticks : s.state.ticks < 2 ^ 60 := by
    have := hcounted.bound
    omega
  constructor
  · refine (hcounted.increasing hticks).imp fun {id id'} hlt => ⟨?_, lessString_iff.mpr hlt⟩
    rintro rfl
    exact List.lt_irrefl id hlt
  · intro id hid
    obtain ⟨t, b, rfl, hlast, hseq, hle⟩ := hcounted.ids id hid
    have hcanonical := canonicalV7_text (.of_ticks hlast hseq (hle.trans_lt hticks)) b
    exact ⟨hcanonical, hcanonical.length⟩

theorem two_goroutines_increase :
    let id := goString "018bcfe5-6800-77ff-bfff-ffffffffffff"
    let id' := goString "018bcfe5-6800-7800-8000-000000000000"
    ∃ s : IdMachine, Machine.Reach IdMachine.next (fun _ a => ∀ c, a = .begin c →
      c.ms < 1700000000001) {} s ∧
      s.minted = [id, id'] ∧ (id ≠ id' ∧ lessString id id' = true) ∧ CanonicalV7 id ∧ CanonicalV7 id' := by
  intro id id'
  let early : IdCall := ⟨1700000000000, fun _ => 0⟩
  let late : IdCall := ⟨1700000000000, fun _ => 255⟩
  let s : IdMachine := ⟨⟨1700000000000, 2048⟩, [], [IdState.text ⟨1700000000000, 2047⟩ late.b,
    IdState.text ⟨1700000000000, 2048⟩ early.b]⟩
  have hfirst : ({} : IdState).mint late = ⟨1700000000000, 2047⟩ := by
    simp [IdState.mint, sequenceStart, late]
  have hsecond : IdState.mint ⟨1700000000000, 2047⟩ early = ⟨1700000000000, 2048⟩ := by
    simp [IdState.mint, early]
  have hclock : ∀ a ∈ [IdAction.begin early, .begin late, .pass 0],
      ∀ c, a = .begin c → c.ms < 1700000000001 := by
    simp [early, late]
  have hreach : Machine.Reach IdMachine.next (fun _ a => ∀ c, a = .begin c →
      c.ms < 1700000000001) {} s := by
    refine .step (.step (.step (.step .refl (hclock (.begin early) (by simp)) rfl)
      (hclock (.begin late) (by simp)) rfl)
      (hclock (.pass 0) (by simp)) rfl) (hclock (.pass 0) (by simp)) ?_
    simp [IdMachine.next, hfirst, hsecond, s]
  have hminted : s.minted = [id, id'] := by decide +kernel
  obtain ⟨hincreasing, hids⟩ := new_ids_increase (by decide) hreach (by decide)
  rw [hminted] at hincreasing hids
  have hpair := List.rel_of_pairwise_cons hincreasing (List.mem_singleton_self id')
  exact ⟨s, hreach, hminted, hpair, (hids id (by simp)).1, (hids id' (by simp)).1⟩

def repeated (c : IdCall) (n : ℕ) : IdState := (fun s : IdState => s.mint c)^[n] {}

theorem repeated_succ (c : IdCall) (n : ℕ) : repeated c (n + 1) = (repeated c n).mint c :=
  Function.iterate_succ_apply' ..

theorem reach_repeated {c : IdCall} (hc : c.ms < 2 ^ 48) (n : ℕ) :
    Machine.Reach IdMachine.next (fun _ a => ∀ c, a = .begin c → c.ms < 2 ^ 48) {}
      ⟨repeated c n, [], (List.range n).map fun k => (repeated c (k + 1)).text c.b⟩ := by
  induction n with
  | zero => exact .refl
  | succ n ih =>
    have hbegin := ih.step (a := .begin c) (fun c' h => by cases h; exact hc) rfl
    refine hbegin.step (a := .pass 0) (fun c' h => by cases h) ?_
    simp only [IdMachine.next, List.getElem?_cons_zero, Option.map_some, List.eraseIdx_cons_zero,
      List.range_succ, List.map_append, List.map_singleton, repeated_succ]

def lastCall : IdCall := ⟨2 ^ 48 - 1, fun _ => 255⟩

theorem repeated_lastCall {n : ℕ} (hn : n ≤ 2048) : repeated lastCall (n + 1) = ⟨2 ^ 48 - 1, 2047 + n⟩ := by
  induction n with
  | zero => rfl
  | succ n ih =>
    have hwrap : (2047 + n + 1) % 2 ^ 16 = 2047 + (n + 1) := by omega
    have hroom : ¬ 2047 + (n + 1) ≥ 1 <<< 12 := by
      rw [show 1 <<< 12 = 4096 from rfl]
      omega
    rw [repeated_succ, ih (by omega), IdState.mint, if_pos (show lastCall.ms ≤ 2 ^ 48 - 1 from le_rfl)]
    simp only [hwrap, if_neg hroom]

/-- Its sequence is exhausted after 2049 ids at most. The next one borrows a millisecond of 49 bits,
and its text starts again at zero. -/
theorem last_millisecond_overflows :
    ∃ s : IdMachine, Machine.Reach IdMachine.next (fun _ a => ∀ c, a = .begin c → c.ms < 2 ^ 48) {} s ∧
      s.minted.drop 2048 = [goString "ffffffff-ffff-7fff-bfff-ffffffffffff",
        goString "00000000-0000-7000-bfff-ffffffffffff"] ∧
      ¬ s.minted.Pairwise (fun id id' => lessString id id' = true) := by
  have hfull : repeated lastCall 2049 = ⟨2 ^ 48 - 1, 4095⟩ := repeated_lastCall le_rfl
  have hborrowed : repeated lastCall 2050 = ⟨2 ^ 48, 0⟩ := by
    rw [repeated_succ, hfull]
    rfl
  have hdrop : ((List.range 2050).map fun k => (repeated lastCall (k + 1)).text lastCall.b).drop 2048 =
      [goString "ffffffff-ffff-7fff-bfff-ffffffffffff",
        goString "00000000-0000-7000-bfff-ffffffffffff"] := by
    rw [List.range_succ, List.range_succ, List.append_assoc, List.map_append, List.drop_left' (by simp)]
    simp only [List.map_append, List.map_singleton, hfull, hborrowed]
    decide +kernel
  have hrun : ∀ n, ∃ s : IdMachine,
      Machine.Reach IdMachine.next (fun _ a => ∀ c, a = .begin c → c.ms < 2 ^ 48) {} s ∧
        s.minted = (List.range n).map fun k => (repeated lastCall (k + 1)).text lastCall.b :=
    fun n => ⟨_, reach_repeated (by decide) n, rfl⟩
  obtain ⟨s, hreach, hminted⟩ := hrun 2050
  rw [← hminted] at hdrop
  refine ⟨s, hreach, hdrop, fun hpairwise => ?_⟩
  have htail := hpairwise.sublist (List.drop_sublist 2048 _)
  rw [hdrop] at htail
  exact absurd (List.pairwise_pair.mp htail) (by decide +kernel)

end TangraTicket.Store
