import TangraTicket.Library.GoText
import Mathlib.Tactic.IntervalCases

/-!
UTF-8 as `pieces` decodes it. A sequence of bytes that encodes a rune is decoded as that rune
whatever follows it, and a byte that starts no such sequence is a piece of its own; everything else
is derived from these two facts.
-/

namespace TangraTicket.GoText

inductive Encodes : GoString → ℕ → Prop
  | one {b₀ : UInt8} (h₀ : b₀ < 0x80) : Encodes [b₀] b₀.toNat
  | two {b₀ b₁ : UInt8} (hl : 0xC2 ≤ b₀) (hh : b₀ ≤ 0xDF) (h₁ : isCont b₁ = true) :
      Encodes [b₀, b₁] ((b₀.toNat - 0xC0) * 64 + (b₁.toNat - 0x80))
  | three {b₀ b₁ b₂ : UInt8} (hl : 0xE0 ≤ b₀) (hh : b₀ ≤ 0xEF) (h₁ : secondOk b₀ b₁ = true)
      (h₂ : isCont b₂ = true) :
      Encodes [b₀, b₁, b₂] ((b₀.toNat - 0xE0) * 4096 + (b₁.toNat - 0x80) * 64 + (b₂.toNat - 0x80))
  | four {b₀ b₁ b₂ b₃ : UInt8} (hl : 0xF0 ≤ b₀) (hh : b₀ ≤ 0xF4) (h₁ : secondOk b₀ b₁ = true)
      (h₂ : isCont b₂ = true)
      (h₃ : isCont b₃ = true) : Encodes [b₀, b₁, b₂, b₃]
      ((b₀.toNat - 0xF0) * 262144 + (b₁.toNat - 0x80) * 4096 +
        (b₂.toNat - 0x80) * 64 + (b₃.toNat - 0x80))

variable {s t bs : GoString} {b : UInt8} {r : ℕ}

theorem isCont_of_secondOk {b₀ b₁ : UInt8} (h : secondOk b₀ b₁ = true) : isCont b₁ = true := by
  simp only [secondOk, isCont] at h ⊢
  split_ifs at h <;> grind

theorem Encodes.tail_cont (h : Encodes (b :: bs) r) : ∀ x ∈ bs, isCont x = true := by
  cases h with
  | one => nofun
  | two hl hh h₁ => simpa using h₁
  | three hl hh h₁ h₂ => simpa using ⟨isCont_of_secondOk h₁, h₂⟩
  | four hl hh h₁ h₂ h₃ => simpa using ⟨isCont_of_secondOk h₁, h₂, h₃⟩

theorem Encodes.ne_nil (h : Encodes bs r) : bs ≠ [] := by cases h <;> nofun

theorem Encodes.pieces_append (h : Encodes bs r) (t : GoString) :
    pieces (bs ++ t) = ⟨r, bs, true⟩ :: pieces t := by
  cases h with
  | @one b₀ h₀ => cases t <;> simp [pieces.eq_def (b₀ :: _), h₀, pieces.eq_1]
  | @two b₀ b₁ hl hh h₁ =>
    have hlow : ¬ b₀ < 0x80 := by grind
    cases t <;> simp [pieces.eq_def (b₀ :: _), hlow, hl, hh, h₁]
  | @three b₀ b₁ b₂ hl hh h₁ h₂ =>
    have hlow : ¬ b₀ < 0x80 := by grind
    have hmid : ¬ b₀ ≤ 0xDF := by grind
    cases t <;> simp [pieces.eq_def (b₀ :: _), hlow, hmid, hl, hh, h₁, h₂]
  | @four b₀ b₁ b₂ b₃ hl hh h₁ h₂ h₃ =>
    have hlow : ¬ b₀ < 0x80 := by grind
    have hmid : ¬ b₀ ≤ 0xDF := by grind
    have hhigh : ¬ b₀ ≤ 0xEF := by grind
    cases t <;> simp [pieces.eq_def (b₀ :: _), hlow, hmid, hhigh, hl, hh, h₁, h₂, h₃]

def Malformed (s : GoString) : Prop := ∀ bs r, Encodes bs r → ¬ bs <+: s

theorem Malformed.pieces_cons (h : Malformed (b :: t)) : pieces (b :: t) = badByte b :: pieces t := by
  have hone : ¬ b < 0x80 := fun hb => h [b] _ (.one hb) ⟨t, rfl⟩
  match t with
  | [] => simp [pieces, hone]
  | [b₁] =>
    have htwo : ¬ (0xC2 ≤ b ∧ b ≤ 0xDF ∧ isCont b₁ = true) := fun hb =>
      h [b, b₁] _ (.two hb.1 hb.2.1 hb.2.2) ⟨[], rfl⟩
    simp only [pieces.eq_def (b :: _), if_neg hone, if_neg htwo]
  | [b₁, b₂] =>
    have htwo : ¬ (0xC2 ≤ b ∧ b ≤ 0xDF ∧ isCont b₁ = true) := fun hb =>
      h [b, b₁] _ (.two hb.1 hb.2.1 hb.2.2) ⟨[b₂], rfl⟩
    have hthree : ¬ (0xE0 ≤ b ∧ b ≤ 0xEF ∧ secondOk b b₁ = true ∧ isCont b₂ = true) := fun hb =>
      h [b, b₁, b₂] _ (.three hb.1 hb.2.1 hb.2.2.1 hb.2.2.2) ⟨[], rfl⟩
    simp only [pieces.eq_def (b :: _), if_neg hone, if_neg htwo, if_neg hthree]
  | b₁ :: b₂ :: b₃ :: t =>
    have htwo : ¬ (0xC2 ≤ b ∧ b ≤ 0xDF ∧ isCont b₁ = true) := fun hb =>
      h [b, b₁] _ (.two hb.1 hb.2.1 hb.2.2) ⟨b₂ :: b₃ :: t, rfl⟩
    have hthree : ¬ (0xE0 ≤ b ∧ b ≤ 0xEF ∧ secondOk b b₁ = true ∧ isCont b₂ = true) := fun hb =>
      h [b, b₁, b₂] _ (.three hb.1 hb.2.1 hb.2.2.1 hb.2.2.2) ⟨b₃ :: t, rfl⟩
    have hfour : ¬ (0xF0 ≤ b ∧ b ≤ 0xF4 ∧ secondOk b b₁ = true ∧ isCont b₂ = true ∧
        isCont b₃ = true) := fun hb =>
      h [b, b₁, b₂, b₃] _ (.four hb.1 hb.2.1 hb.2.2.1 hb.2.2.2.1 hb.2.2.2.2) ⟨t, rfl⟩
    simp only [pieces.eq_def (b :: _), if_neg hone, if_neg htwo, if_neg hthree, if_neg hfour]

theorem decode_induction {motive : GoString → Prop} (nil : motive [])
    (formed : ∀ bs r t, Encodes bs r → motive t → motive (bs ++ t))
    (bad : ∀ b t, Malformed (b :: t) → motive t → motive (b :: t)) (s : GoString) : motive s := by
  match s with
  | [] => exact nil
  | b :: t =>
    by_cases h : ∃ bs r, Encodes bs r ∧ bs <+: b :: t
    · obtain ⟨bs, r, hbs, rest, hrest⟩ := h
      have hpos := List.length_pos_of_ne_nil hbs.ne_nil
      have hlen := congrArg List.length hrest
      rw [List.length_append] at hlen
      rw [← hrest]
      exact formed bs r rest hbs (decode_induction nil formed bad rest)
    · exact bad b t (fun bs r hbs hp => h ⟨bs, r, hbs, hp⟩) (decode_induction nil formed bad t)
termination_by s.length
decreasing_by
  · simp only [List.length_append, List.length_cons] at hlen ⊢
    omega
  · simp

theorem joinPieces_cons (p : Piece) (ps : List Piece) :
    joinPieces (p :: ps) = p.bytes ++ joinPieces ps := rfl

theorem joinPieces_append (ps qs : List Piece) : joinPieces (ps ++ qs) = joinPieces ps ++ joinPieces qs :=
  List.flatMap_append

theorem joinPieces_pieces (s : GoString) : joinPieces (pieces s) = s := by
  induction s using decode_induction with
  | nil => rfl
  | formed bs r t hbs ih => rw [hbs.pieces_append, joinPieces_cons, ih]
  | bad b t hb ih =>
    rw [hb.pieces_cons, joinPieces_cons, ih]
    rfl

theorem Malformed.append (h : Malformed (b :: s)) (ht : ∀ x ∈ t.head?, isCont x = false) :
    Malformed (b :: s ++ t) := by
  rintro bs r hbs ⟨u, hu⟩
  rcases List.append_eq_append_iff.mp hu with ⟨v, hv, -⟩ | ⟨v, hv, hvu⟩
  · exact h bs r hbs ⟨v, hv.symm⟩
  · cases v with
    | nil =>
      rw [List.append_nil] at hv
      exact h bs r hbs (hv ▸ List.prefix_rfl)
    | cons x v =>
      subst hv
      have hcont := Encodes.tail_cont (b := b) hbs x (by simp)
      have hhead := ht x (by simp [hvu])
      rw [hhead] at hcont
      exact absurd hcont (by decide)

theorem pieces_append (s : GoString) (ht : ∀ x ∈ t.head?, isCont x = false) :
    pieces (s ++ t) = pieces s ++ pieces t := by
  induction s using decode_induction with
  | nil => rfl
  | formed bs r s hbs ih =>
    rw [List.append_assoc, hbs.pieces_append, hbs.pieces_append, ih, List.cons_append]
  | bad b s hb ih =>
    have hbad : Malformed (b :: (s ++ t)) := hb.append ht
    rw [List.cons_append, hbad.pieces_cons, hb.pieces_cons, ih, List.cons_append]

theorem isCont_of_lt (h : b < 0x80) : isCont b = false := by
  simp only [isCont]
  grind

theorem pieces_cons_ascii (h : b < 0x80) (t : GoString) :
    pieces (b :: t) = ⟨b.toNat, [b], true⟩ :: pieces t :=
  (Encodes.one h).pieces_append t

theorem pieces_ascii (h : ∀ x ∈ s, x < 0x80) : pieces s = s.map fun x => ⟨x.toNat, [x], true⟩ := by
  induction s with
  | nil => rfl
  | cons x s ih =>
    obtain ⟨hx, hs⟩ := List.forall_mem_cons.mp h
    rw [pieces_cons_ascii hx, ih hs, List.map_cons]

theorem rdropWhile_append_cons {α : Type} {p : α → Bool} (l : List α) {x : α} {r : List α}
    (hx : p x = false) (hr : ∀ y ∈ r, p y = true) : (l ++ x :: r).rdropWhile p = l ++ [x] := by
  have hrev : ∀ y ∈ r.reverse, p y = true := fun y hy => hr y (List.mem_reverse.mp hy)
  rw [List.rdropWhile, List.reverse_append, List.reverse_cons, List.append_assoc,
    List.dropWhile_append_of_pos hrev]
  simp [hx]

theorem trimSpace_line {x y : UInt8} (m : GoString) {sp : GoString} (hx : x < 0x80)
    (hxs : isSpace x.toNat = false) (hy : y < 0x80) (hys : isSpace y.toNat = false)
    (hsp : ∀ z ∈ sp, z < 0x80 ∧ isSpace z.toNat = true) :
    trimSpace (x :: m ++ y :: sp) = x :: m ++ [y] := by
  have hcont : ∀ z ∈ (y :: sp).head?, isCont z = false := by
    rintro z ⟨⟩
    exact isCont_of_lt hy
  have hpieces : pieces (x :: m ++ y :: sp) =
      (⟨x.toNat, [x], true⟩ :: pieces m) ++ ⟨y.toNat, [y], true⟩ :: sp.map fun z =>
          ⟨z.toNat, [z], true⟩ := by
    rw [pieces_append (x :: m) hcont, pieces_cons_ascii hx, pieces_cons_ascii hy,
      pieces_ascii fun z hz => (hsp z hz).1]
  have hspaces : ∀ p ∈ sp.map fun z => (⟨z.toNat, [z], true⟩ : Piece), isSpace p.rune = true := by
    intro p hp
    obtain ⟨z, hz, rfl⟩ := List.mem_map.mp hp
    exact (hsp z hz).2
  rw [trimSpace, hpieces, List.cons_append, List.dropWhile_cons_of_neg (by simp [hxs]), ← List.cons_append,
    rdropWhile_append_cons _ (by exact hys) hspaces, joinPieces_append, joinPieces_cons, joinPieces_pieces]
  rfl

end TangraTicket.GoText
