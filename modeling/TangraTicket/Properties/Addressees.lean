import TangraTicket.Library.GoFields
import TangraTicket.Stream.Hub

/-!
The recipients of a published event. A list of users is written joined by commas and read back by
splitting; the one list that is read back as something else is the user `*` alone, who stands for
everybody.
-/

namespace TangraTicket.Stream

open GoText

theorem recipients_of_publication {jsonValid : GoString → Bool} {to_ : List GoString} {all : Bool}
    {type raw : GoString} {module_ : Bool} {out : GoString × GoString × GoString}
    (h : publication jsonValid to_ all type raw module_ = .ok out) :
    (all = true ∧ to_ = [] ∧ out.1 = goString "*") ∨
      (all = false ∧ to_ ≠ [] ∧ (∀ u ∈ to_, u ≠ [] ∧ 0x2C ∉ u) ∧ out.1 = join to_ ",") := by
  unfold publication at h
  cases htype : validateType type module_ with
  | error e =>
    rw [htype] at h
    cases h
  | ok _ =>
    rw [htype] at h
    change (if _ then _ else _ : Except StreamErr (GoString × GoString × GoString)) = .ok out at h
    split_ifs at h with hcount hpayload hall hbad
    · obtain rfl := Except.ok.inj h
      refine .inl ⟨hall, ?_, rfl⟩
      simpa [hall] using (not_or.mp hcount).1
    · obtain rfl := Except.ok.inj h
      have hne : to_ ≠ [] := by
        rintro rfl
        simp [hall] at hcount
      refine .inr ⟨by simpa using hall, hne, fun u hu => ?_, rfl⟩
      have hgood := List.any_eq_false.mp (Bool.eq_false_iff.mpr hbad) u hu
      rw [Bool.or_eq_true, not_or, decide_eq_true_eq] at hgood
      refine ⟨hgood.1, fun hcomma => hgood.2 ?_⟩
      exact List.any_eq_true.mpr ⟨0x2C, hcomma, by decide⟩

theorem join_eq_star {to_ : List GoString} (hto : ∀ u ∈ to_, u ≠ []) :
    join to_ "," = goString "*" ↔ to_ = [goString "*"] := by
  constructor
  · intro h
    cases to_ with
    | nil => cases h
    | cons u rest =>
      cases rest with
      | nil =>
        rw [show join [u] "," = u by simp [join]] at h
        rw [h]
      | cons u' rest =>
        -- two users are at least three bytes long
        have hlen := congrArg List.length h
        have hu := List.length_pos_of_ne_nil (hto u List.mem_cons_self)
        have hcomma : (goString ",").length = 1 := by decide
        have hstar : (goString "*").length = 1 := by decide
        simp only [join, List.intercalate, List.intersperse, List.flatten_cons, List.length_append,
          hcomma, hstar] at hlen
        omega
  · rintro rfl
    simp [join]

/-- An accepted event reaches exactly its addressees, unless it is addressed to the user `*` alone. -/
theorem addressees_iff (jsonValid : GoString → Bool) (to_ : List GoString) (all : Bool)
    (type raw : GoString) (module_ : Bool) (out : GoString × GoString × GoString)
    (h : publication jsonValid to_ all type raw module_ = .ok out) :
    (∀ u, targets out.1 u = true ↔ all = true ∨ u ∈ to_) ↔ to_ ≠ [goString "*"] := by
  rcases recipients_of_publication h with ⟨hall, rfl, hout⟩ | ⟨hall, hne, hto, hout⟩
  · refine iff_of_true (fun u => iff_of_true ?_ (.inl hall)) (by simp)
    simp [targets, hout]
  · have hread : ∀ u, targets out.1 u = true ↔ to_ = [goString "*"] ∨ u ∈ to_ := by
      intro u
      have hsplit : split 0x2C (join to_ ",") = to_ := split_join hne fun u hu => (hto u hu).2
      rw [targets, hout, hsplit, Bool.or_eq_true, decide_eq_true_eq, join_eq_star fun u hu => (hto u hu).1,
        List.contains_iff_mem]
    simp only [hread, hall, Bool.false_eq_true, false_or]
    constructor
    · rintro hexact rfl
      have hnobody := (hexact []).mp (.inl rfl)
      exact absurd hnobody (by decide)
    · intro hstar u
      exact or_iff_right hstar

/-- An event for the user `*` goes to everybody. -/
theorem star_reaches_everybody :
    publication (fun _ => true) [goString "*"] false "t" "1" false = .ok
      (goString "*", goString "t", goString "1") ∧
      targets "*" "u" = true ∧ goString "u" ∉ [goString "*"] := by
  decide

theorem addressees_of_two :
    publication (fun _ => true) [goString "u", goString "v"] false "t" "1" false = .ok
      (goString "u,v", goString "t", goString "1") ∧
      ∀ w, targets "u,v" w = true ↔ false = true ∨ w ∈ [goString "u", goString "v"] :=
  have h : publication (fun _ => true) [goString "u", goString "v"] false "t" "1" false =
      .ok (goString "u,v", goString "t", goString "1") := by decide
  ⟨h, (addressees_iff _ _ _ _ _ _ _ h).mpr (by decide)⟩

end TangraTicket.Stream
