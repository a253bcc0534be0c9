import TangraTicket.Library.GoCase
import TangraTicket.Library.WordDecoder

/-!
The header of a message in the format of mail: fields by name, folded over lines, up to an empty
line. A reader of it, and that the reader finds the fields that were written.
-/

namespace TangraTicket.HeaderBlock

open GoText EncodedWord

structure HeaderLine (l : GoString) : Prop where
  nonempty : l ≠ []
  bytes : ∀ b ∈ l, (0x20 ≤ b ∧ b ≠ 0x7F) ∨ b = 0x09
  head : ∀ b ∈ l.head?, b ≠ 0x20 ∧ b ≠ 0x09
  last : ∀ b ∈ l.getLast?, b ≠ 0x20 ∧ b ≠ 0x09

structure HeaderField where
  name : GoString
  lines : List GoString

structure HeaderField.WellFormed (f : HeaderField) : Prop where
  name_ne : f.name ≠ []
  name_bytes : ∀ b ∈ f.name, 0x21 ≤ b ∧ b ≤ 0x7E ∧ b ≠ 0x3A
  lines_ne : f.lines ≠ []
  lines_ok : ∀ l ∈ f.lines, HeaderLine l

def HeaderField.text (f : HeaderField) : GoString :=
  f.name ++ goString ": " ++ join f.lines "\r\n " ++ goString "\r\n"

def valuesOf (fields : List HeaderField) (name : GoString) : List GoString :=
  (fields.filter fun f => f.name.map lowerByte = name.map lowerByte).map fun f => join f.lines " "

def readRows : (rounds : ℕ) → GoString → Option (List GoString × GoString)
  | 0, _ => none
  | rounds + 1, raw =>
    match cut "\r\n" raw with
    | none => none
    | some ([], body) => some ([], body)
    | some (row, rest) => (readRows rounds rest).map fun r => (row :: r.1, r.2)

def unfolded : List GoString → List HeaderField × List GoString
  | [] => ([], [])
  | row :: rows =>
    match row, cut ": " row with
    | 0x20 :: line, _ => ((unfolded rows).1, line :: (unfolded rows).2)
    | _, some (name, line) => (⟨name, line :: (unfolded rows).2⟩ :: (unfolded rows).1, [])
    | _, none => ((unfolded rows).1, [])

def read (raw : GoString) : Option (List HeaderField × GoString) :=
  (readRows raw.length raw).map fun r => ((unfolded r.1).1, r.2)

def HeaderField.rows (f : HeaderField) : List GoString :=
  match f.lines with
  | [] => []
  | l :: ls => (f.name ++ goString ": " ++ l) :: ls.map (0x20 :: ·)

theorem HeaderField.text_eq {f : HeaderField} (h : f.lines ≠ []) :
    f.text = f.rows.flatMap (· ++ goString "\r\n") := by
  obtain ⟨name, lines⟩ := f
  obtain ⟨l, ls, rfl⟩ := List.exists_cons_of_ne_nil h
  have hfold : goString "\r\n " = goString "\r\n" ++ [0x20] := by decide
  have hjoin : ∀ (l : GoString) (ls : List GoString), join (l :: ls) "\r\n " ++ goString "\r\n" =
      (l :: ls.map (0x20 :: ·)).flatMap (· ++ goString "\r\n") := by
    intro l ls
    induction ls generalizing l with
    | nil => simp [join]
    | cons l' ls ih =>
      have hstep : join (l :: l' :: ls) "\r\n " = l ++ (goString "\r\n" ++ [0x20]) ++
          join (l' :: ls) "\r\n " := by
        simp [join, hfold, List.intercalate]
      rw [hstep, List.append_assoc, ih]
      simp
  rw [text, rows, List.append_assoc, hjoin, List.flatMap_cons, List.flatMap_cons]
  simp only [List.append_assoc]

structure Row (row : GoString) : Prop where
  nonempty : row ≠ []
  return_free : 0x0D ∉ row

theorem HeaderLine.return_free {l : GoString} (h : HeaderLine l) : 0x0D ∉ l := by
  intro hmem
  rcases h.bytes _ hmem with hb | hb
  · exact absurd hb.1 (by decide)
  · cases hb

theorem HeaderField.WellFormed.row {f : HeaderField} (h : f.WellFormed) : ∀ row ∈ f.rows, Row row := by
  obtain ⟨name, lines⟩ := f
  obtain ⟨hname, hbytes, hne, hok⟩ := h
  obtain ⟨l, ls, rfl⟩ := List.exists_cons_of_ne_nil hne
  have hcolon : 0x0D ∉ goString ": " := by decide
  have hreturn : 0x0D ∉ name := fun hmem => absurd (hbytes _ hmem).1 (by decide)
  refine List.forall_mem_cons.mpr ⟨⟨by simp [hname], ?_⟩, List.forall_mem_map.mpr fun l' hl' =>
    ⟨by simp, ?_⟩⟩
  · simp only [List.mem_append, not_or]
    exact ⟨⟨hreturn, hcolon⟩, (hok l List.mem_cons_self).return_free⟩
  · simp only [List.mem_cons, not_or]
    exact ⟨by decide, (hok l' (List.mem_cons_of_mem l hl')).return_free⟩

theorem readRows_rows {rows : List GoString} (h : ∀ row ∈ rows, Row row) {rounds : ℕ}
    (hrounds : rows.length < rounds) (body : GoString) :
    readRows rounds (rows.flatMap (· ++ goString "\r\n") ++ goString "\r\n" ++ body) =
    some (rows, body) := by
  have hcrlf : goString "\r\n" = 0x0D :: [0x0A] := by decide
  induction rows generalizing rounds with
  | nil =>
    obtain ⟨n, rfl⟩ := Nat.exists_eq_succ_of_ne_zero (Nat.ne_of_gt hrounds)
    have hcut : cut "\r\n" ([] ++ goString "\r\n" ++ body) = some ([], body) := by
      rw [hcrlf]
      exact cut_append List.not_mem_nil body
    rw [List.flatMap_nil, readRows, hcut]
  | cons row rows ih =>
    obtain ⟨hrow, hrows⟩ := List.forall_mem_cons.mp h
    obtain ⟨n, rfl⟩ := Nat.exists_eq_succ_of_ne_zero (Nat.ne_of_gt (Nat.zero_lt_of_lt hrounds))
    have hcut : cut "\r\n" ((row :: rows).flatMap (· ++ goString "\r\n") ++ goString "\r\n" ++ body) =
        some (row, rows.flatMap (· ++ goString "\r\n") ++ goString "\r\n" ++ body) := by
      rw [List.flatMap_cons, List.append_assoc, List.append_assoc, ← List.append_assoc _ _ body]
      rw [hcrlf]
      exact cut_append hrow.return_free _
    obtain ⟨b, bs, rfl⟩ := List.exists_cons_of_ne_nil hrow.nonempty
    rw [readRows, hcut]
    dsimp only
    rw [ih hrows (Nat.lt_of_succ_lt_succ hrounds), Option.map_some]

theorem unfolded_continuations (ls rows : List GoString) :
    unfolded (ls.map (0x20 :: ·) ++ rows) = ((unfolded rows).1, ls ++ (unfolded rows).2) := by
  induction ls with
  | nil => rfl
  | cons l ls ih =>
    rw [List.map_cons, List.cons_append, unfolded, ih]
    rfl

theorem unfolded_field {b : UInt8} {bs name line : GoString} (hb : b ≠ 0x20)
    (hcut : cut ": " (b :: bs) = some (name, line)) (rows : List GoString) :
    unfolded ((b :: bs) :: rows) = (⟨name, line :: (unfolded rows).2⟩ :: (unfolded rows).1, []) := by
  rw [unfolded.eq_def]
  dsimp only
  rw [hcut]
  split
  · exact absurd (List.cons.inj ‹_›).1 hb
  · obtain ⟨rfl, rfl⟩ := Prod.mk.inj (Option.some.inj ‹_›)
    rfl
  · cases ‹some _ = none›

theorem unfolded_rows {f : HeaderField} (h : f.WellFormed) {rows : List GoString}
    (hrows : (unfolded rows).2 = []) :
    unfolded (f.rows ++ rows) = (f :: (unfolded rows).1, []) := by
  obtain ⟨name, lines⟩ := f
  obtain ⟨hname, hbytes, hne, -⟩ := h
  obtain ⟨l, ls, rfl⟩ := List.exists_cons_of_ne_nil hne
  have hcolon : goString ": " = 0x3A :: [0x20] := by decide
  have hcut : cut ": " (name ++ goString ": " ++ l) = some (name, l) := by
    rw [hcolon]
    exact cut_append (fun hmem => (hbytes _ hmem).2.2 rfl) l
  obtain ⟨b, bs, rfl⟩ := List.exists_cons_of_ne_nil hname
  have hb : b ≠ 0x20 := fun heq => absurd (heq ▸ (hbytes b List.mem_cons_self).1) (by decide)
  refine (unfolded_field hb hcut (ls.map (0x20 :: ·) ++ rows)).trans ?_
  rw [unfolded_continuations, hrows, List.append_nil]

theorem unfolded_fields {fields : List HeaderField} (h : ∀ f ∈ fields, f.WellFormed) :
    unfolded (fields.flatMap HeaderField.rows) = (fields, []) := by
  induction fields with
  | nil => rfl
  | cons f fields ih =>
    obtain ⟨hf, hfields⟩ := List.forall_mem_cons.mp h
    have hrest := ih hfields
    rw [List.flatMap_cons, unfolded_rows hf (congrArg Prod.snd hrest), hrest]

theorem read_text {fields : List HeaderField} (h : ∀ f ∈ fields, f.WellFormed) (body : GoString) :
    read (fields.flatMap HeaderField.text ++ goString "\r\n" ++ body) = some (fields, body) := by
  have htext : fields.flatMap HeaderField.text = (fields.flatMap HeaderField.rows).flatMap
      (· ++ goString "\r\n") := by
    rw [List.flatMap_assoc]
    exact List.flatMap_congr fun f hf => HeaderField.text_eq (h f hf).lines_ne
  have hrows : ∀ row ∈ fields.flatMap HeaderField.rows, Row row := by
    intro row hrow
    obtain ⟨f, hf, hrow⟩ := List.mem_flatMap.mp hrow
    exact (h f hf).row row hrow
  have hlength : ∀ rows : List GoString, rows.length ≤ (rows.flatMap (· ++ goString "\r\n")).length := by
    intro rows
    induction rows with
    | nil => exact Nat.zero_le _
    | cons row rows ih =>
      have hcrlf : (goString "\r\n").length = 2 := by decide
      rw [List.length_cons, List.flatMap_cons, List.length_append, List.length_append, hcrlf]
      omega
  rw [read, htext, readRows_rows hrows ?_ body, Option.map_some, unfolded_fields h]
  have hcrlf : (goString "\r\n").length = 2 := by decide
  have := hlength (fields.flatMap HeaderField.rows)
  rw [List.length_append, List.length_append, hcrlf]
  omega

end TangraTicket.HeaderBlock
