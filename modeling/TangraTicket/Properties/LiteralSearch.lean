import TangraTicket.Library.GoCase
import TangraTicket.Library.GoFields
import TangraTicket.Library.SqlLike
import TangraTicket.Store.Models

/-!
The ticket search. The in-memory store looks for the query in the lower-cased fields, the database
matches them against a pattern with the query's special symbols escaped; on ASCII text the two find
the same tickets, but for queries with a zero byte, which the database refuses.
-/

namespace TangraTicket

open GoText Store

def GoText.replaceBytes (table : UInt8 → Option GoString) (s : GoString) : GoString :=
  s.flatMap fun b => (table b).getD [b]

namespace Store

def matchesQuery [GoLibrary] (t : Ticket) (q : GoString) : Bool :=
  if q = [] then true
  else
    let q := toLower q
    contains (toLower t.subject) q || contains (toLower t.requesterEmail) q ||
      contains (toLower t.requesterName) q

end Store

namespace Database

/-- The database's `lower()`, which depends on its locale. -/
class Locale where
  lower : GoString → GoString

def isText (s : GoString) : Bool := validString s && !s.contains 0

def likeEscapes (b : UInt8) : Option GoString :=
  if b = 0x5C then some [0x5C, 0x5C]
  else if b = 0x25 then some [0x5C, 0x25]
  else if b = 0x5F then some [0x5C, 0x5F]
  else none

def likePattern [GoLibrary] (q : GoString) : GoString :=
  [0x25] ++ replaceBytes likeEscapes (toLower q) ++ [0x25]

def symbols : SqlLike.Symbols ℕ := ⟨0x25, 0x5F, 0x5C, by decide⟩

/-- `text LIKE pattern ESCAPE '\'`, character by character. -/
def like (text pattern : GoString) : Option Bool := SqlLike.like symbols (runes text) (runes pattern)

/-- The condition a non-empty query adds to `ListTickets`; no value when the parameter or the
pattern is refused. -/
def queryCondition [GoLibrary] [Locale] (t : Ticket) (q : GoString) : Option Bool :=
  if isText (likePattern q) then do
    let subject ← like (Locale.lower t.subject) (likePattern q)
    let email ← like (Locale.lower t.requesterEmail) (likePattern q)
    let name ← like (Locale.lower t.requesterName) (likePattern q)
    return subject || email || name
  else none

end Database

namespace Database

/-- A hypothesis on the locale: ASCII letters are lowered as usual. It fails for a Turkish one,
where `I` becomes a dotless i. -/
class AsciiLocale [Locale] : Prop where
  lower : ∀ s, Ascii s → Locale.lower s = s.map lowerByte

theorem toNat_likeEscapes (b : UInt8) :
    ((likeEscapes b).getD [b]).map UInt8.toNat = SqlLike.quoted symbols [b.toNat] := by
  have heq : ∀ c : UInt8, b = c ↔ b.toNat = c.toNat := fun c => UInt8.toNat_inj.symm
  simp only [likeEscapes, SqlLike.quoted, symbols, heq, List.flatMap_cons, List.flatMap_nil,
    List.append_nil]
  split_ifs <;> simp_all

theorem toNat_replaceBytes (s : GoString) :
    (replaceBytes likeEscapes s).map UInt8.toNat = SqlLike.quoted symbols (s.map UInt8.toNat) := by
  rw [replaceBytes, List.map_flatMap, SqlLike.quoted, List.flatMap_map]
  congr 1
  funext b
  rw [toNat_likeEscapes, SqlLike.quoted, List.flatMap_cons, List.flatMap_nil, List.append_nil]

theorem ascii_likePattern {s : GoString} (h : Ascii s) :
    Ascii ([0x25] ++ replaceBytes likeEscapes s ++ [0x25]) := by
  intro c hc
  simp only [List.mem_append, List.mem_singleton, replaceBytes, List.mem_flatMap] at hc
  rcases hc with (rfl | ⟨b, hb, hc⟩) | rfl
  · decide
  · simp only [likeEscapes] at hc
    have hlow := h b hb
    split_ifs at hc <;> simp at hc <;> rcases hc with rfl | rfl <;> first | decide | exact hlow
  · decide

theorem zero_mem_replaceBytes {s : GoString} : 0 ∈ replaceBytes likeEscapes s ↔ 0 ∈ s := by
  have hbyte : ∀ b : UInt8, 0 ∈ (likeEscapes b).getD [b] ↔ b = 0 := by
    intro b
    unfold likeEscapes
    split_ifs with hescape hany hone
    · simp [hescape]
    · simp [hany]
    · simp [hone]
    · simp [eq_comm]
  simp only [replaceBytes, List.mem_flatMap, hbyte, exists_eq_right]

theorem lowerByte_eq_zero {b : UInt8} (h : b.toNat < 0x80) : lowerByte b = 0 ↔ b = 0 := by
  rw [← UInt8.toNat_inj, ← UInt8.toNat_inj, toNat_lowerByte h, lowerAscii, UInt8.toNat_zero]
  constructor
  · intro hlower
    split_ifs at hlower
    exact hlower
  · intro hzero
    rw [hzero, if_neg (by decide)]

section Search

variable [GoLibrary] [LowerAscii]

theorem runes_likePattern {q : GoString} (h : Ascii q) :
    runes (likePattern q) =
      symbols.any :: (SqlLike.quoted symbols ((q.map lowerByte).map UInt8.toNat) ++ [symbols.any]) := by
  rw [likePattern, toLower_ascii h, runes_ascii (ascii_likePattern h.lower), List.map_append,
    List.map_append, toNat_replaceBytes]
  rfl

theorem isText_likePattern {q : GoString} (h : Ascii q) : isText (likePattern q) = true ↔ 0 ∉ q := by
  have hlower : 0 ∈ q.map lowerByte ↔ 0 ∈ q := by
    rw [List.mem_map]
    constructor
    · rintro ⟨b, hb, hzero⟩
      rwa [← (lowerByte_eq_zero (h b hb)).mp hzero]
    · exact fun hq => ⟨0, hq, rfl⟩
  have hascii := ascii_likePattern h.lower
  rw [isText, likePattern, toLower_ascii h, hascii.valid, Bool.true_and, Bool.not_eq_true',
    ← Bool.not_eq_true, List.contains_iff_mem, List.mem_append, List.mem_append,
    zero_mem_replaceBytes, hlower]
  simp

omit [GoLibrary] [LowerAscii] in
theorem infix_toNat {s t : GoString} : s.map UInt8.toNat <:+: t.map UInt8.toNat ↔ s <:+: t := by
  refine ⟨fun h => ?_, fun h => h.map _⟩
  obtain ⟨piece, hpiece, heq⟩ := infix_map_iff.mp h
  rwa [← List.map_injective_iff.mpr (fun _ _ => UInt8.toNat_inj.mp) heq]

theorem like_likePattern [Locale] [AsciiLocale] {x q : GoString} (hx : Ascii x) (hq : Ascii q) :
    like (Locale.lower x) (likePattern q) = some (contains (toLower x) (toLower q)) := by
  rw [like, AsciiLocale.lower x hx, runes_ascii hx.lower, runes_likePattern hq, SqlLike.like_quoted,
    toLower_ascii hx, toLower_ascii hq, Option.some_inj, Bool.eq_iff_iff, decide_eq_true_eq, contains_iff]
  exact infix_toNat

theorem queryCondition_eq [Locale] [AsciiLocale] {t : Ticket} {q : GoString} (hq : Ascii q) (hne : q ≠ [])
    (hsubject : Ascii t.subject) (hemail : Ascii t.requesterEmail) (hname : Ascii t.requesterName) :
    queryCondition t q = if 0 ∈ q then none else some (matchesQuery t q) := by
  rw [queryCondition]
  by_cases hzero : 0 ∈ q
  · rw [if_pos hzero, if_neg fun htext => (isText_likePattern hq).mp htext hzero]
  · rw [if_neg hzero, if_pos ((isText_likePattern hq).mpr hzero), like_likePattern hsubject hq,
      like_likePattern hemail hq, like_likePattern hname hq, matchesQuery, if_neg hne]
    rfl

/-- The pattern finds the query literally. Both stores select the same tickets by a query without a
zero byte; the database refuses one with it. -/
theorem literal_search [Locale] [AsciiLocale] :
    (∀ x q : GoString, Ascii x → Ascii q →
      like (Locale.lower x) (likePattern q) = some (contains (toLower x) (toLower q))) ∧
    ∀ (q : GoString) (tickets : List Ticket), Ascii q → q ≠ [] →
      (∀ t ∈ tickets, Ascii t.subject ∧ Ascii t.requesterEmail ∧ Ascii t.requesterName) →
      (0 ∉ q → (tickets.filter fun t => queryCondition t q = some true) = tickets.filter
        (matchesQuery · q) ∧
        ∀ t ∈ tickets, queryCondition t q ≠ none) ∧
      (0 ∈ q → ∀ t ∈ tickets, queryCondition t q = none) := by
  refine ⟨fun x q => like_likePattern, fun q tickets hq hne hfields => ?_⟩
  have hcondition : ∀ t ∈ tickets, queryCondition t q = if 0 ∈ q then none
      else some (matchesQuery t q) := by
    intro t ht
    obtain ⟨hsubject, hemail, hname⟩ := hfields t ht
    exact queryCondition_eq hq hne hsubject hemail hname
  refine ⟨fun hzero => ⟨List.filter_congr fun t ht => ?_, fun t ht => ?_⟩, fun hzero t ht => ?_⟩
  · rw [hcondition t ht, if_neg hzero]
    simp
  · rw [hcondition t ht, if_neg hzero]
    exact Option.some_ne_none _
  · rw [hcondition t ht, if_pos hzero]

end Search

@[reducible] def asciiLocale : Locale := ⟨List.map lowerByte⟩

theorem asciiLocale_lower : @AsciiLocale asciiLocale := @AsciiLocale.mk asciiLocale fun _ _ => rfl

def discounted : Ticket :=
  { subject := "50% Off", requesterEmail := "ann@example.com", requesterName := "Ann" }

def numbered : Ticket :=
  { subject := "500 off", requesterEmail := "bob@example.com", requesterName := "Bob" }

theorem search_for_a_percent_sign :
    letI := asciiLibrary
    letI := asciiLocale
    (like (Locale.lower "50% Off") (likePattern "0% o") = some true ∧
      like (Locale.lower "500 off") (likePattern "0% o") = some false) ∧
      ([discounted, numbered].filter fun t => queryCondition t "0% o" = some true) = [discounted] := by
  let := asciiLibrary
  let := asciiLocale
  obtain ⟨hfound, hsame⟩ := @literal_search asciiLibrary lowerAscii_ascii asciiLocale asciiLocale_lower
  constructor
  · rw [hfound _ _ (by decide +kernel) (by decide +kernel),
      hfound _ _ (by decide +kernel) (by decide +kernel)]
    decide +kernel
  · rw [((hsame "0% o" [discounted, numbered] (by decide +kernel) (by decide) (by decide +kernel)).1
      (by decide)).1]
    decide +kernel

/-- The query of a request for `?query=a%00`: no ticket for the store in memory, an error of the
database. -/
theorem zero_byte_is_refused :
    letI := asciiLibrary
    letI := asciiLocale
    Ascii [0x61, 0] ∧ [discounted].filter (matchesQuery · [0x61, 0]) = [] ∧
    queryCondition discounted [0x61, 0] = none := by
  let := asciiLibrary
  let := asciiLocale
  decide +kernel

end Database

end TangraTicket
