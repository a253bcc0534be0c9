import Mathlib.Data.Nat.Digits.Lemmas

/-!
Dates of the Gregorian calendar by the number of days since 1 January of the year 1, and their text
`YYYY-MM-DD`.
-/

namespace TangraTicket.CivilDate

@[ext]
structure Date where
  year : ℕ
  month : ℕ
  day : ℕ
deriving DecidableEq

@[ext]
structure Parts where
  era : ℕ
  century : ℕ
  olympiad : ℕ
  year : ℕ
  month : ℕ
  day : ℕ

structure Parts.Bounded (p : Parts) : Prop where
  century : p.century < 4
  olympiad : p.olympiad < 25
  year : p.year < 4
  month : p.month < 12
  day : p.day < 100

def parts (n : ℕ) : Parts :=
  let d := (n + 306) % 146097
  let century := min (d / 36524) 3
  let rest := (d - 36524 * century) % 1461
  let year := min (rest / 365) 3
  let day := rest - 365 * year
  let month := (5 * day + 2) / 153
  { era := (n + 306) / 146097
    century := century
    olympiad := (d - 36524 * century) / 1461
    year := year
    month := month
    day := day - (153 * month + 2) / 5 + 1 }

def Parts.toDay (p : Parts) : ℕ :=
  p.era * 146097 + p.century * 36524 + p.olympiad * 1461 + p.year * 365 +
    ((153 * p.month + 2) / 5 + p.day - 1) - 306

def Parts.date (p : Parts) : Date :=
  let year := p.era * 400 + p.century * 100 + p.olympiad * 4 + p.year
  if p.month < 10 then ⟨year, p.month + 3, p.day⟩ else ⟨year + 1, p.month - 9, p.day⟩

def ofDay (n : ℕ) : Date := (parts n).date

theorem bounded_parts (n : ℕ) : (parts n).Bounded := by
  unfold parts
  constructor <;> dsimp only <;> omega

theorem toDay_parts (n : ℕ) : (parts n).toDay = n := by
  unfold parts Parts.toDay
  dsimp only
  omega

theorem Parts.Bounded.date {p : Parts} (h : p.Bounded) : p.date.month < 100 ∧ p.date.day < 100 := by
  obtain ⟨-, -, -, hmonth, hday⟩ := h
  unfold Parts.date
  split_ifs
  · exact ⟨by dsimp only; omega, hday⟩
  · exact ⟨by dsimp only; omega, hday⟩

theorem Parts.Bounded.inj {p q : Parts} (hp : p.Bounded) (hq : q.Bounded) (h : p.date = q.date) :
    p = q := by
  obtain ⟨hc, ho, hy, hm, -⟩ := hp
  obtain ⟨hc', ho', hy', hm', -⟩ := hq
  simp only [Parts.date] at h
  split_ifs at h <;> rw [Date.mk.injEq] at h <;> ext <;> omega

theorem ofDay_injective : Function.Injective ofDay := by
  intro n n' h
  rw [← toDay_parts n, (bounded_parts n).inj (bounded_parts n') h, toDay_parts]

def padded (w n : ℕ) : List UInt8 :=
  ((Nat.digitsAppend 10 w n).map fun d => 0x30 + d.toUInt8).reverse

def value (s : List UInt8) : ℕ := Nat.ofDigits 10 (s.reverse.map fun b => (b - 0x30).toNat)

theorem digit_back {d : ℕ} (h : d < 10) : ((0x30 + d.toUInt8) - 0x30).toNat = d := by
  interval_cases d <;> rfl

theorem value_padded (w n : ℕ) : value (padded w n) = n := by
  have hback : (Nat.digitsAppend 10 w n).map
      ((fun b : UInt8 => (b - 0x30).toNat) ∘ fun d : ℕ => 0x30 + d.toUInt8) =
      Nat.digitsAppend 10 w n := by
    refine (List.map_congr_left fun d hd => ?_).trans (List.map_id _)
    exact digit_back (Nat.lt_of_mem_digitsAppend (by decide) w d hd)
  rw [value, padded, List.reverse_reverse, List.map_map, hback, Nat.digitsAppend,
    Nat.ofDigits_append_replicate_zero, Nat.ofDigits_digits]

theorem length_padded {w n : ℕ} (h : n < 10 ^ w) : (padded w n).length = w := by
  rw [padded, List.length_reverse, List.length_map, Nat.length_digitsAppend (by decide) w h]

def text (d : Date) : List UInt8 := padded 4 d.year ++ 0x2D :: (padded 2 d.month ++ 0x2D :: padded 2 d.day)

theorem padded_injective (w : ℕ) : Function.Injective (padded w) := fun n n' h => by
  rw [← value_padded w n, h, value_padded]

theorem text_ofDay_injective : Function.Injective fun n => text (ofDay n) := by
  intro n n' h
  obtain ⟨hmonth, hday⟩ := (bounded_parts n).date
  obtain ⟨hmonth', hday'⟩ := (bounded_parts n').date
  have hm : (padded 2 (ofDay n).month).length = (padded 2 (ofDay n').month).length :=
    (length_padded (w := 2) hmonth).trans (length_padded (w := 2) hmonth').symm
  have hd : (padded 2 (ofDay n).day).length = (padded 2 (ofDay n').day).length :=
    (length_padded (w := 2) hday).trans (length_padded (w := 2) hday').symm
  obtain ⟨hyears, hrest⟩ := List.append_inj' h (by simp [hm, hd])
  obtain ⟨hmonths, hdays⟩ := List.append_inj (List.cons.inj hrest).2 hm
  refine ofDay_injective (Date.ext ?_ ?_ ?_)
  · exact padded_injective 4 hyears
  · exact padded_injective 2 hmonths
  · exact padded_injective 2 (List.cons.inj hdays).2

end TangraTicket.CivilDate
