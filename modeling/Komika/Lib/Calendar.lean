import Mathlib.Tactic.Linarith
import Mathlib.Order.Basic

/-!
# The Gregorian calendar

Days are counted from the first of January of the year 0.  `civil` turns a day
into its date and `dayOf` a date into its day; the dates that `civil` gives are
valid and lead back to the day (`dayOf_civil`).  Dates come in the order of their
days, first by year, then by month, then by day (`earlier_civil`).

The year of a day is a quotient, corrected for the leap years before it; nothing here
counts day by day.  `yearOf_spec` and `monthOf_spec` say that the quotients find the
year and the month that the day is in, and the round trip and the order of dates follow
from them.

* `valid_civil`, `dayOf_civil` — every day has a date, and the date leads back to it;
* `earlier_civil` — the earlier day has the earlier date.
-/

namespace Komika.Lib.Calendar

/-- A date by its numbers; `Date.Valid` says that there is such a day. -/
structure Date where
  year : Nat
  month : Nat
  day : Nat
deriving DecidableEq, Repr

/-- The leap years of the Gregorian calendar. -/
def leap (year : Nat) : Bool :=
  year % 4 = 0 && (year % 100 ≠ 0 || year % 400 = 0)

/-- The days before the first of January. -/
def yearStart (year : Nat) : Nat :=
  365 * year + (year + 3) / 4 - (year + 99) / 100 + (year + 399) / 400

/-- The days of the year before the first of the month; the thirteenth month is the
next January. -/
def monthStart (leap : Bool) (month : Nat) : Nat :=
  let days := [0, 0, 31, 59, 90, 120, 151, 181, 212, 243, 273, 304, 334, 365].getD month 0
  if leap && 2 < month then days + 1 else days

/-- A year has 365 days, or 366. -/
theorem yearStart_succ (year : Nat) :
    yearStart (year + 1) = yearStart year + if leap year then 366 else 365 := by
  -- a multiple of four, of a hundred and of four hundred is counted in the year after
  have hfour : (year + 1 + 3) / 4 = (year + 3) / 4 + if year % 4 = 0 then 1 else 0 := by
    split <;> omega
  have hcentury : (year + 1 + 99) / 100 =
      (year + 99) / 100 + if year % 100 = 0 then 1 else 0 := by
    split <;> omega
  have hera : (year + 1 + 399) / 400 =
      (year + 399) / 400 + if year % 400 = 0 then 1 else 0 := by
    split <;> omega
  have hcenturies : (year + 99) / 100 ≤ 365 * year + (year + 3) / 4 := by omega
  have hmultiple : year % 400 = 0 → year % 100 = 0 := by omega
  have hmultiple' : year % 100 = 0 → year % 4 = 0 := by omega
  unfold yearStart leap
  rw [hfour, hcentury, hera]
  generalize (year + 3) / 4 = fours at *
  generalize (year + 99) / 100 = centuries at *
  generalize (year + 399) / 400 = eras at *
  by_cases h4 : year % 4 = 0
  · by_cases h100 : year % 100 = 0
    · by_cases h400 : year % 400 = 0
      · simp [h4, h100, h400]
        omega
      · simp [h4, h100, h400]
        omega
    · have h400 : year % 400 ≠ 0 := mt hmultiple h100
      simp [h4, h100, h400]
      omega
  · have h100 : year % 100 ≠ 0 := mt hmultiple' h4
    have h400 : year % 400 ≠ 0 := mt hmultiple h100
    simp [h4, h100, h400]
    omega

theorem yearStart_mono {y y' : Nat} (h : y ≤ y') : yearStart y ≤ yearStart y' := by
  induction h with
  | refl => exact le_rfl
  | step _ ih =>
      rw [yearStart_succ]
      omega

/-! ## From a day to its date -/

/-- The year of a day: a year has 365.2425 days on the average, and no year starts
more than one and a half days off. -/
def yearOf (n : Nat) : Nat :=
  let guess := 400 * n / 146097
  if yearStart (guess + 1) ≤ n then guess + 1
  else if yearStart guess ≤ n then guess
  else guess - 1

/-- The month of a day of the year. -/
def monthOf (leap : Bool) (r : Nat) : Nat :=
  ((List.range 13).filter fun m => 1 ≤ m && monthStart leap m ≤ r).length

/-- The date of a day. -/
def civil (n : Nat) : Date :=
  let year := yearOf n
  let r := n - yearStart year
  let month := monthOf (leap year) r
  ⟨year, month, r - monthStart (leap year) month + 1⟩

/-- The days of a month of that year. -/
def daysInMonth (year month : Nat) : Nat :=
  monthStart (leap year) (month + 1) - monthStart (leap year) month

/-- There is such a day. -/
def Date.Valid (d : Date) : Prop :=
  1 ≤ d.month ∧ d.month ≤ 12 ∧ 1 ≤ d.day ∧ d.day ≤ daysInMonth d.year d.month

instance (d : Date) : Decidable d.Valid := inferInstanceAs (Decidable (_ ∧ _))

/-- The day of a date. -/
def dayOf (d : Date) : Nat :=
  yearStart d.year + monthStart (leap d.year) d.month + (d.day - 1)

/-- Four hundred years are 146097 days. -/
theorem yearStart_near (year : Nat) :
    400 * yearStart year ≤ 146097 * year + 699 ∧
      146097 * year ≤ 400 * yearStart year + 396 := by
  have hfour : 4 * ((year + 3) / 4) ≤ year + 3 ∧ year ≤ 4 * ((year + 3) / 4) := by omega
  have hcentury : 100 * ((year + 99) / 100) ≤ year + 99 ∧
      year ≤ 100 * ((year + 99) / 100) := by omega
  have hera : 400 * ((year + 399) / 400) ≤ year + 399 ∧
      year ≤ 400 * ((year + 399) / 400) := by omega
  unfold yearStart
  generalize (year + 3) / 4 = fours at *
  generalize (year + 99) / 100 = centuries at *
  generalize (year + 399) / 400 = eras at *
  omega

/-- The quotient finds the year that the day is in. -/
theorem yearOf_spec (n : Nat) :
    yearStart (yearOf n) ≤ n ∧ n < yearStart (yearOf n + 1) := by
  have hguess : 146097 * (400 * n / 146097) ≤ 400 * n ∧
      400 * n < 146097 * (400 * n / 146097) + 146097 := by omega
  have hlow : yearStart (400 * n / 146097 - 1) ≤ n := by
    have hnear := (yearStart_near (400 * n / 146097 - 1)).1
    by_cases hzero : 400 * n / 146097 = 0
    · rw [hzero]
      exact Nat.zero_le n
    · omega
  have hhigh : n < yearStart (400 * n / 146097 + 2) := by
    have hnear := (yearStart_near (400 * n / 146097 + 2)).2
    omega
  unfold yearOf
  dsimp only
  split
  · next hafter => exact ⟨hafter, hhigh⟩
  · next hnot =>
      split
      · next hat => exact ⟨hat, by omega⟩
      · next hbefore =>
          refine ⟨hlow, ?_⟩
          have hpos : 400 * n / 146097 - 1 + 1 = 400 * n / 146097 := by
            by_contra hzero
            have hguess : 400 * n / 146097 = 0 := by omega
            rw [hguess] at hbefore
            exact hbefore (Nat.zero_le n)
          rw [hpos]
          omega

/-- The month found is the one that the day of the year is in. -/
theorem monthOf_spec (b : Bool) {r : Nat} (h : r < if b then 366 else 365) :
    1 ≤ monthOf b r ∧ monthOf b r ≤ 12 ∧ monthStart b (monthOf b r) ≤ r ∧
      r < monthStart b (monthOf b r + 1) := by
  have hall : ∀ b : Bool, ∀ r < (if b then 366 else 365), 1 ≤ monthOf b r ∧
      monthOf b r ≤ 12 ∧ monthStart b (monthOf b r) ≤ r ∧
        r < monthStart b (monthOf b r + 1) := by
    decide +kernel
  exact hall b r h

theorem monthStart_mono (b : Bool) {m m' : Nat} (h : m ≤ m') (hm' : m' ≤ 13) :
    monthStart b m ≤ monthStart b m' := by
  have hall : ∀ b : Bool, ∀ m' < 14, ∀ m ≤ m', monthStart b m ≤ monthStart b m' := by
    decide
  exact hall b m' (by omega) m h

/-- The day of the year of a day. -/
theorem dayOfYear_lt (n : Nat) :
    n - yearStart (yearOf n) < if leap (yearOf n) then 366 else 365 := by
  obtain ⟨hstart, hend⟩ := yearOf_spec n
  rw [yearStart_succ] at hend
  omega

/-- The date of a day is a valid one. -/
theorem valid_civil (n : Nat) : (civil n).Valid := by
  obtain ⟨hmonth, htwelve, hstart, hend⟩ := monthOf_spec _ (dayOfYear_lt n)
  refine ⟨hmonth, htwelve, Nat.le_add_left _ _, ?_⟩
  unfold daysInMonth civil
  dsimp only
  omega

/-- A date leads back to its day. -/
theorem dayOf_civil (n : Nat) : dayOf (civil n) = n := by
  obtain ⟨-, -, hstart, -⟩ := monthOf_spec _ (dayOfYear_lt n)
  have hyear := (yearOf_spec n).1
  unfold dayOf civil
  dsimp only
  omega

/-! ## The order of dates

Days are counted, dates compared number by number; the two orders are one. -/

/-- First by year, then by month, then by day. -/
def Earlier (d d' : Date) : Prop :=
  d.year < d'.year ∨ d.year = d'.year ∧
    (d.month < d'.month ∨ d.month = d'.month ∧ d.day < d'.day)

theorem yearOf_mono {n n' : Nat} (h : n ≤ n') : yearOf n ≤ yearOf n' := by
  by_contra hlt
  have hstart := (yearOf_spec n).1
  have hend := (yearOf_spec n').2
  have hmono : yearStart (yearOf n' + 1) ≤ yearStart (yearOf n) := yearStart_mono (by omega)
  omega

theorem yearOf_lt {n y : Nat} (h : n < yearStart y) : yearOf n < y := by
  by_contra hle
  have hstart := (yearOf_spec n).1
  have hmono := yearStart_mono (Nat.le_of_not_lt hle)
  omega

/-- The earlier day has the earlier date. -/
theorem earlier_civil {n n' : Nat} (h : n < n') : Earlier (civil n) (civil n') := by
  rcases Nat.lt_or_eq_of_le (yearOf_mono h.le) with hyear | hyear
  · exact Or.inl hyear
  · obtain ⟨-, -, hstart, hend⟩ := monthOf_spec _ (dayOfYear_lt n)
    obtain ⟨-, htwelve', hstart', hend'⟩ := monthOf_spec _ (dayOfYear_lt n')
    have hfirst := (yearOf_spec n).1
    unfold Earlier civil
    dsimp only
    rw [← hyear] at hstart' hend' htwelve' ⊢
    right
    refine ⟨rfl, ?_⟩
    by_cases hmonth : monthOf (leap (yearOf n)) (n - yearStart (yearOf n)) <
        monthOf (leap (yearOf n)) (n' - yearStart (yearOf n))
    · exact Or.inl hmonth
    · -- a later month would begin after the later day
      have hsame : monthOf (leap (yearOf n)) (n - yearStart (yearOf n)) =
          monthOf (leap (yearOf n)) (n' - yearStart (yearOf n)) := by
        by_contra hne
        have hlater : monthOf (leap (yearOf n)) (n' - yearStart (yearOf n)) + 1 ≤
            monthOf (leap (yearOf n)) (n - yearStart (yearOf n)) := by omega
        have htwelve := (monthOf_spec _ (dayOfYear_lt n)).2.1
        have hmono := monthStart_mono (leap (yearOf n)) hlater (by omega)
        omega
      refine Or.inr ⟨hsame, ?_⟩
      rw [← hsame] at hstart' ⊢
      omega

end Komika.Lib.Calendar
