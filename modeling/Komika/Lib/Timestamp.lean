import Komika.Lib.Calendar
import Mathlib.Data.String.Basic
import Mathlib.Tactic.Ring

/-!
# RFC 3339 timestamps

Instants are nanoseconds since 1970.  `toRfc3339` writes one in UTC the way that
drops the digits of the second's fraction three by three while they are zero,
`strftime` to the whole second and without an offset.  `parseRfc3339` reads a
timestamp with any offset.

Up to the year 9999 what is written is read back (`parse_toRfc3339`), and the
texts come in the order of the instants (`toRfc3339_lt_iff`), although they differ
in length: where one fraction ends the offset begins, and `+` sorts before every
digit and before the point.  `strftime` with the offset put behind it is the
timestamp of the second (`strftime_eq`).

A text is a row of fields of fixed width, so it is compared field by field; only the
fraction has a width that varies, and `fraction_lt` is the lemma that its length does
not matter.

* `toRfc3339_lt_iff`, `toRfc3339_le_iff` — the order of the texts;
* `parse_toRfc3339` — the round trip;
* `ascii_toRfc3339` — the texts are ASCII, so a comparison by bytes is the same.
-/

namespace Komika.Lib.Timestamp

open Komika.Lib.Calendar

/-! ## Numbers of a fixed width

Digits with leading zeros: they are read back, and they come in the order of the
numbers. -/

/-- The character of a digit. -/
def digit (d : Nat) : Char := Char.ofNat (48 + d)

/-- The last `w` digits of `n`. -/
def pad : Nat → Nat → List Char
  | 0, _ => []
  | w + 1, n => digit (n / 10 ^ w % 10) :: pad w n

/-- The value of a row of digits. -/
def value (cs : List Char) : Nat := cs.foldl (fun acc c => acc * 10 + (c.toNat - 48)) 0

@[simp] theorem length_pad (w n : Nat) : (pad w n).length = w := by
  induction w with
  | zero => rfl
  | succ w ih => rw [pad, List.length_cons, ih]

/-- It is a digit, it is read back, and it sorts after the plus sign. -/
theorem digit_spec {d : Nat} (h : d < 10) :
    (digit d).isDigit = true ∧ (digit d).toNat - 48 = d ∧ '+' < digit d := by
  have hall : ∀ d < 10, (digit d).isDigit = true ∧ (digit d).toNat - 48 = d ∧
      '+' < digit d := by
    decide
  exact hall d h

theorem digit_lt {d e : Nat} (h : d < e) (he : e < 10) : digit d < digit e := by
  have hall : ∀ e < 10, ∀ d < e, digit d < digit e := by decide
  exact hall e he d h

/-- A padded number is all digits. -/
theorem all_isDigit_pad (w n : Nat) : (pad w n).all Char.isDigit = true := by
  induction w with
  | zero => rfl
  | succ w ih =>
      rw [pad, List.all_cons, ih, Bool.and_true]
      exact (digit_spec (Nat.mod_lt _ (by omega))).1

/-- It is read back, up to the digits that were cut off. -/
theorem value_pad (w n : Nat) : value (pad w n) = n % 10 ^ w := by
  have hfold : ∀ acc, (pad w n).foldl (fun acc c => acc * 10 + (c.toNat - 48)) acc =
      acc * 10 ^ w + n % 10 ^ w := by
    induction w with
    | zero => simp [pad, Nat.mod_one]
    | succ w ih =>
        intro acc
        rw [pad, List.foldl_cons, ih, (digit_spec (Nat.mod_lt _ (by omega))).2.1,
          Nat.mod_pow_succ]
        ring
  rw [value, hfold, Nat.zero_mul, Nat.zero_add]

/-- The first digits and the last ones. -/
theorem pad_add (v w n : Nat) : pad (v + w) n = pad v (n / 10 ^ w) ++ pad w n := by
  induction v with
  | zero => rw [Nat.zero_add, pad, List.nil_append]
  | succ v ih =>
      rw [Nat.succ_add, pad, pad, ih, List.cons_append, Nat.div_div_eq_div_mul, ← Nat.pow_add,
        Nat.add_comm w v]

theorem cons_lt {c : Char} {x y : List Char} (h : x < y) : c :: x < c :: y :=
  List.cons_lt_cons_iff.mpr (Or.inr ⟨rfl, h⟩)

theorem append_lt (xs : List Char) {x y : List Char} (h : x < y) : xs ++ x < xs ++ y := by
  induction xs with
  | nil => exact h
  | cons c xs ih => exact cons_lt ih

/-- Numbers of one width come in their order, whatever follows them. -/
theorem pad_append_lt {w a b : Nat} {x y : List Char} (hb : b < 10 ^ w)
    (h : a < b ∨ a = b ∧ x < y) : pad w a ++ x < pad w b ++ y := by
  have hless : ∀ w a b : Nat, a % 10 ^ w < b % 10 ^ w → pad w a ++ x < pad w b ++ y := by
    intro w
    induction w with
    | zero =>
        intro a b hab
        rw [Nat.pow_zero, Nat.mod_one, Nat.mod_one] at hab
        contradiction
    | succ w ih =>
        intro a b hab
        rw [Nat.mod_pow_succ, Nat.mod_pow_succ] at hab
        have ha := Nat.mod_lt a (Nat.pow_pos (n := w) (by omega : 0 < 10))
        have hb := Nat.mod_lt b (Nat.pow_pos (n := w) (by omega : 0 < 10))
        have hdigit := Nat.mod_lt (b / 10 ^ w) (by omega : 0 < 10)
        rw [pad, pad, List.cons_append, List.cons_append, List.cons_lt_cons_iff]
        rcases Nat.lt_trichotomy (a / 10 ^ w % 10) (b / 10 ^ w % 10) with hlt | heq | hgt
        · exact Or.inl (digit_lt hlt hdigit)
        · rw [heq] at hab ⊢
          exact Or.inr ⟨rfl, ih a b (by omega)⟩
        · have hmul : 10 ^ w * (b / 10 ^ w % 10 + 1) ≤ 10 ^ w * (a / 10 ^ w % 10) :=
            Nat.mul_le_mul_left _ hgt
          rw [Nat.mul_add, Nat.mul_one] at hmul
          omega
  rcases h with hab | ⟨rfl, hxy⟩
  · refine hless w a b ?_
    rw [Nat.mod_eq_of_lt (hab.trans hb), Nat.mod_eq_of_lt hb]
    exact hab
  · exact append_lt _ hxy

/-- Decimal fractions come in their order even if one is shorter, when a plus sign
ends them. -/
theorem fraction_lt {v w a b : Nat} {x y : List Char} (hb : b < 10 ^ w)
    (h : a * 10 ^ w < b * 10 ^ v) : pad v a ++ '+' :: x < pad w b ++ '+' :: y := by
  rcases Nat.le_total v w with hle | hle
  · obtain ⟨k, rfl⟩ := Nat.exists_eq_add_of_le hle
    have hpos : 0 < 10 ^ v := Nat.pow_pos (by omega)
    have hless : a * 10 ^ k < b := by
      rw [Nat.pow_add, Nat.mul_comm (10 ^ v), ← Nat.mul_assoc] at h
      exact Nat.lt_of_mul_lt_mul_right h
    have hdiv : a ≤ b / 10 ^ k := (Nat.le_div_iff_mul_le (Nat.pow_pos (by omega))).mpr hless.le
    have hbound : b / 10 ^ k < 10 ^ v := by
      rw [Nat.div_lt_iff_lt_mul (Nat.pow_pos (by omega)), ← Nat.pow_add]
      exact hb
    rw [pad_add, List.append_assoc]
    refine pad_append_lt hbound ?_
    rcases Nat.lt_or_eq_of_le hdiv with hlt | heq
    · exact Or.inl hlt
    · right
      refine ⟨heq, ?_⟩
      cases k with
      | zero => rw [Nat.pow_zero, Nat.div_one] at heq; omega
      | succ k =>
          rw [pad, List.cons_append, List.cons_lt_cons_iff]
          exact Or.inl (digit_spec (Nat.mod_lt _ (by omega))).2.2
  · obtain ⟨k, rfl⟩ := Nat.exists_eq_add_of_le hle
    have hless : a < b * 10 ^ k := by
      rw [Nat.pow_add, Nat.mul_comm (10 ^ w), ← Nat.mul_assoc] at h
      exact Nat.lt_of_mul_lt_mul_right h
    rw [pad_add, List.append_assoc]
    exact pad_append_lt hb (Or.inl ((Nat.div_lt_iff_lt_mul (Nat.pow_pos (by omega))).mpr hless))

/-! ## What is written

The formats of the two writers, put together from dates and times of day. -/

/-- Nanoseconds in a second. -/
def nsPerSecond : Nat := 1000000000

/-- Nanoseconds in a day without leap seconds. -/
def nsPerDay : Nat := 86400 * nsPerSecond

/-- The first of January 1970. -/
def epochDay : Nat := 719528

/-- The first of January 10000, from which on a year has five digits. -/
def endOfYears : Nat := (3652425 - epochDay) * nsPerDay

/-- A date, with a sign in front of a year of five digits. -/
def dateText (d : Date) : List Char :=
  (if d.year ≤ 9999 then pad 4 d.year else '+' :: (toString d.year).toList) ++
    '-' :: pad 2 d.month ++ '-' :: pad 2 d.day

/-- The time of day, given in seconds. -/
def clockText (s : Nat) : List Char :=
  pad 2 (s / 3600) ++ ':' :: pad 2 (s / 60 % 60) ++ ':' :: pad 2 (s % 60)

/-- The fraction of a second with the digits that it needs, in threes. -/
def fractionText (ns : Nat) : List Char :=
  if ns = 0 then []
  else if ns % 1000000 = 0 then '.' :: pad 3 (ns / 1000000)
  else if ns % 1000 = 0 then '.' :: pad 6 (ns / 1000)
  else '.' :: pad 9 ns

/-- The offset that `to_rfc3339` writes for UTC. -/
def utc : List Char := ['+', '0', '0', ':', '0', '0']

/-- The date of an instant. -/
def dateOf (t : Nat) : Date := civil (epochDay + t / nsPerDay)

/-- Date and time of day, to the second. -/
def dateTimeText (t : Nat) : List Char :=
  dateText (dateOf t) ++ 'T' :: clockText (t % nsPerDay / nsPerSecond)

/-- `DateTime::to_rfc3339` of an instant in UTC. -/
def toRfc3339 (t : Nat) : String :=
  String.ofList (dateTimeText t ++ fractionText (t % nsPerSecond) ++ utc)

/-- `strftime('%Y-%m-%dT%H:%M:%S', …)`, `NULL` after the year 9999. -/
def strftime (t : Nat) : Option String :=
  if (dateOf t).year ≤ 9999 then some (String.ofList (dateTimeText t)) else none

/-- Before the year 10000 the year has four digits. -/
theorem year_dateOf {t : Nat} (h : t < endOfYears) : (dateOf t).year ≤ 9999 := by
  have hday : epochDay + t / nsPerDay < yearStart 10000 := by
    have hdiv : t / nsPerDay < 3652425 - epochDay :=
      (Nat.div_lt_iff_lt_mul (by decide)).mpr h
    have hstart : yearStart 10000 = 3652425 := by decide
    rw [hstart]
    unfold epochDay at *
    omega
  exact Nat.le_of_lt_succ (yearOf_lt hday)

/-- `strftime` with the offset behind it is the timestamp of the whole second. -/
theorem strftime_eq {t : Nat} (h : t < endOfYears) :
    (strftime t).map (· ++ "+00:00") = some (toRfc3339 (t / nsPerSecond * nsPerSecond)) := by
  have hday : t / nsPerSecond * nsPerSecond / nsPerDay = t / nsPerDay := by
    unfold nsPerDay nsPerSecond
    omega
  have hsecond : t / nsPerSecond * nsPerSecond % nsPerDay / nsPerSecond =
      t % nsPerDay / nsPerSecond := by
    unfold nsPerDay nsPerSecond
    omega
  have hwhole : t / nsPerSecond * nsPerSecond % nsPerSecond = 0 := Nat.mul_mod_left _ _
  rw [strftime, if_pos (year_dateOf h), Option.map_some, Option.some.injEq, toRfc3339,
    ← String.toList_inj]
  simp [dateTimeText, dateOf, hday, hsecond, hwhole, fractionText, utc]

/-! ## The order of the texts

Field by field from the left: the date, the time of day, the fraction. -/

/-- Months and days have two digits. -/
theorem month_day_lt {d : Date} (h : d.Valid) : d.month < 100 ∧ d.day < 100 := by
  obtain ⟨-, hmonth, -, hday⟩ := h
  have hshort : ∀ b : Bool, ∀ m ≤ 12, monthStart b (m + 1) - monthStart b m < 100 := by decide
  have hlen := hshort (leap d.year) d.month hmonth
  unfold daysInMonth at hday
  omega

/-- The fields of a date with what follows it. -/
theorem dateText_append {d : Date} (h : d.year ≤ 9999) (x : List Char) :
    dateText d ++ x =
      pad 4 d.year ++ ('-' :: (pad 2 d.month ++ ('-' :: (pad 2 d.day ++ x)))) := by
  simp [dateText, if_pos h]

/-- The fields of a time of day with what follows it. -/
theorem clockText_append (s : Nat) (x : List Char) :
    clockText s ++ x =
      pad 2 (s / 3600) ++ (':' :: (pad 2 (s / 60 % 60) ++ (':' :: (pad 2 (s % 60) ++ x)))) := by
  simp [clockText]

/-- The earlier date has the smaller text, and of one date what follows decides. -/
theorem dateText_lt {d d' : Date} {x y : List Char} (hyear : d.year ≤ 9999)
    (hyear' : d'.year ≤ 9999) (hvalid : d'.Valid) (h : Earlier d d' ∨ d = d' ∧ x < y) :
    dateText d ++ x < dateText d' ++ y := by
  obtain ⟨hmonth, hday⟩ := month_day_lt hvalid
  rw [dateText_append hyear, dateText_append hyear']
  rcases h with (hlt | ⟨heq, hlt | ⟨heq', hlt⟩⟩) | ⟨rfl, hxy⟩
  · exact pad_append_lt (by omega) (Or.inl hlt)
  · refine pad_append_lt (by omega) (Or.inr ⟨heq, cons_lt ?_⟩)
    exact pad_append_lt hmonth (Or.inl hlt)
  · refine pad_append_lt (by omega) (Or.inr ⟨heq, cons_lt ?_⟩)
    refine pad_append_lt hmonth (Or.inr ⟨heq', cons_lt ?_⟩)
    exact pad_append_lt hday (Or.inl hlt)
  · exact append_lt _ (cons_lt (append_lt _ (cons_lt (append_lt _ hxy))))

/-- The same for the time of day. -/
theorem clockText_lt {s s' : Nat} {x y : List Char} (hs' : s' < 86400)
    (h : s < s' ∨ s = s' ∧ x < y) : clockText s ++ x < clockText s' ++ y := by
  rw [clockText_append, clockText_append]
  rcases h with hlt | ⟨rfl, hxy⟩
  · by_cases hhour : s / 3600 < s' / 3600
    · exact pad_append_lt (by omega) (Or.inl hhour)
    · refine pad_append_lt (by omega) (Or.inr ⟨by omega, cons_lt ?_⟩)
      by_cases hminute : s / 60 % 60 < s' / 60 % 60
      · exact pad_append_lt (by omega) (Or.inl hminute)
      · refine pad_append_lt (by omega) (Or.inr ⟨by omega, cons_lt ?_⟩)
        exact pad_append_lt (by omega) (Or.inl (by omega))
  · exact append_lt _ (cons_lt (append_lt _ (cons_lt (append_lt _ hxy))))

/-- A fraction that is not zero has `w` digits, and no others but zeros. -/
theorem fractionText_eq {ns : Nat} (h : ns ≠ 0) (hns : ns < nsPerSecond) :
    ∃ w m, 0 < w ∧ w ≤ 9 ∧ m < 10 ^ w ∧ m * 10 ^ (9 - w) = ns ∧
      fractionText ns = '.' :: pad w m := by
  unfold nsPerSecond at hns
  unfold fractionText
  rw [if_neg h]
  split
  · exact ⟨3, ns / 1000000, by omega, by omega, by omega, by omega, rfl⟩
  · split
    · exact ⟨6, ns / 1000, by omega, by omega, by omega, by omega, rfl⟩
    · exact ⟨9, ns, by omega, by omega, by omega, by omega, rfl⟩

/-- The smaller fraction has the smaller text, although it may be the longer one. -/
theorem fractionText_lt {a b : Nat} (h : a < b) (hb : b < nsPerSecond) :
    fractionText a ++ utc < fractionText b ++ utc := by
  obtain ⟨w, m, -, hw, hm, hvalue, htext⟩ := fractionText_eq (by omega : b ≠ 0) hb
  rw [htext]
  by_cases hzero : a = 0
  · have hpoint : '+' < '.' := by decide
    rw [hzero]
    exact List.cons_lt_cons_iff.mpr (Or.inl hpoint)
  · obtain ⟨v, k, -, hv, -, hvalue', htext'⟩ := fractionText_eq hzero (h.trans hb)
    rw [htext']
    refine cons_lt (fraction_lt hm ?_)
    -- both numerators over the denominator that nine digits have
    have hscaled : k * 10 ^ w * 10 ^ 9 < m * 10 ^ v * 10 ^ 9 := by
      calc k * 10 ^ w * 10 ^ 9 = k * 10 ^ (9 - v) * (10 ^ v * 10 ^ w) := by
            rw [show 10 ^ 9 = 10 ^ (9 - v) * 10 ^ v by rw [← Nat.pow_add]; congr 1; omega]
            ring
        _ < m * 10 ^ (9 - w) * (10 ^ v * 10 ^ w) := by
            rw [hvalue', hvalue]
            exact Nat.mul_lt_mul_of_pos_right h
              (Nat.mul_pos (Nat.pow_pos (by omega)) (Nat.pow_pos (by omega)))
        _ = m * 10 ^ v * 10 ^ 9 := by
            rw [show 10 ^ 9 = 10 ^ (9 - w) * 10 ^ w by rw [← Nat.pow_add]; congr 1; omega]
            ring
    exact Nat.lt_of_mul_lt_mul_right hscaled

/-- The earlier instant has the smaller text. -/
theorem toRfc3339_lt {t u : Nat} (h : t < u) (hu : u < endOfYears) :
    toRfc3339 t < toRfc3339 u := by
  rw [String.lt_iff_toList_lt, toRfc3339, toRfc3339, String.toList_ofList, String.toList_ofList]
  simp only [dateTimeText, List.append_assoc, List.cons_append]
  refine dateText_lt (year_dateOf (h.trans hu)) (year_dateOf hu) (valid_civil _) ?_
  rcases Nat.lt_or_eq_of_le (Nat.div_le_div_right h.le : t / nsPerDay ≤ u / nsPerDay) with
    hday | hday
  · exact Or.inl (earlier_civil (by omega))
  · right
    refine ⟨by rw [dateOf, dateOf, hday], cons_lt (clockText_lt ?_ ?_)⟩
    · unfold nsPerDay nsPerSecond
      omega
    · by_cases hsecond : t % nsPerDay / nsPerSecond < u % nsPerDay / nsPerSecond
      · exact Or.inl hsecond
      · have hsame : t / nsPerSecond = u / nsPerSecond := by
          unfold nsPerDay nsPerSecond at *
          omega
        right
        constructor
        · unfold nsPerDay nsPerSecond at *
          omega
        · refine fractionText_lt ?_ (Nat.mod_lt _ (by decide))
          unfold nsPerSecond at *
          omega

/-- The texts come in the order of the instants. -/
theorem toRfc3339_lt_iff {t u : Nat} (ht : t < endOfYears) (hu : u < endOfYears) :
    toRfc3339 t < toRfc3339 u ↔ t < u := by
  constructor
  · intro htext
    rcases Nat.lt_trichotomy t u with h | rfl | h
    · exact h
    · exact absurd htext (lt_irrefl _)
    · exact absurd (htext.trans (toRfc3339_lt h ht)) (lt_irrefl _)
  · exact fun h => toRfc3339_lt h hu

theorem toRfc3339_le_iff {t u : Nat} (ht : t < endOfYears) (hu : u < endOfYears) :
    toRfc3339 t ≤ toRfc3339 u ↔ t ≤ u := by
  rw [← not_lt, toRfc3339_lt_iff hu ht, not_lt]

theorem ascii_pad {w n : Nat} {c : Char} (hc : c ∈ pad w n) : c.toNat < 128 := by
  have hdigit : c.isDigit = true := List.all_eq_true.mp (all_isDigit_pad w n) c hc
  have hnine : c.toNat ≤ '9'.toNat := (Char.isDigit_iff_toNat.mp hdigit).2
  exact hnine.trans_lt (by decide)

/-- A timestamp is written in ASCII. -/
theorem ascii_toRfc3339 {t : Nat} (h : t < endOfYears) :
    ∀ c ∈ (toRfc3339 t).toList, c.toNat < 128 := by
  have hdate : ∀ c ∈ dateText (dateOf t), c.toNat < 128 := by
    intro c hc
    rw [dateText, if_pos (year_dateOf h)] at hc
    simp only [List.mem_append, List.mem_cons] at hc
    rcases hc with (hy | rfl | hm) | rfl | hd
    · exact ascii_pad hy
    · decide
    · exact ascii_pad hm
    · decide
    · exact ascii_pad hd
  have hclock : ∀ c ∈ clockText (t % nsPerDay / nsPerSecond), c.toNat < 128 := by
    intro c hc
    simp only [clockText, List.mem_append, List.mem_cons] at hc
    rcases hc with (hh | rfl | hm) | rfl | hs
    · exact ascii_pad hh
    · decide
    · exact ascii_pad hm
    · decide
    · exact ascii_pad hs
  have hfraction : ∀ c ∈ fractionText (t % nsPerSecond), c.toNat < 128 := by
    intro c hc
    unfold fractionText at hc
    split at hc
    · exact absurd hc List.not_mem_nil
    all_goals
      repeat' split at hc
      all_goals
        rcases List.mem_cons.mp hc with rfl | hpad
        · decide
        · exact ascii_pad hpad
  have hutc : utc.all (fun c => c.toNat < 128) = true := by decide
  intro c hc
  rw [toRfc3339, String.toList_ofList] at hc
  simp only [dateTimeText, List.mem_append, List.mem_cons] at hc
  rcases hc with ((hd | rfl | hk) | hf) | hu
  · exact hdate c hd
  · decide
  · exact hclock c hk
  · exact hfraction c hf
  · exact of_decide_eq_true (List.all_eq_true.mp hutc c hu)

/-! ## What is read

A reader that takes a field from the front and hands on the rest; every check of the
format is a field that it refuses. -/

/-- A number of `w` digits, and what is behind it. -/
def readDigits (w : Nat) (cs : List Char) : Option (Nat × List Char) :=
  if (cs.take w).length = w ∧ (cs.take w).all Char.isDigit then
    some (value (cs.take w), cs.drop w)
  else none

/-- One of these characters, and what is behind it. -/
def expect (marks : List Char) : List Char → Option (List Char)
  | [] => none
  | c :: cs => if c ∈ marks then some cs else none

/-- The fraction of a second, of which nine digits count. -/
def readFraction : List Char → Option (Nat × List Char)
  | '.' :: cs =>
      let digits := cs.takeWhile Char.isDigit
      let nine := digits.take 9
      if digits = [] then none
      else some (value nine * 10 ^ (9 - nine.length), cs.drop digits.length)
  | cs => some (0, cs)

/-- The offset in seconds, with which the text ends. -/
def readOffset : List Char → Option Int
  | ['Z'] | ['z'] => some 0
  | sign :: cs => do
      let (hours, cs) ← readDigits 2 cs
      let cs ← expect [':'] cs
      let (minutes, cs) ← readDigits 2 cs
      if cs = [] ∧ hours ≤ 23 ∧ minutes ≤ 59 then
        let seconds : Int := (hours * 3600 + minutes * 60 : Nat)
        if sign = '+' then some seconds
        else if sign = '-' ∨ sign = '\u2212' then some (-seconds)
        else none
      else none
  | [] => none

/-- A date of ten characters that is a valid one. -/
def readDate (cs : List Char) : Option (Date × List Char) := do
  let (year, cs) ← readDigits 4 cs
  let cs ← expect ['-'] cs
  let (month, cs) ← readDigits 2 cs
  let cs ← expect ['-'] cs
  let (day, cs) ← readDigits 2 cs
  if Date.Valid ⟨year, month, day⟩ then some (⟨year, month, day⟩, cs) else none

/-- The time of day in seconds; a minute can have a leap second. -/
def readClock (cs : List Char) : Option (Nat × List Char) := do
  let (hour, cs) ← readDigits 2 cs
  let cs ← expect [':'] cs
  let (minute, cs) ← readDigits 2 cs
  let cs ← expect [':'] cs
  let (second, cs) ← readDigits 2 cs
  if hour ≤ 23 ∧ minute ≤ 59 ∧ second ≤ 60 then
    some (hour * 3600 + minute * 60 + second, cs)
  else none

/-- `DateTime::parse_from_rfc3339`, as an instant. -/
def parseRfc3339 (text : String) : Option Int := do
  let (date, cs) ← readDate text.toList
  let cs ← expect ['T', 't', ' '] cs
  let (seconds, cs) ← readClock cs
  let (ns, cs) ← readFraction cs
  let offset ← readOffset cs
  some (((dayOf date : Int) - epochDay) * nsPerDay + seconds * nsPerSecond + ns -
    offset * nsPerSecond)

/-- A padded number is read back. -/
theorem readDigits_pad {w n : Nat} (h : n < 10 ^ w) (rest : List Char) :
    readDigits w (pad w n ++ rest) = some (n, rest) := by
  have htake : (pad w n ++ rest).take w = pad w n := List.take_left' (length_pad w n)
  have hdrop : (pad w n ++ rest).drop w = rest := List.drop_left' (length_pad w n)
  rw [readDigits, htake, hdrop, if_pos ⟨length_pad w n, all_isDigit_pad w n⟩, value_pad,
    Nat.mod_eq_of_lt h]

theorem expect_cons {marks : List Char} {c : Char} (h : c ∈ marks) (cs : List Char) :
    expect marks (c :: cs) = some cs := if_pos h

theorem readFraction_text {ns : Nat} (h : ns < nsPerSecond) :
    readFraction (fractionText ns ++ utc) = some (ns, utc) := by
  by_cases hzero : ns = 0
  · rw [hzero]
    rfl
  · obtain ⟨w, m, hpos, hw, hm, hvalue, htext⟩ := fractionText_eq hzero h
    have hdigits : (pad w m ++ utc).takeWhile Char.isDigit = pad w m := by
      have hall : ∀ c ∈ pad w m, c.isDigit = true := List.all_eq_true.mp (all_isDigit_pad w m)
      rw [List.takeWhile_append_of_pos hall, utc]
      simp
    have hne : pad w m ≠ [] := by
      intro hnil
      have hlen := congrArg List.length hnil
      rw [length_pad, List.length_nil] at hlen
      omega
    rw [htext, List.cons_append, readFraction]
    simp only [hdigits, if_neg hne]
    rw [List.take_of_length_le (by rw [length_pad]; exact hw), length_pad, value_pad,
      Nat.mod_eq_of_lt hm, hvalue, List.drop_left' (length_pad w m)]

theorem readDate_text {d : Date} (hyear : d.year ≤ 9999) (hvalid : d.Valid)
    (rest : List Char) : readDate (dateText d ++ rest) = some (d, rest) := by
  have hmonth : d.month < 10 ^ 2 := (month_day_lt hvalid).1
  have hday : d.day < 10 ^ 2 := (month_day_lt hvalid).2
  rw [readDate, dateText_append hyear]
  simp only [readDigits_pad (by omega : d.year < 10 ^ 4), readDigits_pad hmonth,
    readDigits_pad hday, expect_cons (by decide : '-' ∈ ['-']), Option.bind_eq_bind,
    Option.bind_some]
  exact if_pos hvalid

theorem readClock_text {s : Nat} (h : s < 86400) (rest : List Char) :
    readClock (clockText s ++ rest) = some (s, rest) := by
  have hsum : s / 3600 * 3600 + s / 60 % 60 * 60 + s % 60 = s := by omega
  rw [readClock, clockText_append]
  simp only [readDigits_pad (by omega : s / 3600 < 10 ^ 2),
    readDigits_pad (by omega : s / 60 % 60 < 10 ^ 2),
    readDigits_pad (by omega : s % 60 < 10 ^ 2), expect_cons (by decide : ':' ∈ [':']),
    Option.bind_eq_bind, Option.bind_some]
  rw [if_pos ⟨by omega, by omega, by omega⟩, hsum]

/-- What is written is read back. -/
theorem parse_toRfc3339 {t : Nat} (h : t < endOfYears) :
    parseRfc3339 (toRfc3339 t) = some (t : Int) := by
  have hsecond : t % nsPerDay / nsPerSecond < 86400 := by
    unfold nsPerDay nsPerSecond
    omega
  have htext : (toRfc3339 t).toList = dateText (dateOf t) ++
      ('T' :: (clockText (t % nsPerDay / nsPerSecond) ++
        (fractionText (t % nsPerSecond) ++ utc))) := by
    rw [toRfc3339, String.toList_ofList, dateTimeText]
    simp only [List.append_assoc, List.cons_append]
  have hdate : dayOf (dateOf t) = epochDay + t / nsPerDay := dayOf_civil _
  have hoffset : readOffset utc = some 0 := by decide
  have hinstant : t / nsPerDay * nsPerDay + t % nsPerDay / nsPerSecond * nsPerSecond +
      t % nsPerSecond = t := by
    unfold nsPerDay nsPerSecond
    omega
  rw [parseRfc3339, htext, readDate_text (year_dateOf h) (valid_civil _)]
  simp only [readClock_text hsecond, readFraction_text (Nat.mod_lt t (by decide : 0 < nsPerSecond)),
    hoffset, expect_cons (by decide : 'T' ∈ ['T', 't', ' ']), Option.bind_eq_bind,
    Option.bind_some, hdate, Option.some.injEq]
  have hcast := congrArg (Nat.cast (R := Int)) hinstant
  push_cast at hcast ⊢
  linarith

end Komika.Lib.Timestamp
