import Mathlib.Data.List.DropRight
import Mathlib.Data.List.TakeWhile
import Mathlib.Algebra.Order.Field.Rat
import Mathlib.Tactic.FieldSimp
import Mathlib.Tactic.Positivity

/-!
# Decimal notation

Numbers in decimal notation, read exactly, and the notation with a fixed number of decimals,
with its trailing zeros trimmed or not.

* `magnitude_plain` — what a plain decimal is read as;
* `trim_eq` — what trimming zeros and then the point leaves;
* `magnitude_trimmed` — a trimmed fixed notation is read as the number it was written for.

A number is read as a rational, so that reading, trimming and writing can be compared
without rounding; where a program rounds, it does so once, in a step of its own.
`plain` is the notation that is read back, `trimmed` the shortest form of the one with a
fixed number of decimals.
-/

namespace Komika.Lib.Decimal

/-- The number `whole.frac`, exactly. -/
def value (whole frac : List Char) : ℚ :=
  Nat.ofDigitChars 10 (whole ++ frac) 0 / 10 ^ frac.length

/-- `whole.frac`, without the point where there are no decimals. -/
def plain (whole frac : List Char) : List Char :=
  if frac = [] then whole else whole ++ '.' :: frac

/-! ## Reading

A sign, digits with a point among them or not, and an exponent or not, read from the
left. -/

/-- The sign in front of a number: whether it is a minus, and the rest. -/
def sign : List Char → Bool × List Char
  | '-' :: cs => (true, cs)
  | '+' :: cs => (false, cs)
  | cs => (false, cs)

/-- The exponent after the digits; there may be none. -/
def exponent : List Char → Option ℤ
  | [] => some 0
  | c :: cs =>
    let digits := (sign cs).2
    if (c = 'e' ∨ c = 'E') ∧ digits ≠ [] ∧ digits.all Char.isDigit = true then
      let e : ℤ := Nat.ofDigitChars 10 digits 0
      some (if (sign cs).1 = true then -e else e)
    else none

/-- The digits after the point, and the rest. -/
def fraction : List Char → List Char × List Char
  | '.' :: cs => (cs.takeWhile Char.isDigit, cs.dropWhile Char.isDigit)
  | cs => ([], cs)

/-- A number without a sign: digits with a point among them or not, and an exponent or not. -/
def magnitude (cs : List Char) : Option ℚ :=
  let whole := cs.takeWhile Char.isDigit
  let frac := (fraction (cs.dropWhile Char.isDigit)).1
  let rest := (fraction (cs.dropWhile Char.isDigit)).2
  if whole = [] ∧ frac = [] then none
  else (exponent rest).map fun e => value whole frac * 10 ^ e

variable {whole frac : List Char}

/-- A plain decimal is read as the number it stands for. -/
theorem magnitude_plain (hne : whole ≠ []) (hw : ∀ c ∈ whole, c.isDigit = true)
    (hf : ∀ c ∈ frac, c.isDigit = true) :
    magnitude (plain whole frac) = some (value whole frac) := by
  have htake : (plain whole frac).takeWhile Char.isDigit = whole := by
    rw [plain]
    split
    · exact List.takeWhile_eq_self_iff.mpr hw
    · rw [List.takeWhile_append_of_pos hw, List.takeWhile_cons_of_neg (by decide),
        List.append_nil]
  have hfrac : fraction ((plain whole frac).dropWhile Char.isDigit) = (frac, []) := by
    rw [plain]
    split
    case isTrue hnil =>
      rw [List.dropWhile_eq_nil_iff.mpr hw, hnil]
      rfl
    case isFalse =>
      rw [List.dropWhile_append_of_pos hw, List.dropWhile_cons_of_neg (by decide), fraction,
        List.takeWhile_eq_self_iff.mpr hf, List.dropWhile_eq_nil_iff.mpr hf]
  have hsome : ¬(whole = [] ∧ frac = []) := fun h => hne h.1
  rw [magnitude, htake, hfrac, if_neg hsome, exponent, Option.map_some, zpow_zero, mul_one]

/-- A text that begins with a digit has no sign. -/
theorem sign_of_digit {c : Char} {cs : List Char} (hc : c.isDigit = true) :
    sign (c :: cs) = (false, c :: cs) := by
  have hminus : c ≠ '-' := by
    rintro rfl
    cases hc
  have hplus : c ≠ '+' := by
    rintro rfl
    cases hc
  rw [sign]
  · intro _ h
    exact hminus (List.cons.inj h).1
  · intro _ h
    exact hplus (List.cons.inj h).1

/-! ## Trimming zeros

`trim_end_matches('0').trim_end_matches('.')`, on a text with a point in it. -/

/-- Trimming stops at the last letter that is not trimmed. -/
theorem rdropWhile_append_cons {α : Type*} {p : α → Bool} (l r : List α) {x : α}
    (hx : p x = false) : (l ++ x :: r).rdropWhile p = l ++ x :: r.rdropWhile p := by
  induction r using List.reverseRecOn with
  | nil =>
    rw [List.rdropWhile_concat_neg _ _ _ (by rw [hx]; decide), List.rdropWhile_nil]
  | append_singleton r y ih =>
    rw [← List.cons_append, ← List.append_assoc, List.rdropWhile_concat]
    rw [List.rdropWhile_concat]
    split
    · exact ih
    · rw [List.append_assoc, List.cons_append]

/-- What is trimmed are copies of `c`. -/
theorem exists_rdropWhile_append (c : Char) (cs : List Char) :
    ∃ k, cs.rdropWhile (· == c) ++ List.replicate k c = cs := by
  refine ⟨(cs.rtakeWhile (· == c)).length, ?_⟩
  have hall : cs.rtakeWhile (· == c) = List.replicate (cs.rtakeWhile (· == c)).length c := by
    apply List.eq_replicate_of_mem
    intro d hd
    have hdc : (d == c) = true :=
      List.mem_rtakeWhile_imp (p := (· == c)) hd
    exact eq_of_beq hdc
  rw [← hall, List.rdropWhile_append_rtakeWhile]

/-- Zeros behind the decimals do not count. -/
theorem value_append_zeros (k : ℕ) :
    value whole (frac ++ List.replicate k '0') = value whole frac := by
  rw [value, value, ← List.append_assoc, Nat.ofDigitChars_append,
    Nat.ofDigitChars_replicate_zero, List.length_append, List.length_replicate, pow_add]
  push_cast
  field_simp

/-- Trimming zeros and then the point: the decimals lose their zeros, and the point goes with
the last of them. -/
theorem trim_eq (hw : ∀ c ∈ whole, c.isDigit = true)
    (hf : ∀ c ∈ frac, c.isDigit = true) :
    ((whole ++ '.' :: frac).rdropWhile (· == '0')).rdropWhile (· == '.') =
      plain whole (frac.rdropWhile (· == '0')) := by
  rw [rdropWhile_append_cons whole frac (by decide), plain]
  have hnot : ∀ {c : Char}, c.isDigit = true → ¬((c == '.') = true) := by
    intro c hc h
    rw [eq_of_beq h] at hc
    cases hc
  split
  case isTrue hnil =>
    rw [hnil, List.rdropWhile_concat_pos _ _ _ (by decide)]
    exact List.rdropWhile_eq_self_iff.mpr fun hl => hnot (hw _ (List.getLast_mem hl))
  case isFalse hsome =>
    apply List.rdropWhile_eq_self_iff.mpr
    intro hl
    rw [List.getLast_append_of_ne_nil _ (List.cons_ne_nil _ _), List.getLast_cons hsome]
    exact hnot (hf _ ((List.rdropWhile_prefix _ _).subset (List.getLast_mem hsome)))

/-- Trimmed, the text is read as the same number. -/
theorem magnitude_trim (hne : whole ≠ []) (hw : ∀ c ∈ whole, c.isDigit = true)
    (hf : ∀ c ∈ frac, c.isDigit = true) :
    magnitude (((whole ++ '.' :: frac).rdropWhile (· == '0')).rdropWhile (· == '.')) =
      some (value whole frac) := by
  obtain ⟨k, hk⟩ := exists_rdropWhile_append '0' frac
  have hf' : ∀ c ∈ frac.rdropWhile (· == '0'), c.isDigit = true :=
    fun c hc => hf c ((List.rdropWhile_prefix _ _).subset hc)
  rw [trim_eq hw hf, magnitude_plain hne hw hf', ← value_append_zeros k, hk]

/-! ## A fixed number of decimals

The digits of `n / 10 ^ k`, with all `k` decimals and with those that are needed. -/

/-- The digits of `n` before the last `k`. -/
def wholeDigits (k n : ℕ) : List Char := Nat.toDigits 10 (n / 10 ^ k)

/-- The last `k` digits of `n`, with leading zeros. -/
def fracDigits (k n : ℕ) : List Char := (Nat.toDigits 10 (n % 10 ^ k)).leftpad k '0'

/-- `n / 10 ^ k` with `k` decimals. -/
def fixed (k n : ℕ) : List Char := wholeDigits k n ++ '.' :: fracDigits k n

theorem isDigit_toDigits {n : ℕ} : ∀ c ∈ Nat.toDigits 10 n, c.isDigit = true :=
  fun _ hc => Nat.isDigit_of_mem_toDigits (by decide) (by decide) hc

theorem isDigit_fracDigits {k n : ℕ} : ∀ c ∈ fracDigits k n, c.isDigit = true := by
  intro c hc
  rw [fracDigits, List.leftpad, List.mem_append] at hc
  rcases hc with hpad | hdig
  · rw [List.eq_of_mem_replicate hpad]
    rfl
  · exact isDigit_toDigits c hdig

/-- The digits before and after the point together are the number. -/
theorem value_fixed {k : ℕ} (hk : 0 < k) (n : ℕ) :
    value (wholeDigits k n) (fracDigits k n) = n / 10 ^ k := by
  have hlen : (fracDigits k n).length = k := by
    have hle : (Nat.toDigits 10 (n % 10 ^ k)).length ≤ k :=
      (Nat.length_toDigits_le_iff (by decide) hk).mpr (Nat.mod_lt _ (by positivity))
    rw [fracDigits, List.length_leftpad]
    exact max_eq_left hle
  have hfrac : ∀ init, Nat.ofDigitChars 10 (fracDigits k n) init =
      10 ^ k * init + n % 10 ^ k := by
    intro init
    rw [Nat.ofDigitChars_eq_ofDigitChars_zero, hlen, fracDigits, List.leftpad,
      Nat.ofDigitChars_append, Nat.ofDigitChars_replicate_zero, mul_zero,
      Nat.ofDigitChars_ten_toDigits]
  rw [value, hlen, Nat.ofDigitChars_append, wholeDigits, Nat.ofDigitChars_ten_toDigits, hfrac,
    Nat.div_add_mod]

/-- The trimmed notation: without zeros at the end, and without a point there. -/
def trimmed (k n : ℕ) : List Char := ((fixed k n).rdropWhile (· == '0')).rdropWhile (· == '.')

theorem trimmed_eq (k n : ℕ) :
    trimmed k n = plain (wholeDigits k n) ((fracDigits k n).rdropWhile (· == '0')) :=
  trim_eq isDigit_toDigits isDigit_fracDigits

/-- It is read as the number it was written for. -/
theorem magnitude_trimmed {k : ℕ} (hk : 0 < k) (n : ℕ) :
    magnitude (trimmed k n) = some ((n : ℚ) / 10 ^ k) := by
  rw [← value_fixed hk]
  exact magnitude_trim Nat.toDigits_ne_nil isDigit_toDigits isDigit_fracDigits

/-- A trimmed notation tells the number it was written for. -/
theorem trimmed_injective {k : ℕ} (hk : 0 < k) : Function.Injective (trimmed k) := by
  intro m n h
  have hread := (magnitude_trimmed hk m).symm.trans ((congrArg magnitude h).trans
    (magnitude_trimmed hk n))
  have hq : (m : ℚ) / 10 ^ k = n / 10 ^ k := Option.some.inj hread
  have hpow : (10 : ℚ) ^ k ≠ 0 := by positivity
  exact_mod_cast (div_left_inj' hpow).mp hq

/-- A whole number has no decimals left. -/
theorem trimmed_mul_pow (k n : ℕ) : trimmed k (n * 10 ^ k) = Nat.toDigits 10 n := by
  have hpow : 0 < 10 ^ k := by positivity
  have hfrac : (fracDigits k (n * 10 ^ k)).rdropWhile (· == '0') = [] := by
    rw [fracDigits, Nat.mul_mod_left, List.rdropWhile_eq_nil_iff]
    intro c hc
    rw [List.leftpad, List.mem_append, Nat.toDigits_zero, List.mem_singleton] at hc
    rcases hc with hpad | rfl
    · rw [List.eq_of_mem_replicate hpad]
      rfl
    · rfl
  rw [trimmed_eq, hfrac, plain, if_pos rfl, wholeDigits, Nat.mul_div_cancel _ hpow]

/-- The decimals that are left of two. -/
theorem trimmed_two (n : ℕ) : trimmed 2 n =
    if n % 100 = 0 then Nat.toDigits 10 (n / 100)
    else if n % 10 = 0 then Nat.toDigits 10 (n / 100) ++ '.' :: Nat.toDigits 10 (n / 10 % 10)
    else Nat.toDigits 10 (n / 100) ++ '.' ::
      (Nat.toDigits 10 (n / 10 % 10) ++ Nat.toDigits 10 (n % 10)) := by
  have hall : ∀ r < 100, ((Nat.toDigits 10 r).leftpad 2 '0').rdropWhile (· == '0') =
      if r = 0 then []
      else if r % 10 = 0 then Nat.toDigits 10 (r / 10)
      else Nat.toDigits 10 (r / 10) ++ Nat.toDigits 10 (r % 10) := by
    decide
  have hfrac := hall (n % 10 ^ 2) (Nat.mod_lt _ (by decide))
  have htens : n % 10 ^ 2 / 10 = n / 10 % 10 := by omega
  have hones : n % 10 ^ 2 % 10 = n % 10 := by omega
  rw [htens, hones] at hfrac
  have hsq : 10 ^ 2 = 100 := rfl
  rw [trimmed_eq, fracDigits, hfrac, plain, wholeDigits, hsq]
  by_cases h100 : n % 100 = 0
  · rw [if_pos h100, if_pos h100, if_pos rfl]
  · rw [if_neg h100, if_neg h100]
    by_cases h10 : n % 10 = 0
    · rw [if_pos h10, if_pos h10, if_neg Nat.toDigits_ne_nil]
    · rw [if_neg h10, if_neg h10,
        if_neg (fun h => Nat.toDigits_ne_nil (List.append_eq_nil_iff.mp h).1)]

end Komika.Lib.Decimal
