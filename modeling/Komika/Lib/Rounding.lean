import Mathlib.Algebra.Order.Round
import Mathlib.Data.Rat.Floor
import Mathlib.Tactic.Linarith
import Mathlib.Tactic.Positivity

/-!
# Two tie rules

Rounding to the nearest integer, with ties to the even one and with ties away from zero.  They
differ at the half-way points above an even integer, and nowhere else.

* `roundHalfEven_of_abs_lt`, `roundHalfAway_of_abs_lt` — away from a tie there is one answer;
* `roundHalfAway_eq_roundHalfEven_iff` — where the rules agree.

Both are functions to the integers over an ordered field with a floor.  The last section
gives them for fractions of natural numbers, where they are divisions, which is how they
are computed.
-/

namespace Komika.Lib.Rounding

variable {α : Type*} [Field α] [LinearOrder α] [IsStrictOrderedRing α] [FloorRing α]

/-- To the nearest integer, ties away from zero. -/
def roundHalfAway (x : α) : ℤ := if 0 ≤ x then ⌊x + 1 / 2⌋ else -⌊-x + 1 / 2⌋

/-- To the nearest integer, ties to the even one. -/
def roundHalfEven (x : α) : ℤ :=
  if Int.fract x < 1 / 2 ∨ (Int.fract x = 1 / 2 ∧ Even ⌊x⌋) then ⌊x⌋ else ⌊x⌋ + 1

/-- `x` lies half-way between an even integer and the next one. -/
def HalfAboveEven (x : α) : Prop := ∃ j : ℤ, x = 2 * j + 1 / 2

variable {x : α} {z : ℤ}

/-- Of a number that is not negative: the floor, or one more from the half on. -/
theorem roundHalfAway_of_nonneg (hx : 0 ≤ x) :
    roundHalfAway x = if Int.fract x < 1 / 2 then ⌊x⌋ else ⌊x⌋ + 1 := by
  have hsplit : (⌊x⌋ : α) + Int.fract x = x := Int.floor_add_fract x
  have hnonneg := Int.fract_nonneg x
  have hlt := Int.fract_lt_one x
  rw [roundHalfAway, if_pos hx]
  split
  case isTrue h => exact Int.floor_eq_iff.mpr ⟨by linarith, by linarith⟩
  case isFalse h =>
    apply Int.floor_eq_iff.mpr
    push_cast
    constructor <;> linarith

/-- Away from a tie both rules give the nearest integer. -/
theorem roundHalfEven_of_abs_lt (h : |x - z| < 1 / 2) : roundHalfEven x = z := by
  obtain ⟨hlo, hhi⟩ := abs_lt.mp h
  by_cases hz : (z : α) ≤ x
  · have hfloor : ⌊x⌋ = z := Int.floor_eq_iff.mpr ⟨hz, by linarith⟩
    have hfract : Int.fract x < 1 / 2 := by
      rw [← Int.self_sub_floor, hfloor]
      exact hhi
    rw [roundHalfEven, if_pos (Or.inl hfract), hfloor]
  · have hfloor : ⌊x⌋ = z - 1 := by
      apply Int.floor_eq_iff.mpr
      push_cast
      constructor <;> linarith
    have hfract : 1 / 2 < Int.fract x := by
      rw [← Int.self_sub_floor, hfloor]
      push_cast
      linarith
    have hno : ¬(Int.fract x < 1 / 2 ∨ (Int.fract x = 1 / 2 ∧ Even ⌊x⌋)) := by
      rintro (hlt | ⟨heq, -⟩)
      · exact absurd hlt hfract.not_gt
      · exact absurd heq hfract.ne'
    rw [roundHalfEven, if_neg hno, hfloor, sub_add_cancel]

theorem roundHalfAway_of_abs_lt (hx : 0 ≤ x) (h : |x - z| < 1 / 2) : roundHalfAway x = z := by
  obtain ⟨hlo, hhi⟩ := abs_lt.mp h
  rw [roundHalfAway, if_pos hx]
  exact Int.floor_eq_iff.mpr ⟨by linarith, by linarith⟩

@[simp] theorem roundHalfEven_intCast (z : ℤ) : roundHalfEven (z : α) = z :=
  roundHalfEven_of_abs_lt (by simp)

/-- A whole number is its own rounding. -/
theorem roundHalfAway_natCast (n : ℕ) : roundHalfAway (n : α) = n :=
  roundHalfAway_of_abs_lt n.cast_nonneg (by simp)

/-- Rounding does not leave a range with whole ends. -/
theorem roundHalfAway_le {n : ℕ} (hx : 0 ≤ x) (hn : x ≤ n) :
    0 ≤ roundHalfAway x ∧ roundHalfAway x ≤ n := by
  rw [roundHalfAway, if_pos hx]
  have hlt : ⌊x + 1 / 2⌋ < (n : ℤ) + 1 := by
    apply Int.floor_lt.mpr
    push_cast
    linarith
  exact ⟨Int.floor_nonneg.mpr (by linarith), by omega⟩

theorem roundHalfEven_le {n : ℕ} (hx : 0 ≤ x) (hn : x ≤ n) :
    0 ≤ roundHalfEven x ∧ roundHalfEven x ≤ n := by
  have hfloor : 0 ≤ ⌊x⌋ := Int.floor_nonneg.mpr hx
  have hle : ⌊x⌋ ≤ n := by exact_mod_cast (Int.floor_le x).trans hn
  rw [roundHalfEven]
  split
  case isTrue => exact ⟨hfloor, hle⟩
  case isFalse h =>
    refine ⟨by omega, ?_⟩
    by_contra hgt
    -- then `x` is `n` itself, and there is nothing to round
    have hfn : ⌊x⌋ = n := by omega
    have hlow : (n : α) ≤ x := by
      have := Int.floor_le x
      rw [hfn] at this
      exact_mod_cast this
    have hxn : x = n := le_antisymm hn hlow
    have hfract : Int.fract x = 0 := by rw [hxn, Int.fract_natCast]
    exact h (Or.inl (by rw [hfract]; norm_num))

/-- Half-way above an even integer, by the fractional part and the floor. -/
theorem halfAboveEven_iff : HalfAboveEven x ↔ Int.fract x = 1 / 2 ∧ Even ⌊x⌋ := by
  have hsplit : (⌊x⌋ : α) + Int.fract x = x := Int.floor_add_fract x
  constructor
  · rintro ⟨j, hj⟩
    have hfloor : ⌊x⌋ = 2 * j := by
      apply Int.floor_eq_iff.mpr
      push_cast
      constructor <;> linarith
    refine ⟨?_, j, by omega⟩
    rw [hfloor] at hsplit
    push_cast at hsplit
    linarith
  · rintro ⟨hfract, j, hj⟩
    refine ⟨j, ?_⟩
    rw [hj] at hsplit
    push_cast at hsplit
    linarith

/-- Where the two rules agree. -/
theorem roundHalfAway_eq_roundHalfEven_iff (hx : 0 ≤ x) :
    roundHalfAway x = roundHalfEven x ↔ ¬HalfAboveEven x := by
  rw [roundHalfAway_of_nonneg hx, roundHalfEven, halfAboveEven_iff]
  by_cases hlt : Int.fract x < 1 / 2
  · rw [if_pos hlt, if_pos (Or.inl hlt)]
    exact ⟨fun _ h => hlt.ne h.1, fun _ => rfl⟩
  · rw [if_neg hlt]
    by_cases htie : Int.fract x = 1 / 2 ∧ Even ⌊x⌋
    · rw [if_pos (Or.inr htie)]
      exact ⟨fun h => by omega, fun h => absurd htie h⟩
    · rw [if_neg (by rintro (h | h) <;> contradiction)]
      exact ⟨fun _ => htie, fun _ => rfl⟩

/-! ## Fractions

The floor and the fractional part of `u / d` are its quotient and its rest. -/

section Fractions

variable {d : ℕ}

theorem floor_natCast_div (u d : ℕ) : ⌊(u : ℚ) / d⌋ = ((u / d : ℕ) : ℤ) :=
  Rat.floor_natCast_div_natCast u d

/-- The fractional part of `u / d` is what the division leaves. -/
theorem fract_natCast_div (u : ℕ) (hd : 0 < d) : Int.fract ((u : ℚ) / d) = (u % d : ℕ) / d := by
  have hpos : (0 : ℚ) < d := by exact_mod_cast hd
  have hdiv : (u : ℚ) = d * (u / d : ℕ) + (u % d : ℕ) := by
    exact_mod_cast (Nat.div_add_mod u d).symm
  rw [← Int.self_sub_floor, floor_natCast_div, Int.cast_natCast, sub_eq_iff_eq_add,
    div_eq_iff hpos.ne', add_mul, div_mul_cancel₀ _ hpos.ne']
  linarith

/-- Of a fraction with an even denominator: half of it is added before the division. -/
theorem roundHalfAway_div (u : ℕ) (hd : 0 < d) (htwo : 2 ∣ d) :
    roundHalfAway ((u : ℚ) / d) = ((u + d / 2) / d : ℕ) := by
  have hpos : (0 : ℚ) < d := by exact_mod_cast hd
  have hsum : (u : ℚ) / d + 1 / 2 = ((u + d / 2 : ℕ) : ℚ) / d := by
    obtain ⟨h, rfl⟩ := htwo
    have hhalf : (2 * h) / 2 = h := by omega
    have hne : (h : ℚ) ≠ 0 := by
      have hh : h ≠ 0 := by omega
      exact_mod_cast hh
    rw [hhalf]
    push_cast
    field_simp
  rw [roundHalfAway, if_pos (by positivity), hsum, floor_natCast_div]

/-- Of a fraction: twice the rest against the denominator, and the quotient where they
are equal. -/
theorem roundHalfEven_div (u : ℕ) (hd : 0 < d) :
    roundHalfEven ((u : ℚ) / d) =
      if 2 * (u % d) < d ∨ (2 * (u % d) = d ∧ u / d % 2 = 0) then ((u / d : ℕ) : ℤ)
      else (u / d + 1 : ℕ) := by
  have hpos : (0 : ℚ) < d := by exact_mod_cast hd
  have hlt : ((u % d : ℕ) : ℚ) / d < 1 / 2 ↔ 2 * (u % d) < d := by
    rw [div_lt_div_iff₀ hpos two_pos, one_mul, mul_comm]
    exact_mod_cast Iff.rfl
  have heq : ((u % d : ℕ) : ℚ) / d = 1 / 2 ↔ 2 * (u % d) = d := by
    rw [div_eq_div_iff hpos.ne' two_ne_zero, one_mul, mul_comm]
    exact_mod_cast Iff.rfl
  have heven : Even ((u / d : ℕ) : ℤ) ↔ u / d % 2 = 0 := by
    rw [Int.even_coe_nat, Nat.even_iff]
  rw [roundHalfEven, fract_natCast_div u hd, floor_natCast_div]
  simp only [hlt, heq, heven]
  rfl

end Fractions

end Komika.Lib.Rounding
