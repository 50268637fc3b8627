import Mathlib.Algebra.Order.Ring.Int
import Mathlib.Data.Prod.Lex

/-!
# Binary64 numbers

A finite number is a sign and a magnitude, counted in the smallest subnormal,
`2 ^ -1074`.  Every finite number is a whole number of these units, so
comparing is comparing integers, and rounding a product is rounding a natural
number to 53 significant bits.

* `partialCmp`, `partialCmp_finite` — the order, undefined on `nan`, in which
  the two zeros are equal;
* `spot`, `partialCmp_of_spot` — the place on the line, as a linear order, in
  which `partialCmp` compares;
* `eqv`, `eqv_iff` — its equality, which is that of the place on the line;
* `roundUnits`, `roundUnits_spec` — rounding to 53 bits, and what it finds;
* `roundQuotient`, `roundQuotient_mul` — rounding a quotient of natural numbers,
  which extends it, and `ofQuotient`, the number that is nearest to a quotient;
* `timesNat`, `round`, `floor`, `toI64` — product with a small natural number,
  to nearest even; rounding to an integer, ties away from zero, and down; and
  the saturating cast.

The format is finite where the units are not: a magnitude is a number of this model
whether it has 53 significant bits or not, and `roundUnits` is what brings the result of
an operation back to those that have.  The comparisons need no rounding, so their laws
hold of every magnitude.
-/

namespace Komika.Lib

/-- A binary64 number: not a number, one of the two infinities, or a sign and a count of
units. -/
inductive Binary64 where
  | nan
  | infinity (negative : Bool)
  | finite (negative : Bool) (units : Nat)
deriving DecidableEq, Repr

namespace Binary64

/-- The units of `1.0`. -/
def one : Nat := 2 ^ 1074

/-- A small natural number, which needs no rounding. -/
def ofNat (n : Nat) : Binary64 := .finite false (n * one)

/-- The sign applied to a magnitude. -/
def signed (negative : Bool) (n : Nat) : Int := if negative then -n else n

/-- Neither infinite nor `nan`. -/
def isFinite : Binary64 → Bool
  | .finite _ _ => true
  | _ => false

/-! ## Order

The comparisons of the format are those of a linear order, on the numbers that have a
place in it. -/

/-- The place on the extended line: the infinities lie outside every unit. -/
def place : Binary64 → Option (Int × Int)
  | .nan => none
  | .infinity negative => some (signed negative 1, 0)
  | .finite negative units => some (0, signed negative units)

/-- `partial_cmp`: by place on the line; `nan` has none, and so compares with
nothing. -/
def partialCmp (a b : Binary64) : Option Ordering :=
  match a.place, b.place with
  | some x, some y => some ((compare x.1 y.1).then (compare x.2 y.2))
  | _, _ => none

/-- `a == b`: the two zeros are equal, and `nan` equals nothing. -/
def eqv (a b : Binary64) : Bool := a.partialCmp b = some .eq

/-- `a < b`, false where one of them is `nan`. -/
def lt (a b : Binary64) : Bool := a.partialCmp b = some .lt

/-- `a <= b`, false where one of them is `nan`. -/
def le (a b : Binary64) : Bool := (a.partialCmp b).any (· ≠ .gt)

/-- Finite numbers compare as their signed magnitudes. -/
theorem partialCmp_finite (s t : Bool) (m n : Nat) :
    partialCmp (.finite s m) (.finite t n) =
      some (compare (signed s m) (signed t n)) := rfl

theorem le_finite {s t : Bool} {m n : Nat} :
    le (.finite s m) (.finite t n) = true ↔ signed s m ≤ signed t n := by
  rw [le, partialCmp_finite, Option.any_some, decide_eq_true_eq, ne_eq,
    compare_gt_iff_gt, not_lt]

/-- Two numbers are equal if they have one place on the line. -/
theorem eqv_iff {a b : Binary64} : a.eqv b = true ↔ ∃ p, a.place = some p ∧ b.place = some p := by
  unfold eqv partialCmp
  rw [decide_eq_true_eq]
  cases a.place with
  | none => simp
  | some p =>
      cases b.place with
      | none => simp
      | some q =>
          simp only [Option.some.injEq, Ordering.then_eq_eq, compare_eq_iff_eq,
            exists_eq_left']
          constructor
          · rintro ⟨hfst, hsnd⟩
            exact (Prod.ext hfst hsnd).symm
          · rintro rfl
            exact ⟨rfl, rfl⟩

/-- The place, in the order of the line. -/
def spot (x : Binary64) : Option (Int ×ₗ Int) := x.place.map toLex

theorem spot_eq_none {x : Binary64} : x.spot = none ↔ x = .nan := by
  cases x <;> simp [spot, place]

/-- Numbers with a place compare as their places do. -/
theorem partialCmp_of_spot {a b : Binary64} {p q : Int ×ₗ Int} (ha : a.spot = some p)
    (hb : b.spot = some q) : a.partialCmp b = some (compare p q) := by
  obtain ⟨p, hp, rfl⟩ := Option.map_eq_some_iff.mp ha
  obtain ⟨q, hq, rfl⟩ := Option.map_eq_some_iff.mp hb
  rw [partialCmp, hp, hq, Prod.Lex.compare_def]
  rfl

/-- With `nan` on either side there is nothing to compare. -/
theorem partialCmp_of_none {a b : Binary64} (h : a.spot = none ∨ b.spot = none) :
    a.partialCmp b = none := by
  rw [spot_eq_none, spot_eq_none] at h
  rcases h with rfl | rfl
  · rfl
  · cases a <;> rfl

theorem lt_of_spot {a b : Binary64} {p q : Int ×ₗ Int} (ha : a.spot = some p)
    (hb : b.spot = some q) : a.lt b = true ↔ p < q := by
  rw [lt, partialCmp_of_spot ha hb, decide_eq_true_eq, Option.some.injEq,
    compare_lt_iff_lt]

theorem le_of_spot {a b : Binary64} {p q : Int ×ₗ Int} (ha : a.spot = some p)
    (hb : b.spot = some q) : a.le b = true ↔ p ≤ q := by
  rw [le, partialCmp_of_spot ha hb, Option.any_some, decide_eq_true_eq, ne_eq,
    compare_gt_iff_gt, not_lt]

/-- What is less than something has a place, and so has that. -/
theorem spot_of_lt {a b : Binary64} (h : a.lt b = true) :
    ∃ p q, a.spot = some p ∧ b.spot = some q ∧ p < q := by
  cases ha : a.spot with
  | none =>
      rw [lt, partialCmp_of_none (Or.inl ha)] at h
      contradiction
  | some p =>
      cases hb : b.spot with
      | none =>
          rw [lt, partialCmp_of_none (Or.inr hb)] at h
          contradiction
      | some q => exact ⟨p, q, rfl, rfl, (lt_of_spot ha hb).mp h⟩

/-! ## Arithmetic

Each operation is the exact one, rounded once.  `roundUnits` rounds a number of units,
`roundQuotient` a quotient of two such numbers. -/

/-- `n` to 53 significant bits, ties to even. -/
def roundUnits (n : Nat) : Nat :=
  let spare := Nat.log2 n - 52
  let quotient := n / 2 ^ spare
  let rest := n % 2 ^ spare
  if 2 * rest < 2 ^ spare ∨ (2 * rest = 2 ^ spare ∧ quotient % 2 = 0) then
    quotient * 2 ^ spare
  else (quotient + 1) * 2 ^ spare

/-- Rounding finds the nearest multiple of a power of two, one of 53 bits. -/
theorem roundUnits_spec {n : Nat} (h : 2 ^ 52 ≤ n) :
    ∃ s a, 2 ^ 52 * 2 ^ s ≤ n ∧ n < 2 ^ 53 * 2 ^ s ∧ roundUnits n = a * 2 ^ s ∧
      2 * n ≤ 2 * (a * 2 ^ s) + 2 ^ s ∧ 2 * (a * 2 ^ s) ≤ 2 * n + 2 ^ s := by
  have hn : n ≠ 0 := by
    rintro rfl
    contradiction
  have hlog : 52 ≤ n.log2 := (Nat.le_log2 hn).mpr h
  have hlow : 2 ^ 52 * 2 ^ (n.log2 - 52) ≤ n := by
    rw [← Nat.pow_add, Nat.add_sub_cancel' hlog]
    exact Nat.log2_self_le hn
  have hhigh : n < 2 ^ 53 * 2 ^ (n.log2 - 52) := by
    rw [← Nat.pow_add, show 53 + (n.log2 - 52) = n.log2 + 1 by omega]
    exact Nat.lt_log2_self
  have hsplit := Nat.div_add_mod' n (2 ^ (n.log2 - 52))
  have hrest := Nat.mod_lt n (Nat.two_pow_pos (n.log2 - 52))
  unfold roundUnits
  dsimp only
  split
  · next hround =>
      refine ⟨n.log2 - 52, n / 2 ^ (n.log2 - 52), hlow, hhigh, rfl, ?_, ?_⟩
      all_goals
        generalize 2 ^ (n.log2 - 52) = p at *
        generalize n / p * p = down at *
        omega
  · next hround =>
      refine ⟨n.log2 - 52, n / 2 ^ (n.log2 - 52) + 1, hlow, hhigh, rfl, ?_, ?_⟩
      all_goals
        rw [Nat.add_mul, Nat.one_mul]
        generalize 2 ^ (n.log2 - 52) = p at *
        generalize n / p * p = down at *
        omega

/-- A power of two shifts the leading bit. -/
theorem log2_mul_two_pow {n : Nat} (h : n ≠ 0) (k : Nat) : (n * 2 ^ k).log2 = n.log2 + k := by
  induction k with
  | zero => rw [Nat.pow_zero, Nat.mul_one, Nat.add_zero]
  | succ k ih =>
      have hpos : n * 2 ^ k ≠ 0 := Nat.mul_ne_zero h (Nat.two_pow_pos k).ne'
      rw [Nat.pow_succ, ← Nat.mul_assoc, Nat.mul_comm _ 2, Nat.log2_two_mul hpos, ih]
      omega

/-- Rounding is the same on every scale. -/
theorem roundUnits_mul_two_pow {n : Nat} (h : 2 ^ 52 ≤ n) (k : Nat) :
    roundUnits (n * 2 ^ k) = roundUnits n * 2 ^ k := by
  have hn : n ≠ 0 := by
    rintro rfl
    contradiction
  have hlog : 52 ≤ n.log2 := (Nat.le_log2 hn).mpr h
  have hspare : (n * 2 ^ k).log2 - 52 = (n.log2 - 52) + k := by
    rw [log2_mul_two_pow hn]
    omega
  have hpos : 0 < 2 ^ k := Nat.two_pow_pos k
  unfold roundUnits
  dsimp only
  rw [hspare, Nat.pow_add, Nat.mul_div_mul_right _ _ hpos, Nat.mul_mod_mul_right,
    ← Nat.mul_assoc]
  simp only [Nat.mul_lt_mul_right hpos, Nat.mul_left_inj hpos.ne']
  split <;> rw [Nat.mul_assoc]

/-- `n / d` units to 53 significant bits, ties to even.  Below `2 ^ 52` units the
bits run out, and the last one is the unit. -/
def roundQuotient (n d : Nat) : Nat :=
  let ulp := 2 ^ (Nat.log2 (n / d) - 52)
  let quotient := n / (d * ulp)
  let rest := n % (d * ulp)
  if 2 * rest < d * ulp ∨ (2 * rest = d * ulp ∧ quotient % 2 = 0) then quotient * ulp
  else (quotient + 1) * ulp

/-- A quotient that is a natural number is rounded as that number. -/
theorem roundQuotient_mul (n : Nat) {d : Nat} (hd : 0 < d) :
    roundQuotient (n * d) d = roundUnits n := by
  have hdiv : n * d / d = n := Nat.mul_div_cancel n hd
  unfold roundQuotient roundUnits
  dsimp only
  rw [hdiv]
  generalize 2 ^ (n.log2 - 52) = ulp
  have hquotient : n * d / (d * ulp) = n / ulp := by
    rw [Nat.mul_comm n d, Nat.mul_div_mul_left _ _ hd]
  have hrest : n * d % (d * ulp) = d * (n % ulp) := by
    rw [Nat.mul_comm n d, Nat.mul_mod_mul_left]
  have htwice : 2 * (d * (n % ulp)) = d * (2 * (n % ulp)) := Nat.mul_left_comm _ _ _
  rw [hquotient, hrest, htwice]
  simp only [Nat.mul_lt_mul_left hd, Nat.mul_right_inj hd.ne']

/-- The number nearest to `n / d`; what is too large for the format is infinite. -/
def ofQuotient (negative : Bool) (n d : Nat) : Binary64 :=
  let units := roundQuotient (n * one) d
  if 2 ^ 1024 * one ≤ units then .infinity negative else .finite negative units

/-- The product with a natural number that is itself a binary64 number. -/
def timesNat (x : Binary64) (k : Nat) : Binary64 :=
  match x with
  | .nan => .nan
  | .infinity negative => if k = 0 then .nan else .infinity negative
  | .finite negative units =>
      let product := roundUnits (units * k)
      if 2 ^ 1024 * one ≤ product then .infinity negative
      else .finite negative product

/-- The nearest integer to a magnitude, ties away from zero. -/
def nearest (units : Nat) : Nat := (units + one / 2) / one

/-- `round`: to the nearest whole number, ties away from zero. -/
def round : Binary64 → Binary64
  | .finite negative units => .finite negative (nearest units * one)
  | x => x

/-- `floor`: the greatest whole number that is not above. -/
def floor : Binary64 → Binary64
  | .finite false units => .finite false (units / one * one)
  | .finite true units => .finite true ((units + (one - 1)) / one * one)
  | x => x

/-- `as i64`: towards zero, cut off at the bounds, and 0 for `nan`. -/
def toI64 : Binary64 → Int
  | .nan => 0
  | .infinity negative => if negative then -2 ^ 63 else 2 ^ 63 - 1
  | .finite negative units =>
      max (-2 ^ 63) (min (2 ^ 63 - 1) (signed negative (units / one)))

end Binary64

end Komika.Lib
