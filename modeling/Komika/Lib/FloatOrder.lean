import Mathlib

/-!
# The order of `Float`

`Float` has a logical model: a bit pattern is unpacked, computed with exactly and
rounded.  This file says where a number lies on the line, and what the
operations do to numbers that are not negative.

* `le_iff`, `lt_iff`, `beq_iff` — the comparisons are those of the places, and
  `nan` has none;
* `nonneg_mul`, `nonneg_add` — products and sums of numbers that are not negative
  are numbers that are not negative;
* `le_mul_of_one_le`, `le_add_of_nonneg` — they are not rounded below a number
  that the exact result is not below.

The places are a linear order, lexicographic in the kind of the number, its exponent and
its mantissa, with the signs applied: unpacked numbers are normal, so a greater exponent
is a greater number.  A number is `Nonneg` if its place is not before the origin.

Every operation is an exact one on unpacked numbers, rounded and packed again by
`repack`.  The second section says what packing keeps, the third what rounding does to a
place, the fourth which unpacked numbers there are, and the last puts them together for
products and sums.
-/

namespace Komika.Lib.FloatOrder

open Float.Model Float.Model.UnpackedFloat

/-! ## The line

A number has a place unless it is `nan`, and the comparisons of `Float` look at nothing
else. -/

/-- A place: the kind of the number, its exponent and its mantissa. -/
abbrev Place := Int ×ₗ Int ×ₗ Int

/-- A place by its three coordinates. -/
def Place.at (kind exponent mantissa : Int) : Place :=
  toLex (kind, toLex (exponent, mantissa))

/-- The place of both zeros. -/
def origin : Place := Place.at 0 0 0

/-- The place of an unpacked number. -/
def place : UnpackedFloat → Option Place
  | .notANumber => none
  | .infinity .negative => some (Place.at (-2) 0 0)
  | .finite .negative m e _ => some (Place.at (-1) (-e) (-m))
  | .zero _ => some origin
  | .finite .positive m e _ => some (Place.at 1 e m)
  | .infinity .positive => some (Place.at 2 0 0)

/-- Places compare by kind, then by exponent, then by mantissa. -/
theorem compare_at (k e m k' e' m' : Int) :
    compare (Place.at k e m) (Place.at k' e' m') =
      (compare k k').then ((compare e e').then (compare m m')) := by
  rw [Prod.Lex.compare_def]
  rfl

theorem compare_neg_neg (a b : Int) : compare (-a) (-b) = (compare a b).swap := by
  rcases lt_trichotomy a b with hlt | rfl | hgt
  · rw [compare_lt_iff_lt.mpr hlt, compare_gt_iff_gt.mpr (neg_lt_neg hlt)]
    rfl
  · rw [compare_eq_iff_eq.mpr rfl, compare_eq_iff_eq.mpr rfl]
    rfl
  · rw [compare_gt_iff_gt.mpr hgt, compare_lt_iff_lt.mpr (neg_lt_neg hgt)]
    rfl

theorem compare_natCast (m n : Nat) : compare (m : Int) (n : Int) = compare m n := by
  rcases lt_trichotomy m n with hlt | rfl | hgt
  · rw [compare_lt_iff_lt.mpr hlt, compare_lt_iff_lt.mpr (Int.ofNat_lt.mpr hlt)]
  · rw [compare_eq_iff_eq.mpr rfl, compare_eq_iff_eq.mpr rfl]
  · rw [compare_gt_iff_gt.mpr hgt, compare_gt_iff_gt.mpr (Int.ofNat_lt.mpr hgt)]

/-- Numbers compare as their places do. -/
theorem compare_eq (x y : UnpackedFloat) :
    x.compare y = (place x).bind fun p => (place y).map (compare p) := by
  cases x with
  | notANumber => cases y <;> rfl
  | infinity s =>
      cases y with
      | infinity t => cases s <;> cases t <;> rfl
      | notANumber => cases s <;> rfl
      | zero t => cases s <;> rfl
      | finite t n f h => cases s <;> cases t <;> rfl
  | zero s =>
      cases y with
      | infinity t => cases t <;> rfl
      | notANumber => rfl
      | zero t => rfl
      | finite t n f h => cases t <;> rfl
  | finite s m e h =>
      cases y with
      | infinity t => cases s <;> cases t <;> rfl
      | notANumber => cases s <;> rfl
      | zero t => cases s <;> rfl
      | finite t n f h' =>
          cases s with
          | negative =>
              cases t with
              | positive => rfl
              | negative =>
                  show some ((compare e f).then (compare m n)).swap =
                    some (compare (Place.at (-1) (-e) (-m)) (Place.at (-1) (-f) (-n)))
                  rw [compare_at, compare_neg_neg e f, compare_neg_neg m n, compare_natCast,
                    Ordering.swap_then]
                  rfl
          | positive =>
              cases t with
              | negative => rfl
              | positive =>
                  show some ((compare e f).then (compare m n)) =
                    some (compare (Place.at 1 e m) (Place.at 1 f n))
                  rw [compare_at, compare_natCast]
                  rfl

/-- The place of a number; `nan` has none. -/
def spot (x : Float) : Option Place := place x.toModel.unpack

section Order

variable {x y z : Float} {p q : Place}

/-- `<=` is the order of the places, and false on `nan`. -/
theorem le_iff_spot : x ≤ y ↔ ∃ p q, spot x = some p ∧ spot y = some q ∧ p ≤ q := by
  show (decide ((x.toModel.unpack.compare y.toModel.unpack).any (·.isLE) = true)) = true ↔ _
  rw [decide_eq_true_eq, compare_eq, spot, spot]
  cases place x.toModel.unpack with
  | none => simp
  | some p =>
      cases place y.toModel.unpack with
      | none => simp
      | some q => simp [Ordering.isLE_iff_ne_gt, compare_gt_iff_gt]

theorem lt_iff_spot : x < y ↔ ∃ p q, spot x = some p ∧ spot y = some q ∧ p < q := by
  show (decide ((x.toModel.unpack.compare y.toModel.unpack == some .lt) = true)) = true ↔ _
  rw [decide_eq_true_eq, compare_eq, spot, spot]
  cases place x.toModel.unpack with
  | none => simp
  | some p =>
      cases place y.toModel.unpack with
      | none => simp
      | some q => simp [compare_lt_iff_lt]

/-- `==` is to have one place; the zeros are equal. -/
theorem beq_iff_spot : (x == y) = true ↔ ∃ p, spot x = some p ∧ spot y = some p := by
  show (x.toModel.unpack.compare y.toModel.unpack == some .eq) = true ↔ _
  rw [compare_eq, spot, spot]
  cases place x.toModel.unpack with
  | none => simp
  | some p =>
      cases place y.toModel.unpack with
      | none => simp
      | some q =>
          simp only [Option.bind_some, Option.map_some, beq_iff_eq, Option.some.injEq,
            compare_eq_iff_eq, exists_eq_left']
          exact eq_comm

theorem le_of_spot (hx : spot x = some p) (hy : spot y = some q) : x ≤ y ↔ p ≤ q := by
  rw [le_iff_spot]
  simp [hx, hy]

/-- `<=` is transitive although it is not reflexive. -/
theorem le_of_le_of_le (hxy : x ≤ y) (hyz : y ≤ z) : x ≤ z := by
  obtain ⟨p, q, hp, hq, hpq⟩ := le_iff_spot.mp hxy
  obtain ⟨q', r, hq', hr, hqr⟩ := le_iff_spot.mp hyz
  cases hq.symm.trans hq'
  exact le_iff_spot.mpr ⟨p, r, hp, hr, hpq.trans hqr⟩

/-- A number that is not negative; `-0.0` is one. -/
def Nonneg (x : Float) : Prop := ∃ p, spot x = some p ∧ origin ≤ p

/-- What is not below a number that is not negative is not negative. -/
theorem Nonneg.mono (hx : Nonneg x) (h : x ≤ y) : Nonneg y := by
  obtain ⟨p, hp, hpos⟩ := hx
  obtain ⟨p', q, hp', hq, hpq⟩ := le_iff_spot.mp h
  cases hp.symm.trans hp'
  exact ⟨q, hq, hpos.trans hpq⟩

/-- `max` keeps the first number if the second one is `nan`. -/
theorem max_eq_or (x y : Float) : (max x y = y ∧ x ≤ y) ∨ max x y = x := by
  show ((if x ≤ y then y else x) = y ∧ x ≤ y) ∨ (if x ≤ y then y else x) = x
  by_cases h : x ≤ y
  · exact Or.inl ⟨if_pos h, h⟩
  · exact Or.inr (if_neg h)

/-- The greater of two numbers is not negative if the first one is not. -/
theorem Nonneg.max (hx : Nonneg x) (y : Float) : Nonneg (max x y) := by
  rcases max_eq_or x y with ⟨heq, hle⟩ | heq
  · rw [heq]
    exact hx.mono hle
  · rwa [heq]

theorem le_refl_of_spot (hx : spot x = some p) : x ≤ x :=
  (le_of_spot hx hx).mpr le_rfl

theorem Nonneg.le_refl (hx : Nonneg x) : x ≤ x := by
  obtain ⟨p, hp, -⟩ := hx
  exact le_refl_of_spot hp

theorem Nonneg.le_max_left (hx : Nonneg x) (y : Float) : x ≤ Max.max x y := by
  rcases max_eq_or x y with ⟨heq, hle⟩ | heq
  · rwa [heq]
  · rw [heq]
    exact hx.le_refl

theorem Nonneg.le_max_right (hx : Nonneg x) (hy : Nonneg y) : y ≤ Max.max x y := by
  show y ≤ if x ≤ y then y else x
  by_cases h : x ≤ y
  · rw [if_pos h]
    exact hy.le_refl
  · rw [if_neg h]
    obtain ⟨p, hp, -⟩ := hx
    obtain ⟨q, hq, -⟩ := hy
    rw [le_of_spot hp hq, not_le] at h
    exact (le_of_spot hq hp).mpr h.le

/-- Of two numbers that are not negative neither is the smaller one. -/
theorem Nonneg.min (hx : Nonneg x) (hy : Nonneg y) : Nonneg (min x y) := by
  show Nonneg (if x ≤ y then x else y)
  by_cases h : x ≤ y
  · rwa [if_pos h]
  · rwa [if_neg h]

theorem le_min (hx : z ≤ x) (hy : z ≤ y) : z ≤ Min.min x y := by
  show z ≤ if x ≤ y then x else y
  by_cases h : x ≤ y
  · rwa [if_pos h]
  · rwa [if_neg h]

/-- The greatest of some numbers, from one that is not negative. -/
theorem Nonneg.foldl_max (hx : Nonneg x) (ys : List Float) :
    Nonneg (ys.foldl Max.max x) ∧ x ≤ ys.foldl Max.max x ∧
      ∀ y ∈ ys, Nonneg y → y ≤ ys.foldl Max.max x := by
  induction ys generalizing x with
  | nil => exact ⟨hx, hx.le_refl, fun _ h => absurd h List.not_mem_nil⟩
  | cons y ys ih =>
      obtain ⟨hfold, hle, hmem⟩ := ih (hx.max y)
      refine ⟨hfold, le_of_le_of_le (hx.le_max_left y) hle, fun z hz hpos => ?_⟩
      rcases List.mem_cons.mp hz with rfl | hz
      · exact le_of_le_of_le (hx.le_max_right hpos) hle
      · exact hmem z hz hpos

end Order

/-! ## Packing

The result of an operation is packed into bits and unpacked when it is used next.  A
positive number comes back as it was, as zero, or as the infinity. -/

/-- What `Float.Model` makes of the result of an operation. -/
def repack (u : UnpackedFloat) : UnpackedFloat := (Float.Model.pack u).unpack

/-- An unpacked number that is not before the origin. -/
def NonnegUnpacked (u : UnpackedFloat) : Prop := ∃ p, place u = some p ∧ origin ≤ p

/-- The sign is packed into a bit of its own. -/
theorem unpackSign_packComponents {spec : Format} {sign : Sign}
    {exponent : BitVec spec.exponentBits}
    {mantissa : BitVec spec.mantissaBitsWithoutImplicit} :
    unpackSign (packComponents spec sign exponent mantissa) = sign.toBitVec := by
  ext i hi
  have hzero : i = 0 := by omega
  subst hzero
  simp [unpackSign, packComponents, BitVec.getLsbD_append, BitVec.getElem_append]

theorem ofBitVec_toBitVec (s : Sign) : Sign.ofBitVec s.toBitVec = s := by
  cases s <;> rfl

theorem nonnegUnpacked_zero (s : Sign) : NonnegUnpacked (.zero s) :=
  ⟨origin, rfl, le_rfl⟩

/-- A positive number is after the origin. -/
theorem origin_lt_at (e m : Int) : origin < Place.at 1 e m := by
  rw [origin, Place.at, Place.at, Prod.Lex.toLex_lt_toLex]
  exact Or.inl Int.one_pos

theorem nonnegUnpacked_finite (m : Nat) (e : Int) (h : 0 < m) :
    NonnegUnpacked (.finite .positive m e h) :=
  ⟨_, rfl, (origin_lt_at e m).le⟩

theorem nonnegUnpacked_infinity : NonnegUnpacked (.infinity .positive) := by
  refine ⟨_, rfl, le_of_lt ?_⟩
  rw [origin, Place.at, Place.at, Prod.Lex.toLex_lt_toLex]
  exact Or.inl two_pos

section Components

variable {spec : Format} {exponent : BitVec spec.exponentBits}
variable {mantissa : BitVec spec.mantissaBitsWithoutImplicit}

/-- Components with a positive sign are not negative. -/
theorem nonnegUnpacked_components (h : exponent = -1#_ → mantissa = 0#_) :
    NonnegUnpacked (UnpackedFloat.unpack spec
      (packComponents spec .positive exponent mantissa)) := by
  unfold UnpackedFloat.unpack
  simp only [unpackExponent_packComponents, unpackMantissa_packComponents,
    unpackSign_packComponents, ofBitVec_toBitVec]
  by_cases hall : exponent = -1#_
  · rw [if_pos hall, if_pos (h hall)]
    exact nonnegUnpacked_infinity
  · rw [if_neg hall]
    by_cases hzero : exponent = 0#_
    · rw [if_pos hzero]
      by_cases hm : mantissa = 0#_
      · rw [dif_pos hm]
        exact nonnegUnpacked_zero _
      · rw [dif_neg hm]
        exact nonnegUnpacked_finite _ _ _
    · rw [if_neg hzero]
      exact nonnegUnpacked_finite _ _ _

/-- A normal number. -/
theorem unpack_normal {sign : Sign} (hall : exponent ≠ -1#_) (hzero : exponent ≠ 0#_) :
    UnpackedFloat.unpack spec (packComponents spec sign exponent mantissa) =
      .finite sign (1#1 ++ mantissa).toNat
        ((exponent.toNat : Int) - (spec.exponentBias + spec.mantissaBitsWithoutImplicit))
        (by simp) := by
  unfold UnpackedFloat.unpack
  simp only [unpackExponent_packComponents, unpackMantissa_packComponents,
    unpackSign_packComponents, ofBitVec_toBitVec]
  rw [if_neg hall, if_neg hzero]

theorem ofNat_ne_neg_one {w n : Nat} (h : n + 1 < 2 ^ w) : BitVec.ofNat w n ≠ -1#w := by
  intro heq
  have hnat := congrArg BitVec.toNat heq
  rw [BitVec.toNat_ofNat, Nat.mod_eq_of_lt (by omega), BitVec.neg_one_eq_allOnes,
    BitVec.toNat_allOnes] at hnat
  omega

/-- The packed infinity is unpacked as the infinity. -/
theorem nonnegUnpacked_infinityComponents :
    NonnegUnpacked (UnpackedFloat.unpack spec (packedInfinity spec .positive)) :=
  nonnegUnpacked_components fun _ => rfl

end Components

theorem nonnegUnpacked_repack_zero (s : Sign) : NonnegUnpacked (repack (.zero s)) := by
  cases s <;> exact nonnegUnpacked_zero _

theorem nonnegUnpacked_repack_infinity : NonnegUnpacked (repack (.infinity .positive)) := by
  show NonnegUnpacked (UnpackedFloat.unpack .binary64 (packedInfinity .binary64 .positive))
  exact nonnegUnpacked_infinityComponents

/-- A positive number stays positive, becomes zero or overflows. -/
theorem nonnegUnpacked_repack_finite (m : Nat) (e : Int) (h : 0 < m) :
    NonnegUnpacked (repack (.finite .positive m e h)) := by
  show NonnegUnpacked (UnpackedFloat.unpack .binary64 (UnpackedFloat.pack .binary64 _))
  unfold UnpackedFloat.pack
  dsimp only
  generalize (e + Format.binary64.exponentBias + _).toNat = biased
  by_cases hover : 2 ^ Format.binary64.exponentBits ≤ biased + 1
  · rw [if_pos hover]
    exact nonnegUnpacked_infinityComponents
  · rw [if_neg hover]
    by_cases hnormal : m.log2 + 1 = Format.binary64.mantissaBits
    · rw [if_pos hnormal]
      exact nonnegUnpacked_components fun heq =>
        absurd heq (ofNat_ne_neg_one (not_le.mp hover))
    · rw [if_neg hnormal]
      exact nonnegUnpacked_components fun heq => absurd heq (by decide)

/-- Unpacked numbers are one if their mantissas and exponents are. -/
theorem finite_congr {s : Sign} {m m' : Nat} {e e' : Int} {h : 0 < m} {h' : 0 < m'}
    (hm : m = m') (he : e = e') :
    UnpackedFloat.finite s m e h = .finite s m' e' h' := by
  subst hm he
  rfl

/-- A number with 53 bits that does not overflow is packed as it is. -/
theorem repack_normal {m : Nat} {e : Int} (hpos : 0 < m) (hlow : 2 ^ 52 ≤ m)
    (hhigh : m < 2 ^ 53) (he : -1074 ≤ e) (he' : e ≤ 971) :
    repack (.finite .positive m e hpos) = .finite .positive m e hpos := by
  have hlog : m.log2 = 52 := (Nat.log2_eq_iff hpos.ne').mpr ⟨hlow, hhigh⟩
  obtain ⟨b, hb⟩ : ∃ b : Nat, e + 1075 = b := ⟨(e + 1075).toNat, by omega⟩
  have hbias : (e + Format.binary64.exponentBias +
      Format.binary64.mantissaBitsWithoutImplicit).toNat = b := by
    show (e + 1023 + 52).toNat = b
    omega
  have hbits : m.log2 + 1 = Format.binary64.mantissaBits := by
    rw [hlog]
    rfl
  have hover : ¬2 ^ Format.binary64.exponentBits ≤ b + 1 := by
    show ¬2 ^ 11 ≤ b + 1
    omega
  have hall : BitVec.ofNat 11 b ≠ -1#11 := ofNat_ne_neg_one (not_le.mp hover)
  have hnat : (BitVec.ofNat 11 b).toNat = b := by
    rw [BitVec.toNat_ofNat, Nat.mod_eq_of_lt (by omega)]
  have hzero : BitVec.ofNat 11 b ≠ 0#11 := by
    intro heq
    rw [heq] at hnat
    have hb0 : b = 0 := hnat.symm
    omega
  have hmantissa : (1#1 ++ BitVec.ofNat 52 m).toNat = m := by
    rw [BitVec.toNat_append,
      ← Nat.shiftLeft_add_eq_or_of_lt (BitVec.ofNat 52 m).isLt, BitVec.toNat_ofNat]
    show (1 <<< 52) + m % 2 ^ 52 = m
    omega
  show UnpackedFloat.unpack .binary64 (UnpackedFloat.pack .binary64 _) = _
  unfold UnpackedFloat.pack
  dsimp only
  rw [hbias, if_neg hover, if_pos hbits]
  refine (unpack_normal hall hzero).trans (finite_congr hmantissa ?_)
  show ((BitVec.ofNat 11 b).toNat : Int) - (1023 + 52) = e
  rw [hnat]
  omega

/-! ## Rounding

Bits are shifted out and the mantissa goes up by one at most.  What the exact value is
not below, the rounded one is not below. -/

theorem mantissa_shiftRight (em : ExtendedMantissa) (k : Nat) :
    (em >>> k).mantissa = em.mantissa / 2 ^ k := by
  induction k with
  | zero => exact (Nat.div_one _).symm
  | succ k ih =>
      show (em >>> k).mantissa / 2 = _
      rw [ih, Nat.div_div_eq_div_mul, Nat.pow_succ]

theorem mantissa_ofMantissaAndAccuracy (m : Nat) (accuracy : Accuracy) :
    (ExtendedMantissa.ofMantissaAndAccuracy m accuracy).mantissa = m := by
  cases accuracy with
  | exact => rfl
  | inexact o => cases o <;> rfl

/-- Rounding goes up by one at most, and not down. -/
theorem roundedMantissa_bounds (em : ExtendedMantissa) :
    em.mantissa ≤ em.roundedMantissa ∧ em.roundedMantissa ≤ em.mantissa + 1 := by
  unfold ExtendedMantissa.roundedMantissa
  cases em.accuracy with
  | exact => exact ⟨le_rfl, Nat.le_succ _⟩
  | inexact o =>
      cases o with
      | lt => exact ⟨le_rfl, Nat.le_succ _⟩
      | gt => exact ⟨Nat.le_succ _, le_rfl⟩
      | eq =>
          show em.mantissa ≤ em.mantissa + em.mantissa % 2 ∧ _ ≤ _
          simp only [Accuracy.roundToNearestEven]
          omega

/-- Rounding a positive number does not make it negative. -/
theorem nonnegUnpacked_roundWithAccuracy (m : Nat) (e : Int) (accuracy : Accuracy) :
    NonnegUnpacked (repack (roundWithAccuracy .binary64 .positive m e accuracy)) := by
  unfold roundWithAccuracy
  dsimp only
  split
  · exact nonnegUnpacked_repack_zero _
  · exact nonnegUnpacked_repack_finite _ _ _

/-- Rounding does not make a positive number negative. -/
theorem nonnegUnpacked_round (m : Nat) (e : Int) :
    NonnegUnpacked (repack (round .binary64 .positive m e)) :=
  nonnegUnpacked_roundWithAccuracy _ _ _

/-- What is left of a mantissa with enough bits has 53. -/
theorem shifted_bounds {m : Nat} (hm : 2 ^ 52 ≤ m) :
    2 ^ 52 ≤ m / 2 ^ (m.log2 - 52) ∧ m / 2 ^ (m.log2 - 52) < 2 ^ 53 := by
  have hne : m ≠ 0 := by omega
  have hlog : 52 ≤ m.log2 := (Nat.le_log2 hne).mpr hm
  have hlow := Nat.log2_self_le hne
  have hhigh : m < 2 ^ (m.log2 + 1) := Nat.lt_log2_self
  generalize m.log2 = l at *
  obtain ⟨k, rfl⟩ := Nat.exists_eq_add_of_le hlog
  rw [Nat.add_sub_cancel_left]
  constructor
  · rw [Nat.le_div_iff_mul_le (Nat.two_pow_pos k), ← Nat.pow_add]
    exact hlow
  · rw [Nat.div_lt_iff_lt_mul (Nat.two_pow_pos k), ← Nat.pow_add]
    exact hhigh.trans_eq (congrArg (2 ^ ·) (by omega))

/-- The two shifts of the rounding: to the target exponent, and back to 53 bits if
the mantissa was rounded up to 54. -/
theorem roundWithAccuracy_eq {s : Sign} {m r : Nat} {e f : Int} {accuracy : Accuracy}
    {first second : ExtendedMantissa × Int} (hr : 0 < r)
    (hfirst : shiftToTargetExponent .binary64 m e accuracy = first)
    (hsecond : shiftToTargetExponent .binary64 first.1.roundedMantissa first.2 .exact = second)
    (hmantissa : second.1.mantissa = r) (hexponent : second.2 = f) :
    roundWithAccuracy .binary64 s m e accuracy = .finite s r f hr := by
  subst hsecond hfirst
  unfold roundWithAccuracy
  dsimp only
  split
  · next hzero => exact absurd (hmantissa.symm.trans hzero) hr.ne'
  · exact finite_congr hmantissa hexponent

/-- How far the mantissa is shifted to reach the exponent of the format. -/
theorem shiftToTargetExponent_eq (m : Nat) (e : Int) (accuracy : Accuracy) {k : Nat}
    (h : (max (m.log2 + 1 + e - 53) (-1074) - e).toNat = k) :
    shiftToTargetExponent .binary64 m e accuracy =
      (ExtendedMantissa.ofMantissaAndAccuracy m accuracy >>> k, e + k) := by
  rw [← h]
  rfl

/-- Rounding a mantissa with enough bits, at a normal exponent: the result has 53
bits, and is not below what is left of the mantissa. -/
theorem roundWithAccuracy_normal {m : Nat} {e : Int} (hm : 2 ^ 52 ≤ m)
    (he : -1074 ≤ m.log2 + e - 52) (s : Sign) (accuracy : Accuracy) :
    ∃ r f, ∃ hr : 0 < r, roundWithAccuracy .binary64 s m e accuracy = .finite s r f hr ∧
      2 ^ 52 ≤ r ∧ r < 2 ^ 53 ∧ ((f = m.log2 + e - 52 ∧ m / 2 ^ (m.log2 - 52) ≤ r) ∨
        f = m.log2 + e - 51) := by
  have hlog : 52 ≤ m.log2 := (Nat.le_log2 (by omega)).mpr hm
  obtain ⟨hlow, hhigh⟩ := shifted_bounds hm
  have hfirst := shiftToTargetExponent_eq m e accuracy (k := m.log2 - 52) (by omega)
  have hbounds := roundedMantissa_bounds
    (ExtendedMantissa.ofMantissaAndAccuracy m accuracy >>> (m.log2 - 52))
  rw [mantissa_shiftRight, mantissa_ofMantissaAndAccuracy] at hbounds
  generalize ExtendedMantissa.ofMantissaAndAccuracy m accuracy >>> (m.log2 - 52) = em
    at hbounds hfirst
  by_cases hr : em.roundedMantissa < 2 ^ 53
  · have hlogr : em.roundedMantissa.log2 = 52 :=
      (Nat.log2_eq_iff (by omega)).mpr ⟨by omega, hr⟩
    have hsecond := shiftToTargetExponent_eq em.roundedMantissa
      (e + (m.log2 - 52 : Nat)) .exact (k := 0) (by omega)
    refine ⟨em.roundedMantissa, m.log2 + e - 52, by omega,
      roundWithAccuracy_eq _ hfirst hsecond ?_ ?_, by omega, hr, Or.inl ⟨rfl, hbounds.1⟩⟩
    · exact mantissa_ofMantissaAndAccuracy _ _
    · dsimp only
      omega
  · -- the mantissa was rounded up to 54 bits
    have hr53 : em.roundedMantissa = 2 ^ 53 := by omega
    have hlogr : em.roundedMantissa.log2 = 53 := by rw [hr53]; exact Nat.log2_two_pow
    have hsecond := shiftToTargetExponent_eq em.roundedMantissa
      (e + (m.log2 - 52 : Nat)) .exact (k := 1) (by omega)
    refine ⟨2 ^ 52, m.log2 + e - 51, by decide,
      roundWithAccuracy_eq _ hfirst hsecond ?_ ?_, le_rfl, by decide, Or.inr rfl⟩
    · rw [mantissa_shiftRight, mantissa_ofMantissaAndAccuracy, hr53]
      rfl
    · dsimp only
      omega

/-- A greater exponent, or an equal one and a greater mantissa. -/
theorem at_le_at {e f m r : Int} (h : e < f ∨ (e = f ∧ m ≤ r)) :
    Place.at 1 e m ≤ Place.at 1 f r := by
  rw [Place.at, Place.at, Prod.Lex.toLex_le_toLex, Prod.Lex.toLex_le_toLex]
  exact Or.inr ⟨rfl, h⟩

/-- Every finite place is before the infinity. -/
theorem at_le_infinity (e m : Int) : Place.at 1 e m ≤ Place.at 2 0 0 := by
  rw [Place.at, Place.at, Prod.Lex.toLex_le_toLex]
  exact Or.inl one_lt_two

theorem repack_infinity : repack (.infinity .positive) = .infinity .positive := by
  show UnpackedFloat.unpack .binary64 (packedInfinity .binary64 .positive) = _
  rfl

theorem place_repack_infinity :
    place (repack (.infinity .positive)) = some (Place.at 2 0 0) := by
  rw [repack_infinity]
  rfl

/-- A number with an exponent beyond the format becomes the infinity. -/
theorem repack_overflow {m : Nat} {e : Int} (hpos : 0 < m) (he : 971 < e) :
    repack (.finite .positive m e hpos) = .infinity .positive := by
  have hover : 2 ^ Format.binary64.exponentBits ≤ (e + Format.binary64.exponentBias +
      Format.binary64.mantissaBitsWithoutImplicit).toNat + 1 := by
    show 2 ^ 11 ≤ (e + 1023 + 52).toNat + 1
    omega
  show UnpackedFloat.unpack .binary64 (UnpackedFloat.pack .binary64 _) = _
  unfold UnpackedFloat.pack
  dsimp only
  rw [if_pos hover]
  rfl

/-- The leading bits of a number that is not greater are not greater. -/
theorem log_le_of_le {m₀ m : Nat} {e₀ e : Int} (hlow : 2 ^ 52 ≤ m₀)
    (hle : (m₀ : Rat) * 2 ^ e₀ ≤ m * 2 ^ e) : e₀ ≤ m.log2 + e - 52 := by
  have hlow' : (2 : Rat) ^ (52 : Int) ≤ m₀ := by exact_mod_cast hlow
  have hhigh : (m : Rat) < 2 ^ ((m.log2 : Int) + 1) := by exact_mod_cast Nat.lt_log2_self
  have hpow : (2 : Rat) ^ (52 + e₀) < 2 ^ ((m.log2 : Int) + 1 + e) := by
    calc (2 : Rat) ^ (52 + e₀) = 2 ^ (52 : Int) * 2 ^ e₀ := zpow_add₀ two_ne_zero _ _
      _ ≤ m₀ * 2 ^ e₀ := mul_le_mul_of_nonneg_right hlow' (by positivity)
      _ ≤ m * 2 ^ e := hle
      _ < 2 ^ ((m.log2 : Int) + 1) * 2 ^ e :=
        mul_lt_mul_of_pos_right hhigh (by positivity)
      _ = 2 ^ ((m.log2 : Int) + 1 + e) := (zpow_add₀ two_ne_zero _ _).symm
  have hexp := (zpow_lt_zpow_iff_right₀ (one_lt_two (α := Rat))).mp hpow
  omega

/-- At one exponent, the mantissas are in order. -/
theorem le_div_of_le {m₀ m k : Nat} {e : Int}
    (hle : (m₀ : Rat) * 2 ^ (e + (k : Int)) ≤ m * 2 ^ e) : m₀ ≤ m / 2 ^ k := by
  rw [Nat.le_div_iff_mul_le (Nat.two_pow_pos k)]
  have hpos : (0 : Rat) < 2 ^ e := by positivity
  have hmul : ((m₀ * 2 ^ k : Nat) : Rat) * 2 ^ e ≤ m * 2 ^ e := by
    calc ((m₀ * 2 ^ k : Nat) : Rat) * 2 ^ e = m₀ * 2 ^ (e + (k : Int)) := by
          rw [zpow_add₀ two_ne_zero, zpow_natCast]
          push_cast
          ring
      _ ≤ m * 2 ^ e := hle
  exact_mod_cast le_of_mul_le_mul_right hmul hpos

/-- **Rounding does not go below a number that the exact value is not below.** -/
theorem at_le_roundWithAccuracy {m₀ m : Nat} {e₀ e : Int} (hlow : 2 ^ 52 ≤ m₀)
    (he₀ : -1074 ≤ e₀) (hm : 2 ^ 52 ≤ m) (hle : (m₀ : Rat) * 2 ^ e₀ ≤ m * 2 ^ e)
    (accuracy : Accuracy) :
    ∃ p, place (repack (roundWithAccuracy .binary64 .positive m e accuracy)) = some p ∧
      Place.at 1 e₀ m₀ ≤ p := by
  have hlog := log_le_of_le hlow hle
  have hlogm : 52 ≤ m.log2 := (Nat.le_log2 (by omega)).mpr hm
  obtain ⟨r, f, hr, hround, hlow', hhigh', hcases⟩ :=
    roundWithAccuracy_normal hm (he₀.trans hlog) .positive accuracy
  have hf : -1074 ≤ f := by omega
  have horder : e₀ < f ∨ (e₀ = f ∧ (m₀ : Int) ≤ r) := by
    rcases hcases with ⟨hexp, hquot⟩ | hexp
    · by_cases hlt : e₀ < f
      · exact Or.inl hlt
      · have heq : e₀ = e + (m.log2 - 52 : Nat) := by omega
        have hquot₀ := le_div_of_le (heq ▸ hle)
        exact Or.inr ⟨by omega, Int.ofNat_le.mpr (hquot₀.trans hquot)⟩
    · exact Or.inl (by omega)
  rw [hround]
  by_cases hover : f ≤ 971
  · rw [repack_normal hr hlow' hhigh' hf hover]
    exact ⟨_, rfl, at_le_at horder⟩
  · rw [repack_overflow hr (not_le.mp hover)]
    exact ⟨_, rfl, at_le_infinity _ _⟩

/-! ## What is unpacked

The shapes that unpacking can give, which the case distinctions of the last section go
through. -/

/-- The mantissa of an unpacked number has 53 bits, or its exponent is the least
one. -/
theorem unpack_shape {b : BitVec (Format.numBits .binary64)} {s : Sign} {m : Nat} {e : Int}
    {h : 0 < m} (hx : UnpackedFloat.unpack .binary64 b = .finite s m e h) :
    m < 2 ^ 53 ∧ -1074 ≤ e ∧ e ≤ 971 ∧ (2 ^ 52 ≤ m ∨ e = -1074) := by
  unfold UnpackedFloat.unpack at hx
  dsimp only at hx
  have hbias : (Format.binary64.exponentBias : Int) +
      Format.binary64.mantissaBitsWithoutImplicit = 1075 := rfl
  rw [hbias] at hx
  generalize Sign.ofBitVec (unpackSign b) = sign at hx
  generalize @unpackExponent .binary64 b = exponent at hx
  have hexp : exponent.toNat < 2 ^ 11 := exponent.isLt
  have hmant : (@unpackMantissa .binary64 b).toNat < 2 ^ 52 := BitVec.isLt _
  by_cases hall : exponent = -1#_
  · rw [if_pos hall] at hx
    split at hx <;> cases hx
  · rw [if_neg hall] at hx
    have hne : exponent.toNat ≠ 2047 := fun heq => hall (BitVec.eq_of_toNat_eq heq)
    by_cases hzero : exponent = 0#_
    · rw [if_pos hzero] at hx
      by_cases hm : @unpackMantissa .binary64 b = 0#_
      · rw [dif_pos hm] at hx
        cases hx
      · rw [dif_neg hm] at hx
        cases hx
        have hnat : exponent.toNat = 0 := congrArg BitVec.toNat hzero
        omega
    · rw [if_neg hzero] at hx
      have hne0 : exponent.toNat ≠ 0 := fun heq => hzero (BitVec.eq_of_toNat_eq heq)
      have happend : (1#1 ++ @unpackMantissa .binary64 b).toNat =
          2 ^ 52 + (@unpackMantissa .binary64 b).toNat := by
        rw [BitVec.toNat_append, ← Nat.shiftLeft_add_eq_or_of_lt (BitVec.isLt _)]
        rfl
      cases hx
      rw [happend]
      omega

/-- A number that is not negative is a zero, a positive number or the infinity. -/
theorem nonnegUnpacked_cases {u : UnpackedFloat} (hu : NonnegUnpacked u) :
    (∃ s, u = .zero s) ∨ (∃ m e, ∃ h : 0 < m, u = .finite .positive m e h) ∨
      u = .infinity .positive := by
  obtain ⟨p, hp, hpos⟩ := hu
  cases u with
  | notANumber => cases hp
  | zero s => exact Or.inl ⟨s, rfl⟩
  | infinity s =>
      cases s with
      | positive => exact Or.inr (Or.inr rfl)
      | negative =>
          cases hp
          rw [origin, Place.at, Place.at, Prod.Lex.toLex_le_toLex] at hpos
          exact absurd hpos (by decide)
  | finite s m e h =>
      cases s with
      | positive => exact Or.inr (Or.inl ⟨m, e, h, rfl⟩)
      | negative =>
          cases hp
          rw [origin, Place.at, Place.at, Prod.Lex.toLex_le_toLex] at hpos
          simp at hpos

/-- A positive number with a full mantissa. -/
def IsNormal (x : Float) (m : Nat) (e : Int) : Prop :=
  2 ^ 52 ≤ m ∧ ∃ h : 0 < m, x.toModel.unpack = .finite .positive m e h

/-! ## Products and sums

The unpacked result of each operation, and on which side of the origin it lies. -/

section Arithmetic

variable {x y z : Float} {m : Nat} {e : Int}

/-- The place of a product is that of the exact one, rounded. -/
theorem spot_mul (x y : Float) :
    spot (x * y) = place (repack (UnpackedFloat.mul .binary64 x.toModel.unpack
      y.toModel.unpack)) := rfl

theorem spot_add (x y : Float) :
    spot (x + y) = place (repack (UnpackedFloat.add .binary64 x.toModel.unpack
      y.toModel.unpack)) := rfl

/-- A positive number times one that is not negative is not negative. -/
theorem nonneg_mul (hz : IsNormal z m e) (hx : Nonneg x) : Nonneg (z * x) := by
  obtain ⟨-, hpos, hz⟩ := hz
  show NonnegUnpacked (repack (UnpackedFloat.mul .binary64 z.toModel.unpack
    x.toModel.unpack))
  rcases nonnegUnpacked_cases hx with ⟨s, hu⟩ | ⟨n, f, hn, hu⟩ | hu
  · rw [hz, hu]
    exact nonnegUnpacked_repack_zero _
  · rw [hz, hu]
    exact nonnegUnpacked_roundWithAccuracy _ _ _
  · rw [hz, hu]
    exact nonnegUnpacked_repack_infinity

/-- A positive sum is rounded without a sign to decide. -/
theorem normalize_of_pos {n : Int} (hn : 0 < n) (f : Int) :
    normalize .binary64 n f .positive = round .binary64 .positive n.toNat f := by
  rw [UnpackedFloat.normalize, compare_gt_iff_gt.mpr hn]

/-- The exact sum of two positive numbers, at the smaller exponent. -/
theorem add_finite {m n : Nat} {e f : Int} (hm : 0 < m) (hn : 0 < n) :
    UnpackedFloat.add .binary64 (.finite .positive m e hm) (.finite .positive n f hn) =
      round .binary64 .positive
        (m * 2 ^ (e - min e f).toNat + n * 2 ^ (f - min e f).toNat) (min e f) := by
  have hsum : 0 < m * 2 ^ (e - min e f).toNat + n * 2 ^ (f - min e f).toNat :=
    Nat.add_pos_left (Nat.mul_pos hm (Nat.two_pow_pos _)) _
  show normalize .binary64 (((m <<< (e - min e f).toNat : Nat) : Int) +
    ((n <<< (f - min e f).toNat : Nat) : Int)) (min e f) .positive = _
  rw [Nat.shiftLeft_eq, Nat.shiftLeft_eq, ← Int.natCast_add,
    normalize_of_pos (Int.natCast_pos.mpr hsum), Int.toNat_natCast]

/-- The sum of two numbers that are not negative is not negative. -/
theorem nonneg_add (hx : Nonneg x) (hy : Nonneg y) : Nonneg (x + y) := by
  show NonnegUnpacked (repack (UnpackedFloat.add .binary64 x.toModel.unpack
    y.toModel.unpack))
  rcases nonnegUnpacked_cases hx with ⟨s, hu⟩ | ⟨m, e, hm, hu⟩ | hu <;>
    rcases nonnegUnpacked_cases hy with ⟨t, hv⟩ | ⟨n, f, hn, hv⟩ | hv <;> rw [hu, hv]
  · cases s <;> cases t <;> exact nonnegUnpacked_repack_zero _
  · exact nonnegUnpacked_repack_finite _ _ _
  · exact nonnegUnpacked_repack_infinity
  · exact nonnegUnpacked_repack_finite _ _ _
  · rw [add_finite]
    exact nonnegUnpacked_round _ _
  · exact nonnegUnpacked_repack_infinity
  · exact nonnegUnpacked_repack_infinity
  · exact nonnegUnpacked_repack_infinity
  · exact nonnegUnpacked_repack_infinity

/-! ### Lower bounds -/

theorem IsNormal.spot (hz : IsNormal z m e) : spot z = some (Place.at 1 e m) := by
  obtain ⟨-, hpos, hz⟩ := hz
  rw [FloatOrder.spot, hz]
  rfl

/-- The bounds of its mantissa and exponent. -/
theorem IsNormal.shape (hz : IsNormal z m e) : m < 2 ^ 53 ∧ -1074 ≤ e ∧ e ≤ 971 := by
  obtain ⟨-, hpos, hz⟩ := hz
  obtain ⟨hhigh, he, he', -⟩ := unpack_shape hz
  exact ⟨hhigh, he, he'⟩

/-- A number that a normal one is not above is a normal one, or the infinity. -/
theorem IsNormal.of_le (hz : IsNormal z m e) (hx : z ≤ x) :
    (∃ n f, IsNormal x n f ∧ (e < f ∨ (e = f ∧ m ≤ n))) ∨
      x.toModel.unpack = .infinity .positive := by
  obtain ⟨p, q, hp, hq, hpq⟩ := le_iff_spot.mp hx
  cases hz.spot.symm.trans hp
  have hnonneg : NonnegUnpacked x.toModel.unpack := ⟨q, hq, (origin_lt_at e m).le.trans hpq⟩
  rcases nonnegUnpacked_cases hnonneg with ⟨s, hu⟩ | ⟨n, f, hn, hu⟩ | hu
  · rw [FloatOrder.spot, hu] at hq
    cases hq
    exact absurd hpq (not_le.mpr (origin_lt_at e m))
  · rw [FloatOrder.spot, hu] at hq
    cases hq
    rw [Place.at, Place.at, Prod.Lex.toLex_le_toLex, Prod.Lex.toLex_le_toLex] at hpq
    have horder : e < f ∨ (e = f ∧ m ≤ n) := by
      rcases hpq with hkind | ⟨-, hlt | ⟨heq, hle⟩⟩
      · exact absurd hkind (lt_irrefl _)
      · exact Or.inl hlt
      · exact Or.inr ⟨heq, Int.ofNat_le.mp hle⟩
    obtain ⟨-, -, -, hnormal⟩ := unpack_shape hu
    obtain ⟨-, he, -⟩ := hz.shape
    have hlow := hz.1
    exact Or.inl ⟨n, f, ⟨by omega, hn, hu⟩, horder⟩
  · exact Or.inr hu

/-- The order of the places is that of the values. -/
theorem value_le {m n : Nat} {e f : Int} (hm : m < 2 ^ 53) (hn : 2 ^ 52 ≤ n)
    (h : e < f ∨ (e = f ∧ m ≤ n)) : (m : Rat) * 2 ^ e ≤ n * 2 ^ f := by
  rcases h with hlt | ⟨rfl, hle⟩
  · have hm' : (m : Rat) ≤ 2 ^ (53 : Int) := by exact_mod_cast hm.le
    have hn' : (2 : Rat) ^ (52 : Int) ≤ n := by exact_mod_cast hn
    calc (m : Rat) * 2 ^ e ≤ 2 ^ (53 : Int) * 2 ^ e :=
          mul_le_mul_of_nonneg_right hm' (by positivity)
      _ = 2 ^ (53 + e) := (zpow_add₀ two_ne_zero _ _).symm
      _ ≤ 2 ^ (52 + f) := zpow_le_zpow_right₀ one_le_two (by omega)
      _ = 2 ^ (52 : Int) * 2 ^ f := zpow_add₀ two_ne_zero _ _
      _ ≤ n * 2 ^ f := mul_le_mul_of_nonneg_right hn' (by positivity)
  · exact mul_le_mul_of_nonneg_right (by exact_mod_cast hle) (by positivity)

/-- A place that a normal number is not after is not below it. -/
theorem le_of_place {p : Place} (hz : IsNormal z m e) (hx : FloatOrder.spot x = some p)
    (h : Place.at 1 e m ≤ p) : z ≤ x := (le_of_spot hz.spot hx).mpr h

/-- The product with a number that is at least one is not below. -/
theorem le_mul_of_one_le {one : Float} (hz : IsNormal z m e)
    (hone : IsNormal one (2 ^ 52) (-52)) (hx : one ≤ x) : z ≤ z * x := by
  obtain ⟨hhigh, he, he'⟩ := hz.shape
  obtain ⟨hlow, hpos, hz'⟩ := id hz
  rcases hone.of_le hx with ⟨n, f, ⟨hn, hn', hu⟩, horder⟩ | hu
  · have hf : -52 ≤ f := by omega
    have hvalue : (m : Rat) * 2 ^ e ≤ (m * n : Nat) * 2 ^ (e + f) := by
      have hn2 : (2 : Rat) ^ (52 : Int) ≤ n := by exact_mod_cast hn
      have hone : (1 : Rat) ≤ n * 2 ^ f := by
        calc (1 : Rat) ≤ 2 ^ (52 + f) := one_le_zpow₀ one_le_two (by omega)
          _ = 2 ^ (52 : Int) * 2 ^ f := zpow_add₀ two_ne_zero _ _
          _ ≤ n * 2 ^ f := mul_le_mul_of_nonneg_right hn2 (by positivity)
      calc (m : Rat) * 2 ^ e ≤ m * 2 ^ e * (n * 2 ^ f) :=
            le_mul_of_one_le_right (by positivity) hone
        _ = (m * n : Nat) * 2 ^ (e + f) := by
            rw [zpow_add₀ two_ne_zero]
            push_cast
            ring
    have hbits : 2 ^ 52 ≤ m * n := hlow.trans (Nat.le_mul_of_pos_right m hn')
    obtain ⟨p, hp, hle⟩ := at_le_roundWithAccuracy hlow he hbits hvalue .exact
    refine le_of_place hz ?_ hle
    rw [spot_mul, hz', hu]
    exact hp
  · refine le_of_place hz ?_ (at_le_infinity e m)
    rw [spot_mul, hz', hu]
    exact place_repack_infinity

/-- Rounding a sum: the exponent is lowered first. -/
theorem at_le_round {m₀ n : Nat} {e₀ f : Int} (hlow : 2 ^ 52 ≤ m₀) (he₀ : -1074 ≤ e₀)
    (hn : 2 ^ 52 ≤ n) (hle : (m₀ : Rat) * 2 ^ e₀ ≤ n * 2 ^ f) :
    ∃ p, place (repack (round .binary64 .positive n f)) = some p ∧
      Place.at 1 e₀ m₀ ≤ p := by
  unfold UnpackedFloat.round decreaseExponent
  dsimp only
  generalize (f - Format.binary64.targetExponent (totalExponent n f)).toNat = k
  have hvalue : ((n <<< k : Nat) : Rat) * 2 ^ (f - (k : Int)) = n * 2 ^ f := by
    rw [Nat.shiftLeft_eq, zpow_sub₀ two_ne_zero, zpow_natCast]
    push_cast
    field_simp
  have hbits : 2 ^ 52 ≤ n <<< k := by
    rw [Nat.shiftLeft_eq]
    exact hn.trans (Nat.le_mul_of_pos_right n (Nat.two_pow_pos k))
  exact at_le_roundWithAccuracy hlow he₀ hbits (hle.trans_eq hvalue.symm) .exact

/-- The value of a summand, at a lower exponent. -/
theorem value_lowered (n : Nat) {f g : Int} (h : g ≤ f) :
    ((n * 2 ^ (f - g).toNat : Nat) : Rat) * 2 ^ g = n * 2 ^ f := by
  obtain ⟨k, rfl⟩ := Int.le.dest h
  have hk : (g + (k : Int) - g).toNat = k := by omega
  rw [hk, zpow_add₀ two_ne_zero, zpow_natCast]
  push_cast
  ring

/-- The sum with a number that is not negative is not below. -/
theorem le_add_of_nonneg (hz : IsNormal z m e) (hx : z ≤ x) (hy : Nonneg y) : z ≤ x + y := by
  obtain ⟨hhigh, he, he'⟩ := hz.shape
  rcases hz.of_le hx with ⟨n, f, hnormal, horder⟩ | hu
  · have hvalue := value_le hhigh hnormal.1 horder
    obtain ⟨hnhigh, hf, hf'⟩ := hnormal.shape
    obtain ⟨hn, hn', hu⟩ := hnormal
    rcases nonnegUnpacked_cases hy with ⟨t, hv⟩ | ⟨l, g, hl, hv⟩ | hv
    · refine le_of_place hz ?_ (at_le_at (f := f) (r := n)
        (horder.imp_right fun h => ⟨h.1, Int.ofNat_le.mpr h.2⟩))
      rw [spot_add, hu, hv]
      show place (repack (.finite .positive n f hn')) = _
      rw [repack_normal hn' hn hnhigh hf hf']
      rfl
    · have hsum : (m : Rat) * 2 ^ e ≤ (n * 2 ^ (f - min f g).toNat +
          l * 2 ^ (g - min f g).toNat : Nat) * 2 ^ min f g := by
        calc (m : Rat) * 2 ^ e ≤ n * 2 ^ f := hvalue
          _ = (n * 2 ^ (f - min f g).toNat : Nat) * 2 ^ min f g :=
            (value_lowered n (min_le_left f g)).symm
          _ ≤ _ := mul_le_mul_of_nonneg_right
            (by exact_mod_cast Nat.le_add_right _ _) (by positivity)
      have hbits : 2 ^ 52 ≤ n * 2 ^ (f - min f g).toNat + l * 2 ^ (g - min f g).toNat :=
        (hn.trans (Nat.le_mul_of_pos_right n (Nat.two_pow_pos _))).trans
          (Nat.le_add_right _ _)
      obtain ⟨p, hp, hle⟩ := at_le_round hz.1 he hbits hsum
      refine le_of_place hz ?_ hle
      rw [spot_add, hu, hv, add_finite]
      exact hp
    · refine le_of_place hz ?_ (at_le_infinity e m)
      rw [spot_add, hu, hv]
      exact place_repack_infinity
  · refine le_of_place hz ?_ (at_le_infinity e m)
    rw [spot_add, hu]
    rcases nonnegUnpacked_cases hy with ⟨t, hv⟩ | ⟨l, g, hl, hv⟩ | hv <;> rw [hv] <;>
      exact place_repack_infinity

end Arithmetic

end Komika.Lib.FloatOrder
