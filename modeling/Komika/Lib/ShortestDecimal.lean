import Komika.Lib.Binary64
import Komika.Lib.Decimal

/-!
# The shortest decimal of a binary64 number

A number is written with the fewest digits that still read back as it, and of two
such decimals with the nearer one.  There is no exponent: a large number ends in
zeros, a small one begins with them.  A zero has a sign, and the text shows it.

Every finite number is a whole number of units of `2 ^ -1074`, so it has 1074
decimals at most, and `u` units are `u * 5 ^ 1074` of the last of them.  All
decimals here are such numerators over a power of ten.

* `Finite` — the finite numbers, with the proof that they are numbers of the format;
* `shortest`, `readsBack_shortest` — the search for the decimal, from the coarsest
  place down, and that what it finds reads back;
* `display`, `text_inj` — the text, and that it tells the number and its sign;
* `of_mem_text` — the characters of a text.
-/

namespace Komika.Lib.Binary64

/-! ## Finite numbers

A subtype in structure form: the proofs say that the magnitude survives rounding and
that the format has room for it. -/

/-- A finite number: its magnitude has 53 significant bits and is below the
infinities.  Zero comes with either sign. -/
structure Finite where
  negative : Bool
  units : Nat
  representable : roundUnits units = units
  bounded : units < 2 ^ 1024 * one
deriving DecidableEq

namespace Finite

/-- The number among all binary64 numbers. -/
def toBinary64 (x : Finite) : Binary64 := .finite x.negative x.units

/-- The units with the sign; the two zeros have one. -/
def signedUnits (x : Finite) : Int := signed x.negative x.units

/-- Two finite numbers are equal if they have as many units on the same side. -/
theorem eqv_iff {x y : Finite} :
    x.toBinary64.eqv y.toBinary64 = true ↔ x.signedUnits = y.signedUnits := by
  rw [Binary64.eqv_iff]
  simp [toBinary64, place, signedUnits]
  exact eq_comm

/-- A number is known by its units and its sign. -/
theorem ext {x y : Finite} (hnegative : x.negative = y.negative) (hunits : x.units = y.units) :
    x = y := by
  cases x
  cases y
  cases hnegative
  cases hunits
  rfl

/-- Equal numbers of one sign are one number. -/
theorem eq_of_signedUnits {x y : Finite} (h : x.signedUnits = y.signedUnits)
    (hnegative : x.negative = y.negative) : x = y := by
  apply ext hnegative
  unfold signedUnits signed at h
  rw [hnegative] at h
  split at h <;> omega

/-! ## The shortest decimal

`p` is how many decimals there are: numerators stand over `10 ^ p`, and units over
`2 ^ p`.
-/

/-- The decimal `n / 10 ^ p` reads back as `u` units: it is `n / 5 ^ p` of them. -/
def readsBack (p u n : Nat) : Bool := roundQuotient n (5 ^ p) = u

/-- The decimal that ends at the place of `10 ^ j`, if one there reads back: the next
one below or above, whichever is nearer, and the upper one of two that are as near. -/
def atPlace (p u j : Nat) : Option Nat :=
  let exact := u * 5 ^ p
  let down := exact / 10 ^ j * 10 ^ j
  let up := down + 10 ^ j
  if readsBack p u down && (!readsBack p u up || exact - down < up - exact) then some down
  else if readsBack p u up then some up
  else none

/-- The first decimal that reads back, from the place of `10 ^ j` down.  At the last
place stands the number itself. -/
def shortest (p u : Nat) : Nat → Nat
  | 0 => u * 5 ^ p
  | j + 1 => (atPlace p u (j + 1)).getD (shortest p u j)

variable {p u v n j : Nat}

/-- What stands at a place reads back. -/
theorem readsBack_atPlace (h : atPlace p u j = some n) : readsBack p u n = true := by
  unfold atPlace at h
  dsimp only at h
  split at h
  · next hdown =>
      cases h
      exact (Bool.and_eq_true_iff.mp hdown).1
  · split at h
    · next hup =>
        cases h
        exact hup
    · contradiction

/-- The shortest decimal reads back, wherever the search begins. -/
theorem readsBack_shortest (hu : roundUnits u = u) (j : Nat) :
    readsBack p u (shortest p u j) = true := by
  induction j with
  | zero =>
      have hexact : roundQuotient (u * 5 ^ p) (5 ^ p) = roundUnits u :=
        roundQuotient_mul u (Nat.pow_pos (by decide))
      exact decide_eq_true (hexact.trans hu)
  | succ j ih =>
      rw [shortest]
      cases hplace : atPlace p u (j + 1) with
      | none => exact ih
      | some n => exact readsBack_atPlace hplace

/-- Numbers with one decimal are one number. -/
theorem eq_of_shortest (hu : roundUnits u = u) (hv : roundUnits v = v)
    (h : shortest p u j = shortest p v j) : u = v := by
  have hread := of_decide_eq_true (readsBack_shortest (p := p) hu j)
  rw [h] at hread
  exact hread.symm.trans (of_decide_eq_true (readsBack_shortest hv j))

/-! ## The text

The decimal in the notation without an exponent, with a minus where the number has
one. -/

/-- A minus, also in front of a zero, and the shortest decimal. -/
def text (p j : Nat) (x : Finite) : List Char :=
  (if x.negative then ['-'] else []) ++ Decimal.trimmed p (shortest p x.units j)

/-- The text of a number.  The search begins above the place of `10 ^ 308`, which no
number of the format goes beyond. -/
def display (x : Finite) : List Char := x.text 1074 1383

theorem of_mem_trimmed {c : Char} (h : c ∈ Decimal.trimmed p n) :
    c.isDigit = true ∨ c = '.' := by
  rw [Decimal.trimmed_eq, Decimal.plain] at h
  have hfrac : ∀ d ∈ (Decimal.fracDigits p n).rdropWhile (· == '0'), d.isDigit = true :=
    fun d hd => Decimal.isDigit_fracDigits d ((List.rdropWhile_prefix _ _).subset hd)
  split at h
  · exact Or.inl (Decimal.isDigit_toDigits c h)
  · rcases List.mem_append.mp h with hwhole | hrest
    · exact Or.inl (Decimal.isDigit_toDigits c hwhole)
    · rcases List.mem_cons.mp hrest with hpoint | hdigit
      · exact Or.inr hpoint
      · exact Or.inl (hfrac c hdigit)

theorem trimmed_ne_nil : Decimal.trimmed p n ≠ [] := by
  have hwhole : Decimal.wholeDigits p n ≠ [] := Nat.toDigits_ne_nil
  rw [Decimal.trimmed_eq, Decimal.plain]
  split
  · exact hwhole
  · exact List.append_ne_nil_of_left_ne_nil hwhole _

/-- The characters of a text are digits, a point and a minus. -/
theorem of_mem_text {x : Finite} {c : Char} (h : c ∈ x.text p j) :
    c.isDigit = true ∨ c = '.' ∨ c = '-' := by
  rcases List.mem_append.mp h with hsign | hdecimal
  · split at hsign
    · exact Or.inr (Or.inr (List.mem_singleton.mp hsign))
    · contradiction
  · rcases of_mem_trimmed hdecimal with hdigit | hpoint
    · exact Or.inl hdigit
    · exact Or.inr (Or.inl hpoint)

theorem text_ne_nil (x : Finite) : x.text p j ≠ [] :=
  List.append_ne_nil_of_right_ne_nil _ trimmed_ne_nil

/-- The text begins with a minus exactly if the number has one. -/
theorem minus_mem_text {x : Finite} : '-' ∈ x.text p j ↔ x.negative = true := by
  have hminus : '-' ∉ Decimal.trimmed p (shortest p x.units j) := by
    intro h
    rcases of_mem_trimmed h with hdigit | hpoint
    · contradiction
    · contradiction
  unfold text
  cases x.negative <;> simp [hminus]

/-- **The text tells the number and its sign.** -/
theorem text_inj (hp : 0 < p) {x y : Finite} : x.text p j = y.text p j ↔ x = y := by
  constructor
  · intro h
    have hnegative : x.negative = y.negative := by
      rw [Bool.eq_iff_iff, ← minus_mem_text (p := p) (j := j), ← minus_mem_text, h]
    unfold text at h
    rw [hnegative] at h
    have hdecimal := Decimal.trimmed_injective hp (List.append_cancel_left h)
    exact ext hnegative (eq_of_shortest x.representable y.representable hdecimal)
  · rintro rfl
    rfl

/-- Numbers with one text are one number. -/
theorem display_inj {x y : Finite} : x.display = y.display ↔ x = y :=
  text_inj (Nat.succ_pos 1073)

-- the number next to a tenth, whose 55 decimals are not needed to tell it; the search
-- begins at the tens
example : String.ofList (Decimal.trimmed 1074
    (shortest 1074 (3602879701896397 * 2 ^ 1019) 1075)) = "0.1" := by
  decide +kernel

end Finite

end Komika.Lib.Binary64
