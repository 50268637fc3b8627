import Mathlib.Data.Nat.Bitwise

/-!
# Blocks of addresses

`base/len`: the addresses of `w` bits whose first `len` bits are those of `base`.

* `mem_iff_mask` — a block is what a test against a mask of leading ones finds.

Addresses are natural numbers below `2 ^ w`, so one definition serves both families.  A
block is given by the quotient that its addresses have in common, which is the prefix;
the test that programs use, a bitwise conjunction with a mask and a comparison, is
proved to be the same.
-/

namespace Komika.Lib.AddressBlock

/-- A block in the notation `base/len`; the bits of `base` behind the prefix do not
matter. -/
structure Block (w : Nat) where
  base : Nat
  len : Nat
deriving DecidableEq, Repr

variable {w : Nat}

instance : Membership Nat (Block w) where
  mem b a := a / 2 ^ (w - b.len) = b.base / 2 ^ (w - b.len)

variable {a : Nat} {b : Block w}

/-- To be in a block is to share its prefix. -/
theorem mem_def : a ∈ b ↔ a / 2 ^ (w - b.len) = b.base / 2 ^ (w - b.len) := Iff.rfl

instance : Decidable (a ∈ b) := decidable_of_iff _ mem_def.symm

/-- The bits of `a` from `k` on. -/
theorem and_leading {n k : Nat} (hk : k ≤ n) (ha : a < 2 ^ n) :
    a &&& (2 ^ (n - k) - 1) <<< k = 2 ^ k * (a / 2 ^ k) := by
  rw [Nat.mul_comm, ← Nat.shiftRight_eq_div_pow, ← Nat.shiftLeft_eq]
  apply Nat.eq_of_testBit_eq
  intro i
  rw [Nat.testBit_and, Nat.testBit_shiftLeft, Nat.testBit_shiftLeft, Nat.testBit_shiftRight,
    Nat.testBit_two_pow_sub_one]
  by_cases hi : k ≤ i
  · have hsum : k + (i - k) = i := Nat.add_sub_cancel' hi
    rw [hsum]
    by_cases hn : i < n
    · have hlt : i - k < n - k := by omega
      simp [hi, hlt]
    · have hbit : a.testBit i = false :=
        Nat.testBit_lt_two_pow (ha.trans_le (Nat.pow_le_pow_right (by omega) (by omega)))
      simp [hbit]
  · simp [hi]

/-- A test against the mask of the leading `b.len` ones. -/
theorem mem_iff_mask (hlen : b.len ≤ w) (h : 2 ^ (w - b.len) ∣ b.base) (ha : a < 2 ^ w) :
    a ∈ b ↔ a &&& (2 ^ b.len - 1) <<< (w - b.len) = b.base := by
  have hmask : a &&& (2 ^ b.len - 1) <<< (w - b.len) =
      2 ^ (w - b.len) * (a / 2 ^ (w - b.len)) := by
    have hand := and_leading (Nat.sub_le w b.len) ha
    rwa [Nat.sub_sub_self hlen] at hand
  obtain ⟨q, hq⟩ := h
  have hpos : 0 < 2 ^ (w - b.len) := Nat.two_pow_pos _
  rw [mem_def, hmask, hq, Nat.mul_div_cancel_left q hpos]
  exact (Nat.mul_right_inj hpos.ne').symm

end Komika.Lib.AddressBlock
