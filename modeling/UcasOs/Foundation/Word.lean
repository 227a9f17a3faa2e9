import Mathlib.Data.Nat.Bitwise

/-!
# Fields of machine words

Shifts, masks and disjoint unions of bit fields, as division, remainder and
addition.
-/

namespace UcasOs.Foundation.Word

variable {x y k w : Nat}

theorem and_low (x k : Nat) : x &&& (2 ^ k - 1) = x % 2 ^ k :=
  Nat.and_two_pow_sub_one_eq_mod x k

/-- Clearing the low `k` bits of a word of `k + w` bits. -/
theorem and_high (hx : x < 2 ^ (k + w)) : x &&& ((2 ^ w - 1) * 2 ^ k) = x / 2 ^ k * 2 ^ k := by
  apply Nat.eq_of_testBit_eq
  intro i
  rw [Nat.testBit_and, Nat.testBit_mul_two_pow, Nat.testBit_mul_two_pow,
    Nat.testBit_two_pow_sub_one, Nat.testBit_div_two_pow]
  by_cases hk : k ≤ i
  · have hi : i - k + k = i := Nat.sub_add_cancel hk
    by_cases hw : i - k < w
    · simp [hk, hw, hi]
    · have hbit : x.testBit i = false := by
        apply Nat.testBit_lt_two_pow
        calc x < 2 ^ (k + w) := hx
          _ ≤ 2 ^ i := Nat.pow_le_pow_right (by decide) (by omega)
      simp [hw, hi, hbit]
  · simp [hk]

/-- A field put into low bits that are clear. -/
theorem or_low (x : Nat) (hy : y < 2 ^ k) : x * 2 ^ k ||| y = x * 2 ^ k + y := by
  rw [Nat.mul_comm, Nat.two_pow_add_eq_or_of_lt hy]

/-- The remainder, as code that has the quotient writes it. -/
theorem toNat_sub_div_mul (x c : UInt32) : (x - x / c * c).toNat = x.toNat % c.toNat := by
  have hle : x.toNat / c.toNat * c.toNat ≤ x.toNat := Nat.div_mul_le_self _ _
  have hmul : (x / c * c).toNat = x.toNat / c.toNat * c.toNat := by
    rw [UInt32.toNat_mul, UInt32.toNat_div]
    exact Nat.mod_eq_of_lt (lt_of_le_of_lt hle x.toNat_lt)
  rw [UInt32.toNat_sub_of_le _ _ (by rwa [UInt32.le_iff_toNat_le, hmul]), hmul,
    Nat.mod_eq_sub_div_mul]

/-! ## Addresses -/

/-- `i` bytes behind an address, when that is still an address. -/
theorem toNat_add_ofNat {a : UInt32} {i : Nat} (h : a.toNat + i < 2 ^ 32) :
    (a + UInt32.ofNat i).toNat = a.toNat + i := by
  rw [UInt32.toNat_add, UInt32.toNat_ofNat']
  omega

theorem add_ofNat_succ (a : UInt32) (i : Nat) :
    a + UInt32.ofNat (i + 1) = a + UInt32.ofNat i + 1 := by
  rw [UInt32.ofNat_add, ← UInt32.add_assoc]
  rfl

theorem add_ofNat_add (a : UInt32) (i j : Nat) :
    a + UInt32.ofNat (i + j) = a + UInt32.ofNat i + UInt32.ofNat j := by
  rw [UInt32.ofNat_add, UInt32.add_assoc]

theorem ofInt_eq_ofNat {n : Int} (h : 0 ≤ n) : UInt32.ofInt n = UInt32.ofNat n.toNat := by
  apply UInt32.toNat_inj.mp
  rw [UInt32.ofInt, UInt32.toNat_ofNat', UInt32.toNat_ofNat']
  omega

end UcasOs.Foundation.Word
