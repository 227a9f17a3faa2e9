import Mathlib.Data.Finset.Card
import Mathlib.Data.Finset.Range
import Mathlib.Data.Finset.Filter
import Mathlib.Logic.Function.Basic
import Mathlib.Data.Nat.Bitwise

/-!
# Bitmaps in machine words

A map of `32 * n` bits kept in `n` words: bit `k` of the map is bit `k % 32` of
word `k / 32`.
-/

namespace UcasOs.Foundation

def bitOf (w : UInt32) (j : Nat) : Bool := w.toNat.testBit j

theorem toNat_one_shiftLeft {j : Nat} (hj : j < 32) :
    ((1 : UInt32) <<< UInt32.ofNat j).toNat = 2 ^ j := by
  have hpow : 2 ^ j < 2 ^ 32 := Nat.pow_lt_pow_right (by decide) hj
  rw [UInt32.toNat_shiftLeft, UInt32.toNat_ofNat', Nat.mod_eq_of_lt (show j < 2 ^ 32 by omega),
    Nat.mod_eq_of_lt hj, Nat.shiftLeft_eq]
  simpa using Nat.mod_eq_of_lt hpow

theorem bitOf_set (w : UInt32) {j : Nat} (hj : j < 32) (k : Nat) :
    bitOf (w ||| 1 <<< UInt32.ofNat j) k = (decide (k = j) || bitOf w k) := by
  unfold bitOf
  rw [UInt32.toNat_or, Nat.testBit_or, toNat_one_shiftLeft hj, Nat.testBit_two_pow, Bool.or_comm]
  simp only [eq_comm]

theorem bitOf_clear (w : UInt32) {j : Nat} (hj : j < 32) (k : Nat) :
    bitOf (w &&& ~~~(1 <<< UInt32.ofNat j)) k = (!decide (k = j) && bitOf w k) := by
  unfold bitOf
  rw [UInt32.toNat_and, Nat.testBit_and, UInt32.toNat_not, toNat_one_shiftLeft hj]
  have hpow : 2 ^ j < 2 ^ 32 := Nat.pow_lt_pow_right (by decide) hj
  have hnot : UInt32.size - 1 - 2 ^ j = 2 ^ 32 - (2 ^ j + 1) := by
    simp only [UInt32.size]; omega
  rw [hnot, Nat.testBit_two_pow_sub_succ hpow, Nat.testBit_two_pow]
  by_cases hk : k < 32
  · simp [hk, Bool.and_comm, eq_comm]
  · have : w.toNat.testBit k = false := by
      apply Nat.testBit_lt_two_pow
      exact lt_of_lt_of_le w.toNat_lt (Nat.pow_le_pow_right (by decide) (by omega))
    simp [this]

theorem bitOf_shift (w : UInt32) (k : Nat) : bitOf (w >>> 1) k = bitOf w (k + 1) := by
  unfold bitOf
  rw [UInt32.toNat_shiftRight, Nat.testBit_shiftRight]
  simp [Nat.add_comm]

theorem bitOf_low (w : UInt32) : w &&& 1 ≠ 0 ↔ bitOf w 0 = true := by
  unfold bitOf
  rw [ne_eq, ← UInt32.toNat_inj, UInt32.toNat_and]
  simp [Nat.and_one_is_mod, Nat.testBit_zero]

abbrev Bitmap (n : Nat) := Fin n → UInt32

namespace Bitmap

variable {n : Nat}

def mem (m : Bitmap n) (k : Nat) : Bool :=
  if h : k / 32 < n then bitOf (m ⟨k / 32, h⟩) (k % 32) else false

def set (m : Bitmap n) (i : Fin n) (j : Nat) : Bitmap n :=
  Function.update m i (m i ||| 1 <<< UInt32.ofNat j)

def clear (m : Bitmap n) (i : Fin n) (j : Nat) : Bitmap n :=
  Function.update m i (m i &&& ~~~(1 <<< UInt32.ofNat j))

theorem mem_word (m : Bitmap n) (i : Fin n) {j : Nat} (hj : j < 32) :
    m.mem (i * 32 + j) = bitOf (m i) j := by
  have hi : (i * 32 + j) / 32 = i := by omega
  have hmod : (i * 32 + j) % 32 = j := by omega
  simp [mem, hi, hmod]

theorem mem_update (m : Bitmap n) (i : Fin n) (w : UInt32) (k : Nat) :
    mem (Function.update m i w) k = if k / 32 = i then bitOf w (k % 32) else m.mem k := by
  unfold mem
  split
  case isTrue h =>
      by_cases hi : k / 32 = i
      · simp [hi]
      · rw [Function.update_of_ne (fun heq => hi (by rw [← heq])), if_neg hi]
  case isFalse h =>
      rw [if_neg]
      omega

theorem mem_set (m : Bitmap n) (i : Fin n) {j : Nat} (hj : j < 32) (k : Nat) :
    (m.set i j).mem k = (decide (k = i * 32 + j) || m.mem k) := by
  rw [set, mem_update]
  split
  case isTrue hi =>
      have hk : k = i * 32 + k % 32 := by omega
      have hword := mem_word m i (show k % 32 < 32 by omega)
      rw [← hk] at hword
      rw [bitOf_set _ hj, hword]
      congr 1
      apply decide_eq_decide.mpr
      omega
  case isFalse hi =>
      have : k ≠ i * 32 + j := by omega
      simp [this]

theorem mem_clear (m : Bitmap n) (i : Fin n) {j : Nat} (hj : j < 32) (k : Nat) :
    (m.clear i j).mem k = (!decide (k = i * 32 + j) && m.mem k) := by
  rw [clear, mem_update]
  split
  case isTrue hi =>
      have hk : k = i * 32 + k % 32 := by omega
      have hword := mem_word m i (show k % 32 < 32 by omega)
      rw [← hk] at hword
      rw [bitOf_clear _ hj, hword]
      congr 2
      apply decide_eq_decide.mpr
      omega
  case isFalse hi =>
      have : k ≠ i * 32 + j := by omega
      simp [this]

end Bitmap

/-! ## Counting -/

/-- How many of the first `n` bits are set. -/
def countBits (bit : Nat → Bool) (n : Nat) : Nat := ((Finset.range n).filter (bit ·)).card

theorem countBits_le (bit : Nat → Bool) (n : Nat) : countBits bit n ≤ n := by
  simpa [countBits] using Finset.card_filter_le (Finset.range n) (bit · = true)

theorem countBits_set {bit bit' : Nat → Bool} {n k : Nat} (hk : k < n) (hclear : bit k = false)
    (hset : ∀ i, bit' i = (decide (i = k) || bit i)) :
    countBits bit' n = countBits bit n + 1 := by
  have hinsert : (Finset.range n).filter (bit' ·) =
      insert k ((Finset.range n).filter (bit ·)) := by
    ext i
    simp only [Finset.mem_filter, Finset.mem_insert, Finset.mem_range, hset, Bool.or_eq_true,
      decide_eq_true_eq]
    constructor
    · rintro ⟨hi, rfl | hbit⟩
      · exact .inl rfl
      · exact .inr ⟨hi, hbit⟩
    · rintro (rfl | ⟨hi, hbit⟩)
      · exact ⟨hk, .inl rfl⟩
      · exact ⟨hi, .inr hbit⟩
  rw [countBits, hinsert, Finset.card_insert_of_notMem (by simp [hclear]), countBits]

theorem countBits_clear {bit bit' : Nat → Bool} {n k : Nat} (hk : k < n) (hset : bit k = true)
    (hclear : ∀ i, bit' i = (!decide (i = k) && bit i)) :
    countBits bit' n + 1 = countBits bit n := by
  refine (countBits_set hk (by simp [hclear]) (fun i => ?_)).symm
  by_cases hi : i = k
  · simp [hi, hset]
  · simp [hclear, hi]

theorem countBits_one {bit : Nat → Bool} {n : Nat} (hn : 0 < n)
    (h : ∀ i < n, bit i = decide (i = 0)) : countBits bit n = 1 := by
  have hsingle : (Finset.range n).filter (bit ·) = {0} := by
    ext i
    simp only [Finset.mem_filter, Finset.mem_range, Finset.mem_singleton]
    constructor
    · rintro ⟨hi, hbit⟩
      rwa [h i hi, decide_eq_true_eq] at hbit
    · rintro rfl
      exact ⟨hn, by simp [h 0 hn]⟩
  rw [countBits, hsingle, Finset.card_singleton]

end UcasOs.Foundation
