import Mathlib.Logic.Function.Basic
import UcasOs.Foundation.Word

/-!
# Copying memory

`memcopy` of `arch/mips/pmon/common.c`.  The direction of the copy depends on
which range comes first, so that no source byte is overwritten before it has
been read.
-/

namespace UcasOs.Arch

open UcasOs.Foundation

abbrev Memory := UInt32 → UInt8

/-- `while (n-- > 0) *--t = *--f;` -/
def copyDown : Nat → UInt32 → UInt32 → Memory → Memory
  | 0, _, _, m => m
  | n + 1, f, t, m =>
      let t := t - 1
      let f := f - 1
      copyDown n f t (Function.update m t (m f))

/-- `while (n-- > 0) *t++ = *f++;` -/
def copyUp : Nat → UInt32 → UInt32 → Memory → Memory
  | 0, _, _, m => m
  | n + 1, f, t, m => copyUp n (f + 1) (t + 1) (Function.update m t (m f))

def memcopy (s1 s2 : UInt32) (n : Int) (m : Memory) : Memory :=
  if s2 < s1 then copyDown n.toNat (s2 + UInt32.ofInt n) (s1 + UInt32.ofInt n) m
  else copyUp n.toNat s2 s1 m

/-! ## What is copied -/

/-- The memory after `n` bytes have moved from `s2` on to `s1` on. -/
def moved (s1 s2 : UInt32) (n : Nat) (m : Memory) : Memory := fun a =>
  if s1.toNat ≤ a.toNat ∧ a.toNat < s1.toNat + n then m (s2 + UInt32.ofNat (a.toNat - s1.toNat))
  else m a

variable {s1 s2 : UInt32} {n i : Nat}

/-- A byte of the target is not one that is still to be copied. -/
theorem add_ofNat_ne {j : Nat} (h1 : s1.toNat + i < 2 ^ 32) (h2 : s2.toNat + j < 2 ^ 32)
    (h : s1.toNat + i ≠ s2.toNat + j) : s2 + UInt32.ofNat j ≠ s1 + UInt32.ofNat i := by
  intro heq
  have hval := congrArg UInt32.toNat heq
  rw [Word.toNat_add_ofNat h1, Word.toNat_add_ofNat h2] at hval
  exact h hval.symm

theorem eq_add_ofNat {a : UInt32} (h : a.toNat = s1.toNat + i) : a = s1 + UInt32.ofNat i := by
  apply UInt32.toNat_inj.mp
  have := a.toNat_lt
  rw [Word.toNat_add_ofNat (by omega), h]

theorem copyDown_eq (hlt : s2.toNat < s1.toNat) (h1 : s1.toNat + n ≤ 2 ^ 32) (m : Memory) :
    copyDown n (s2 + UInt32.ofNat n) (s1 + UInt32.ofNat n) m = moved s1 s2 n m := by
  induction n generalizing m with
  | zero =>
      funext a
      rw [moved, if_neg (by omega)]
      rfl
  | succ n ih =>
      rw [copyDown, Word.add_ofNat_succ, Word.add_ofNat_succ]
      simp only [UInt32.add_sub_cancel]
      rw [ih (by omega)]
      funext a
      unfold moved
      by_cases hin : s1.toNat ≤ a.toNat ∧ a.toNat < s1.toNat + n
      · -- the sources of the lower bytes are below the byte just stored
        rw [if_pos hin, if_pos (by omega), Function.update_of_ne]
        exact add_ofNat_ne (by omega) (by omega) (by omega)
      · rw [if_neg hin]
        by_cases hlast : a.toNat = s1.toNat + n
        · rw [if_pos (by omega), hlast, Nat.add_sub_cancel_left, eq_add_ofNat hlast,
            Function.update_self]
        · have hne : a ≠ s1 + UInt32.ofNat n := by
            rintro rfl
            exact hlast (Word.toNat_add_ofNat (by omega))
          rw [if_neg (by omega), Function.update_of_ne hne]

theorem copyUp_eq (hle : s1.toNat ≤ s2.toNat) (h2 : s2.toNat + (i + n) ≤ 2 ^ 32) (m : Memory) :
    copyUp n (s2 + UInt32.ofNat i) (s1 + UInt32.ofNat i) m = fun a =>
      if s1.toNat + i ≤ a.toNat ∧ a.toNat < s1.toNat + (i + n) then
        m (s2 + UInt32.ofNat (a.toNat - s1.toNat))
      else m a := by
  induction n generalizing i m with
  | zero =>
      funext a
      rw [if_neg (by omega)]
      rfl
  | succ n ih =>
      rw [copyUp, ← Word.add_ofNat_succ, ← Word.add_ofNat_succ, ih (by omega)]
      funext a
      by_cases hin : s1.toNat + (i + 1) ≤ a.toNat ∧ a.toNat < s1.toNat + (i + 1 + n)
      · -- the sources of the higher bytes are above the byte just stored
        rw [if_pos hin, if_pos (by omega), Function.update_of_ne]
        exact add_ofNat_ne (by omega) (by omega) (by omega)
      · rw [if_neg hin]
        by_cases hfirst : a.toNat = s1.toNat + i
        · rw [if_pos (by omega), hfirst, Nat.add_sub_cancel_left, eq_add_ofNat hfirst,
            Function.update_self]
        · have hne : a ≠ s1 + UInt32.ofNat i := by
            rintro rfl
            exact hfirst (Word.toNat_add_ofNat (by omega))
          rw [if_neg (by omega), Function.update_of_ne hne]

theorem memcopy_eq (h1 : s1.toNat + n ≤ 2 ^ 32) (h2 : s2.toNat + n ≤ 2 ^ 32) (m : Memory) :
    memcopy s1 s2 n m = moved s1 s2 n m := by
  unfold memcopy
  split
  case isTrue hlt =>
      rw [Word.ofInt_eq_ofNat (by omega), Int.toNat_natCast]
      exact copyDown_eq (UInt32.lt_iff_toNat_lt.mp hlt) h1 m
  case isFalse hge =>
      have hle := UInt32.le_iff_toNat_le.mp (UInt32.not_lt.mp hge)
      have hloop := copyUp_eq (n := n) (i := 0) hle (by omega) m
      have hzero : ∀ a : UInt32, a + UInt32.ofNat 0 = a := UInt32.add_zero
      rw [hzero, hzero] at hloop
      rw [Int.toNat_natCast, hloop]
      funext a
      rw [moved, Nat.zero_add, Nat.add_zero]

/-- The target gets the bytes that the source had, and nothing else changes. -/
theorem memcopy_moves (s1 s2 : UInt32) {n : Int} (hn : 0 ≤ n) (h1 : s1.toNat + n ≤ 2 ^ 32)
    (h2 : s2.toNat + n ≤ 2 ^ 32) (m : Memory) :
    (∀ i : Nat, i < n →
      memcopy s1 s2 n m (s1 + UInt32.ofNat i) = m (s2 + UInt32.ofNat i)) ∧
    ∀ a : UInt32, ¬ (s1.toNat ≤ a.toNat ∧ a.toNat < s1.toNat + n) → memcopy s1 s2 n m a = m a := by
  obtain ⟨k, rfl⟩ := Int.eq_ofNat_of_zero_le hn
  rw [memcopy_eq (by omega) (by omega)]
  constructor
  · intro i hi
    have haddr : (s1 + UInt32.ofNat i).toNat = s1.toNat + i := Word.toNat_add_ofNat (by omega)
    rw [moved, haddr, if_pos (by omega), Nat.add_sub_cancel_left]
  · intro a ha
    rw [moved, if_neg (by omega)]

/-- Three bytes move up by one, over two of themselves. -/
theorem memcopy_moves_overlapping :
    memcopy 1 0 3 (fun a => a.toUInt8) (1 + UInt32.ofNat 2) = 2 := by
  rw [(memcopy_moves 1 0 (show (0 : Int) ≤ 3 by decide) (by decide) (by decide) _).1 2 (by decide)]
  rfl

end UcasOs.Arch
