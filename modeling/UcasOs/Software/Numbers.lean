import UcasOs.Libs.Rendering
import UcasOs.Software.Shell

/-!
# Numbers printed and read

`atoi` of the shell reads what `mini_itoa` prints in radix ten.
-/

namespace UcasOs.Software

open UcasOs.Libs

theorem atoiFrom_digit (res : BitVec 32) (uppercase : Bool) {d : Nat} (hd : d < 10)
    (s : List UInt8) :
    atoiFrom res (digitChar uppercase (UInt32.ofNat d) :: s) =
      atoiFrom (res * 10 + BitVec.ofNat 32 d) s := by
  have hall : ∀ u : Bool, ∀ i : Fin 10,
      0x30 ≤ digitChar u (UInt32.ofNat i) ∧ digitChar u (UInt32.ofNat i) ≤ 0x39 ∧
        (digitChar u (UInt32.ofNat i)).toNat - 0x30 = i := by decide
  obtain ⟨hle, hle', hvalue⟩ := hall uppercase ⟨d, hd⟩
  rw [atoiFrom, if_pos ⟨hle, hle'⟩, hvalue]

/-- The digits of a number, the highest first. -/
theorem atoiFrom_digits (uppercase : Bool) (n : Nat) (s : List UInt8) :
    atoiFrom 0
        (((Nat.digits 10 n).map fun d => digitChar uppercase (UInt32.ofNat d)).reverse ++ s) =
      atoiFrom (BitVec.ofNat 32 n) s := by
  induction n using Nat.strong_induction_on generalizing s with
  | _ n ih =>
      by_cases hzero : n = 0
      · subst hzero
        rw [Nat.digits_zero]
        rfl
      · have hpos : 0 < n := Nat.pos_of_ne_zero hzero
        rw [Nat.digits_def' (by decide) hpos, List.map_cons, List.reverse_cons, List.append_assoc,
          List.singleton_append, ih (n / 10) (by omega),
          atoiFrom_digit _ _ (Nat.mod_lt n (by decide))]
        congr 1
        have hvalue : n / 10 * 10 + n % 10 = n := Nat.div_add_mod' n 10
        conv_rhs => rw [← hvalue, BitVec.ofNat_add, BitVec.ofNat_mul]
        rfl

theorem atoi_numeral (uppercase : Bool) (n : Nat) :
    atoi (numeral 10 uppercase n) = BitVec.ofNat 32 n := by
  unfold atoi numeral
  split
  case isTrue hzero =>
      subst hzero
      decide
  case isFalse =>
      have h := atoiFrom_digits uppercase n []
      rwa [List.append_nil] at h

theorem atoi_padLeft (zeroPad : Nat) (s : List UInt8) : atoi (padLeft zeroPad s) = atoi s := by
  unfold atoi padLeft
  induction zeroPad - s.length with
  | zero => rfl
  | succ n ih =>
      rw [List.replicate_succ, List.cons_append, atoiFrom, if_pos (by decide)]
      exact ih

/-- `atoi` reads every word back that is printed in radix ten, whatever its padding, unless it is
printed with a sign, which is no digit. -/
theorem atoi_printed (value : UInt32) (uppercase unsig : Bool) (zeroPad : Nat) :
    atoi (miniItoa value 10 uppercase unsig zeroPad) =
      if wordValue unsig value < 0 then -1 else value.toBitVec := by
  rw [miniItoa_eq (by decide) (by decide), show (10 : UInt32).toNat = 10 from rfl, signOf]
  by_cases hneg : wordValue unsig value < 0
  · rw [if_pos hneg, if_pos hneg]
    rfl
  · have hword : (wordValue unsig value).natAbs = _ := natAbs_wordValue value
    rw [if_neg (mt (wordValue_neg_iff value).mpr hneg)] at hword
    rw [if_neg hneg, if_neg hneg, List.nil_append, atoi_padLeft, atoi_numeral, hword]
    apply BitVec.eq_of_toNat_eq
    rw [BitVec.toNat_ofNat]
    exact Nat.mod_eq_of_lt value.toNat_lt

end UcasOs.Software
