import UcasOs.Foundation.Layout
import Mathlib.Data.List.TakeWhile
import Mathlib.Data.List.OfFn

/-!
# Strings

`libs/string.c`.  A string argument is the list of its bytes before the
terminating zero; an array of characters is read up to its first zero.
-/

namespace UcasOs.Libs

open UcasOs.Foundation

structure CString where
  bytes : List UInt8
  noZero : 0 ∉ bytes
  deriving DecidableEq

theorem noZero_a : (0 : UInt8) ∉ [0x61] := by decide

def strlen (s : CString) : Nat := s.bytes.length

/-- Only the sign and the zero of the result are used; past its end a list reads as zero. -/
def strcmp : List UInt8 → List UInt8 → Int
  | [], [] => 0
  | [], b :: _ => -(b.toNat : Int)
  | a :: _, [] => a.toNat
  | a :: s, b :: t => if a = b ∧ a ≠ 0 then strcmp s t else a.toNat - b.toNat

def strcpy {n : Nat} (dest : Bytes n) (src : List UInt8) : Bytes n := fun i =>
  if h : i.val < src.length then src.get ⟨i, h⟩
  else if i.val = src.length then 0 else dest i

/-- The index of the first separator, if any. -/
def separate (s : List UInt8) (separator : UInt8) : Option Nat :=
  s.findIdx? (· == separator)

theorem separate_none {s : List UInt8} {c : UInt8} (h : c ∉ s) : separate s c = none := by
  rw [separate, List.findIdx?_eq_none_iff]
  intro b hb
  simp only [beq_eq_false_iff_ne]
  rintro rfl
  exact h hb

theorem separate_append {s : List UInt8} {c : UInt8} (h : c ∉ s) (rest : List UInt8) :
    separate (s ++ c :: rest) c = some s.length := by
  have hnone : s.findIdx? (· == c) = none := separate_none h
  simp [separate, List.findIdx?_append, hnone, List.findIdx?_cons]

/-- What is read of a character array. -/
def untilZero (s : List UInt8) : List UInt8 := s.takeWhile (· ≠ 0)

theorem untilZero_of_noZero {s : List UInt8} (h : 0 ∉ s) : untilZero s = s := by
  rw [untilZero, List.takeWhile_eq_self_iff]
  intro a ha
  simp only [decide_eq_true_eq]
  rintro rfl
  exact h ha

theorem strcmp_eq_zero_iff (s t : List UInt8) : strcmp s t = 0 ↔ untilZero s = untilZero t := by
  induction s, t using strcmp.induct with
  | case1 => simp [strcmp]
  | case2 b t =>
      by_cases hb : b = 0
      · simp [strcmp, untilZero, hb]
      · have : b.toNat ≠ 0 := fun h => hb (UInt8.toNat_inj.mp h)
        simp [strcmp, untilZero, hb, this]
  | case3 a s =>
      by_cases ha : a = 0
      · simp [strcmp, untilZero, ha]
      · have : a.toNat ≠ 0 := fun h => ha (UInt8.toNat_inj.mp h)
        simp [strcmp, untilZero, ha, this]
  | case4 a s b t h ih =>
      obtain ⟨rfl, hne⟩ := h
      simpa [strcmp, untilZero, hne] using ih
  | case5 a s b t h =>
      rw [strcmp, if_neg h, Int.sub_eq_zero, Int.natCast_inj, UInt8.toNat_inj]
      constructor
      · intro hab
        have ha : a = 0 := by
          by_contra hne
          exact h ⟨hab, hne⟩
        simp [untilZero, ← hab, ha]
      · intro heq
        by_cases ha : a = 0
        · by_cases hb : b = 0
          · rw [ha, hb]
          · simp [untilZero, ha, hb] at heq
        · by_cases hb : b = 0
          · simp [untilZero, ha, hb] at heq
          · simp only [untilZero, ha, hb, ne_eq, not_false_eq_true, decide_true,
              List.takeWhile_cons_of_pos, List.cons.injEq] at heq
            exact heq.1

theorem untilZero_append_zero {s : List UInt8} (hs : 0 ∉ s) (t : List UInt8) :
    untilZero (s ++ 0 :: t) = s := by
  have hall : ∀ a ∈ s, decide (a ≠ 0) = true := by
    intro a ha
    simp only [decide_eq_true_eq]
    rintro rfl
    exact hs ha
  rw [untilZero, List.takeWhile_append_of_pos hall]
  simp

/-- An array that has a string at its start and a zero behind it. -/
theorem untilZero_ofFn {n : Nat} {b : Bytes n} {s : List UInt8} (hs : 0 ∉ s) (hlen : s.length < n)
    (hsame : ∀ (j : Fin n) (hj : j.val < s.length), b j = s.get ⟨j, hj⟩)
    (hend : b ⟨s.length, hlen⟩ = 0) : untilZero (List.ofFn b) = s := by
  have htake : (List.ofFn b).take (s.length + 1) = s ++ [0] := by
    apply List.ext_getElem
    · simp
      omega
    · intro i hi hi'
      simp only [List.length_append, List.length_singleton] at hi'
      rw [List.getElem_take, List.getElem_ofFn, List.getElem_append]
      by_cases h : i < s.length
      · rw [dif_pos h, hsame ⟨i, by omega⟩ h]
        rfl
      · obtain rfl : i = s.length := by omega
        simp [hend]
  rw [← List.take_append_drop (s.length + 1) (List.ofFn b), htake, List.append_assoc]
  exact untilZero_append_zero hs _

theorem untilZero_strcpy {n : Nat} (dest : Bytes n) {src : List UInt8} (hsrc : 0 ∉ src)
    (hlen : src.length < n) : untilZero (List.ofFn (strcpy dest src)) = src := by
  apply untilZero_ofFn hsrc hlen
  · intro j hj
    exact dif_pos hj
  · simp [strcpy]

end UcasOs.Libs
