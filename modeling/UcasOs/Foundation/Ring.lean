import Mathlib.Data.List.Basic
import Mathlib.Logic.Function.Basic

/-!
# Ring buffers

A ring of `n` slots holds the items from `head` up to, not including, `tail`.
One slot stays unused, so that `head = tail` means empty only.
-/

namespace UcasOs.Foundation.Ring

universe u

variable {α : Type u}

def count (n head tail : Nat) : Nat := (tail + n - head) % n

/-- The items of the ring, oldest first. -/
def occupied (n : Nat) (data : Nat → α) (head tail : Nat) : List α :=
  (List.range (count n head tail)).map fun j => data ((head + j) % n)

variable {n head tail : Nat}

@[simp] theorem count_self (n head : Nat) : count n head head = 0 := by
  simp [count]

@[simp] theorem occupied_self (n : Nat) (data : Nat → α) (head : Nat) :
    occupied n data head head = [] := by
  simp [occupied]

private theorem count_cases (hhead : head < n) (htail : tail < n) :
    (head ≤ tail ∧ count n head tail = tail - head) ∨
      (tail < head ∧ count n head tail = tail + n - head) := by
  unfold count
  by_cases h : head ≤ tail
  · left
    have hsplit : tail + n - head = tail - head + n := by omega
    refine ⟨h, ?_⟩
    rw [hsplit, Nat.add_mod_right]
    apply Nat.mod_eq_of_lt
    omega
  · right
    refine ⟨by omega, ?_⟩
    apply Nat.mod_eq_of_lt
    omega

private theorem succ_mod_cases {i : Nat} (hi : i < n) :
    (i + 1 < n ∧ (i + 1) % n = i + 1) ∨ (i + 1 = n ∧ (i + 1) % n = 0) := by
  by_cases h : i + 1 < n
  · exact .inl ⟨h, Nat.mod_eq_of_lt h⟩
  · right
    have heq : i + 1 = n := by omega
    exact ⟨heq, by rw [heq, Nat.mod_self]⟩

theorem count_push (hhead : head < n) (htail : tail < n) (hroom : (tail + 1) % n ≠ head) :
    count n head ((tail + 1) % n) = count n head tail + 1 := by
  have hlt : (tail + 1) % n < n := Nat.mod_lt _ (by omega)
  have hcount := count_cases hhead htail
  have hcount' := count_cases hhead hlt
  rcases succ_mod_cases htail with ⟨hs, ht⟩ | ⟨hs, ht⟩ <;> rw [ht] at hroom hcount' ⊢ <;> omega

theorem count_pop (hhead : head < n) (htail : tail < n) (hne : head ≠ tail) :
    count n head tail = count n ((head + 1) % n) tail + 1 := by
  have hlt : (head + 1) % n < n := Nat.mod_lt _ (by omega)
  have hcount := count_cases hhead htail
  have hcount' := count_cases hlt htail
  rcases succ_mod_cases hhead with ⟨hs, ht⟩ | ⟨hs, ht⟩ <;> rw [ht] at hcount' ⊢ <;> omega

/-- The slot `count` places after `head` is the one at `tail`. -/
theorem add_count (hhead : head < n) (htail : tail < n) :
    (head + count n head tail) % n = tail := by
  rcases count_cases hhead htail with ⟨hle, hc⟩ | ⟨-, hc⟩
  · rw [hc, Nat.add_sub_cancel' hle, Nat.mod_eq_of_lt htail]
  · rw [hc, Nat.add_sub_cancel' (by omega), Nat.add_mod_right, Nat.mod_eq_of_lt htail]

/-- The occupied slots are apart from the one at `tail`. -/
theorem add_lt_count_ne (hhead : head < n) (htail : tail < n) {j : Nat}
    (hj : j < count n head tail) : (head + j) % n ≠ tail := by
  rcases count_cases hhead htail with ⟨hle, hc⟩ | ⟨hlt, hc⟩
  · rw [Nat.mod_eq_of_lt (by omega)]
    omega
  · by_cases hwrap : head + j < n
    · rw [Nat.mod_eq_of_lt hwrap]
      omega
    · have hsplit : head + j = head + j - n + n := by omega
      rw [hsplit, Nat.add_mod_right, Nat.mod_eq_of_lt (by omega)]
      omega

theorem occupied_push (data : Nat → α) (item : α) (hhead : head < n) (htail : tail < n)
    (hroom : (tail + 1) % n ≠ head) :
    occupied n (Function.update data tail item) head ((tail + 1) % n) =
      occupied n data head tail ++ [item] := by
  unfold occupied
  rw [count_push hhead htail hroom, List.range_succ, List.map_append]
  congr 1
  · apply List.map_congr_left
    intro j hj
    exact Function.update_of_ne (add_lt_count_ne hhead htail (List.mem_range.mp hj)) _ _
  · simp [add_count hhead htail]

theorem occupied_pop (data : Nat → α) (hhead : head < n) (htail : tail < n)
    (hne : head ≠ tail) :
    occupied n data head tail = data head :: occupied n data ((head + 1) % n) tail := by
  unfold occupied
  rw [count_pop hhead htail hne, List.range_succ_eq_map, List.map_cons, List.map_map]
  congr 1
  · simp [Nat.mod_eq_of_lt hhead]
  · apply List.map_congr_left
    intro j _
    simp only [Function.comp_apply, Nat.succ_eq_add_one]
    congr 1
    rw [Nat.mod_add_mod]
    congr 1
    omega

end UcasOs.Foundation.Ring
