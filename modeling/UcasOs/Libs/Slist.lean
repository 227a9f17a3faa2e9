import Mathlib.Data.List.Nodup
import Mathlib.Data.Finset.Card
import Mathlib.Data.Finset.Range
import Mathlib.Logic.Function.Basic

/-!
# Static linked lists

`libs/slist.c`: an array of nodes whose `cursor` fields chain the free indices
into a circle through node 0.  The pids, page-table slots, physical frames,
swap units and file descriptors are all handed out by such lists.  A list of
length `n` implements a stack of the free indices in `1..n-1`.
-/

namespace UcasOs.Libs

structure Node where
  valid : Bool
  cursor : Nat
  deriving DecidableEq, Repr

abbrev Slist := Nat → Node

def slistInit (l : Slist) (length : Nat) : Slist := fun i =>
  if i < length then
    { valid := i = 0, cursor := if i + 1 = length then 0 else i + 1 }
  else l i

def slistIsInsufficient (l : Slist) : Bool := (l 0).cursor = 0

def slistIsValid (l : Slist) (index : Int) (length : Nat) : Bool :=
  if index ≤ 0 ∨ index ≥ length then false else (l index.toNat).valid

/-- The allocated index, or 0 when the list is exhausted. -/
def slistAlloc (l : Slist) : Nat × Slist :=
  let t := (l 0).cursor
  if slistIsInsufficient l then (0, l)
  else
    let l := Function.update l 0 { l 0 with cursor := (l t).cursor }
    (t, Function.update l t { l t with valid := true })

def slistFree (l : Slist) (index : Int) (length : Nat) : Bool × Slist :=
  let t := (l 0).cursor
  if slistIsValid l index length then
    let l := Function.update l 0 { l 0 with cursor := index.toNat }
    (true, Function.update l index.toNat { valid := false, cursor := t })
  else (false, l)

/-! ## The stack of free indices -/

/-- Following `cursor` from the index `c` visits `free` and arrives at 0. -/
def Chain (l : Slist) : Nat → List Nat → Prop
  | c, [] => c = 0
  | c, i :: free => c = i ∧ Chain l (l i).cursor free

theorem Chain.congr {l l' : Slist} {c : Nat} {free : List Nat} (h : Chain l c free)
    (hcursor : ∀ i ∈ free, (l' i).cursor = (l i).cursor) : Chain l' c free := by
  induction free generalizing c with
  | nil => exact h
  | cons i free ih =>
      obtain ⟨rfl, hrest⟩ := h
      refine ⟨rfl, ?_⟩
      rw [hcursor c (by simp)]
      exact ih hrest (fun j hj => hcursor j (by simp [hj]))

/-- `l` implements the stack `free` over the indices `1..n-1`. -/
structure Implements (l : Slist) (n : Nat) (free : List Nat) : Prop where
  chain : Chain l (l 0).cursor free
  nodup : free.Nodup
  mem_iff : ∀ i, i ∈ free ↔ 1 ≤ i ∧ i < n ∧ (l i).valid = false

/-- An index currently handed out. -/
def Allocated (l : Slist) (n i : Nat) : Prop :=
  1 ≤ i ∧ i < n ∧ (l i).valid = true

instance (l : Slist) (n i : Nat) : Decidable (Allocated l n i) :=
  inferInstanceAs (Decidable (_ ∧ _ ∧ _))

section

variable {l : Slist} {n : Nat} {free : List Nat}

theorem slistIsValid_iff {index : Int} :
    slistIsValid l index n = true ↔
      ∃ i : Nat, index = i ∧ Allocated l n i := by
  unfold slistIsValid Allocated
  split
  · rename_i hout
    simp only [Bool.false_eq_true, false_iff, not_exists, not_and]
    intro i hi h1 hn
    omega
  · rename_i hin
    constructor
    · intro hv
      exact ⟨index.toNat, by omega, by omega, by omega, hv⟩
    · rintro ⟨i, rfl, -, -, hv⟩
      simpa using hv

theorem slistIsValid_natCast {i : Nat} :
    slistIsValid l i n = true ↔ Allocated l n i := by
  rw [slistIsValid_iff]
  constructor
  · rintro ⟨j, hj, h⟩
    have : i = j := by omega
    exact this ▸ h
  · intro h
    exact ⟨i, rfl, h⟩

theorem slistInit_chain (k : Nat) (hk : k < n) :
    Chain (slistInit l n) ((slistInit l n) k).cursor (List.range' (k + 1) (n - 1 - k)) := by
  obtain ⟨m, hm⟩ : ∃ m, m = n - 1 - k := ⟨_, rfl⟩
  rw [← hm]
  induction m generalizing k with
  | zero =>
      have hend : k + 1 = n := by omega
      simp [Chain, slistInit, hk, hend]
  | succ m ih =>
      have hne : k + 1 ≠ n := by omega
      rw [List.range'_succ]
      refine ⟨by simp [slistInit, hk, hne], ?_⟩
      exact ih (k + 1) (by omega) (by omega)

theorem slistInit_implements (hn : 1 ≤ n) :
    Implements (slistInit l n) n (List.range' 1 (n - 1)) := by
  refine ⟨?_, List.nodup_range', fun i => ?_⟩
  · simpa using slistInit_chain 0 (by omega)
  · simp only [List.mem_range'_1, slistInit]
    constructor
    · rintro ⟨h1, h2⟩
      have h3 : i < n := by omega
      have h4 : i ≠ 0 := by omega
      simp [h1, h3, h4]
    · rintro ⟨h1, h2, -⟩
      omega

theorem Implements.allocated_of_nil (h : Implements l n []) {i : Nat} (h1 : 1 ≤ i) (hn : i < n) :
    Allocated l n i := by
  refine ⟨h1, hn, ?_⟩
  by_contra hvalid
  have hmem := (h.mem_iff i).mpr ⟨h1, hn, by simpa using hvalid⟩
  cases hmem

theorem Implements.not_allocated (h : Implements l n free) {i : Nat} (hi : i ∈ free) :
    ¬ Allocated l n i := by
  intro ha
  have hvalid := ((h.mem_iff i).mp hi).2.2
  rw [ha.2.2] at hvalid
  cases hvalid

theorem slistAlloc_nil (h : Implements l n []) : slistAlloc l = (0, l) := by
  have hcursor : (l 0).cursor = 0 := h.chain
  simp [slistAlloc, slistIsInsufficient, hcursor]

theorem slistAlloc_cons {t : Nat} (h : Implements l n (t :: free)) :
    (slistAlloc l).1 = t ∧ Implements (slistAlloc l).2 n free ∧ 1 ≤ t ∧ t < n ∧
      ∀ i, Allocated (slistAlloc l).2 n i ↔ i = t ∨ Allocated l n i := by
  have hcursor : (l 0).cursor = t := h.chain.1
  have hrest : Chain l (l t).cursor free := h.chain.2
  obtain ⟨h1, htn, hvalid⟩ := (h.mem_iff t).mp (by simp)
  have ht0 : t ≠ 0 := by omega
  have hfresh : t ∉ free := (List.nodup_cons.mp h.nodup).1
  have hzero : 0 ∉ free := by
    intro hmem
    have := (h.mem_iff 0).mp (by simp [hmem])
    omega
  have hsome : slistIsInsufficient l = false := by
    simp [slistIsInsufficient, hcursor, ht0]
  have heq : slistAlloc l = (t, Function.update
      (Function.update l 0 { l 0 with cursor := (l t).cursor }) t
        { l t with valid := true }) := by
    simp [slistAlloc, hsome, hcursor, Function.update_of_ne ht0]
  rw [heq]
  refine ⟨rfl, ⟨?_, (List.nodup_cons.mp h.nodup).2, fun i => ?_⟩, h1, htn, fun i => ?_⟩
  · have hstart : (Function.update (Function.update l 0
        { l 0 with cursor := (l t).cursor }) t { l t with valid := true } 0).cursor =
        (l t).cursor := by
      rw [Function.update_of_ne (Ne.symm ht0), Function.update_self]
    rw [hstart]
    refine hrest.congr fun i hi => ?_
    have hit : i ≠ t := fun he => hfresh (he ▸ hi)
    have hi0 : i ≠ 0 := fun he => hzero (he ▸ hi)
    simp [hit, hi0]
  · by_cases hit : i = t
    · subst hit
      simp [hfresh]
    · have hmem : i ∈ free ↔ 1 ≤ i ∧ i < n ∧ (l i).valid = false := by
        rw [← h.mem_iff i]
        simp [hit]
      rw [hmem]
      by_cases hi0 : i = 0
      · simp [hi0]
      · simp [Function.update_of_ne hit, Function.update_of_ne hi0]
  · unfold Allocated
    by_cases hit : i = t
    · subst hit
      simp [h1, htn]
    · by_cases hi0 : i = 0
      · simp [hi0, Ne.symm ht0]
      · simp [hit, hi0]

theorem slistFree_allocated {i : Nat} (h : Implements l n free) (ha : Allocated l n i) :
    (slistFree l i n).1 = true ∧ Implements (slistFree l i n).2 n (i :: free) ∧
      ∀ j, Allocated (slistFree l i n).2 n j ↔ j ≠ i ∧ Allocated l n j := by
  obtain ⟨h1, hin, hvalid⟩ := ha
  have hi0 : i ≠ 0 := by omega
  have hfresh : i ∉ free := by
    intro hmem
    simp [((h.mem_iff i).mp hmem).2.2] at hvalid
  have hzero : 0 ∉ free := by
    intro hmem
    have := (h.mem_iff 0).mp hmem
    omega
  have hv : slistIsValid l i n = true := slistIsValid_natCast.mpr ⟨h1, hin, hvalid⟩
  have heq : slistFree l i n = (true, Function.update
      (Function.update l 0 { l 0 with cursor := i }) i
        { valid := false, cursor := (l 0).cursor }) := by
    simp [slistFree, hv]
  rw [heq]
  refine ⟨rfl, ⟨?_, List.nodup_cons.mpr ⟨hfresh, h.nodup⟩, fun j => ?_⟩, fun j => ?_⟩
  · refine ⟨by simp [Function.update_of_ne (Ne.symm hi0)], ?_⟩
    simp only [Function.update_self]
    refine h.chain.congr fun j hj => ?_
    have hji : j ≠ i := fun he => hfresh (he ▸ hj)
    have hj0 : j ≠ 0 := fun he => hzero (he ▸ hj)
    simp [hji, hj0]
  · rw [List.mem_cons]
    by_cases hji : j = i
    · subst hji
      simp [h1, hin]
    · rw [h.mem_iff]
      by_cases hj0 : j = 0
      · simp [hj0, Ne.symm hi0]
      · simp [hji, hj0]
  · unfold Allocated
    by_cases hji : j = i
    · subst hji
      simp
    · by_cases hj0 : j = 0
      · simp [hj0]
      · simp [hji, hj0]

theorem slistFree_invalid {index : Int} (h : slistIsValid l index n = false) :
    slistFree l index n = (false, l) := by
  simp [slistFree, h]

end

end UcasOs.Libs
