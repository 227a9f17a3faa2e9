import UcasOs.Libs.Slist
import UcasOs.Foundation.Run

/-!
# Static linked lists as stacks

Seen from outside, a static list is a stack of free indices: allocation pops
it, and freeing an allocated index pushes that index.  Requests that make no
sense, such as freeing twice or freeing an index out of range, are answered
with 0 and change nothing.
-/

namespace UcasOs.Libs

open UcasOs.Foundation

inductive SlistCall where
  | alloc
  | free (index : Int)
  deriving DecidableEq, Repr

/-- What the call returns, and the list after it. -/
def SlistCall.run (n : Nat) : SlistCall → Slist → Nat × Slist
  | alloc, l => slistAlloc l
  | free index, l =>
      let (freed, l) := slistFree l index n
      (freed.toNat, l)

/-- The same calls on a stack of the free indices among `1..n-1`. -/
def SlistCall.runStack (n : Nat) : SlistCall → List Nat → Nat × List Nat
  | alloc, [] => (0, [])
  | alloc, t :: stack => (t, stack)
  | free index, stack =>
      if 1 ≤ index ∧ index < n ∧ index.toNat ∉ stack then (1, index.toNat :: stack)
      else (0, stack)

/-- Calls labelled with their results. -/
def slistSystem (n : Nat) : Lts Slist (SlistCall × Nat) where
  step l call l' := call.1.run n l = (call.2, l')

def stackSystem (n : Nat) : Lts (List Nat) (SlistCall × Nat) where
  step free call free' := call.1.runStack n free = (call.2, free')

/-- What a caller relies on when the stack of free indices is `free`. -/
structure ServesFrom (l : Slist) (n : Nat) (free : List Nat) : Prop where
  /-- from node 0 the cursors lead through `free` and back -/
  chain : Chain l (l 0).cursor free
  once : free.Nodup
  complete : ∀ i, i ∈ free ↔ 1 ≤ i ∧ i < n ∧ (l i).valid = false
  exhausted : (∀ i, 1 ≤ i → i < n → (l i).valid = true) → slistAlloc l = (0, l)
  fresh : (∃ i, 1 ≤ i ∧ i < n ∧ (l i).valid = false) →
    free.head? = some (slistAlloc l).1 ∧ 1 ≤ (slistAlloc l).1 ∧ (slistAlloc l).1 < n ∧
      (l (slistAlloc l).1).valid = false
  freed : ∀ index : Int, (slistFree l index n).1 = true ↔
    1 ≤ index ∧ index < n ∧ (l index.toNat).valid = true
  refused : ∀ index, (slistFree l index n).1 = false → (slistFree l index n).2 = l

section

variable {l : Slist} {n : Nat} {free : List Nat}

theorem slistFree_eq_true {index : Int} :
    (slistFree l index n).1 = true ↔ slistIsValid l index n = true := by
  cases hvalid : slistIsValid l index n with
  | true => simp [slistFree, hvalid]
  | false => simp [slistFree, hvalid]

theorem slistIsValid_eq_true {index : Int} :
    slistIsValid l index n = true ↔ 1 ≤ index ∧ index < n ∧ (l index.toNat).valid = true := by
  unfold slistIsValid
  split
  case isTrue hout =>
      constructor
      · intro h
        cases h
      · rintro ⟨hlow, hhigh, -⟩
        omega
  case isFalse hin =>
      constructor
      · intro hvalid
        exact ⟨by omega, by omega, hvalid⟩
      · intro h
        exact h.2.2

theorem Implements.servesFrom (h : Implements l n free) : ServesFrom l n free where
  chain := h.chain
  once := h.nodup
  complete := h.mem_iff
  exhausted hall := by
    cases free with
    | nil => exact slistAlloc_nil h
    | cons t rest =>
        obtain ⟨h1, hn, hvalid⟩ := (h.mem_iff t).mp (by simp)
        exact nomatch (hall t h1 hn).symm.trans hvalid
  fresh hsome := by
    cases free with
    | nil =>
        obtain ⟨i, hi⟩ := hsome
        exact nomatch (h.mem_iff i).mpr hi
    | cons t rest =>
        obtain ⟨ht, -⟩ := slistAlloc_cons h
        rw [ht]
        exact ⟨rfl, (h.mem_iff t).mp (by simp)⟩
  freed _ := slistFree_eq_true.trans slistIsValid_eq_true
  refused index hfreed := by
    have hinvalid : slistIsValid l index n = false := by
      rw [← Bool.not_eq_true, ← slistFree_eq_true, hfreed]
      exact Bool.false_ne_true
    rw [slistFree_invalid hinvalid]

/-- One call, on the list and on the stack. -/
theorem Implements.run (h : Implements l n free) (call : SlistCall) :
    (call.runStack n free).1 = (call.run n l).1 ∧
      Implements (call.run n l).2 n (call.runStack n free).2 := by
  cases call with
  | alloc =>
      cases free with
      | nil =>
          rw [SlistCall.run, slistAlloc_nil h]
          exact ⟨rfl, h⟩
      | cons t rest =>
          obtain ⟨ht, hrest, -⟩ := slistAlloc_cons h
          exact ⟨ht.symm, hrest⟩
  | free index =>
      by_cases hvalid : slistIsValid l index n = true
      · obtain ⟨i, rfl, halloc⟩ := slistIsValid_iff.mp hvalid
        obtain ⟨hfreed, hpushed, -⟩ := slistFree_allocated h halloc
        have hnot : i ∉ free := fun hmem => h.not_allocated hmem halloc
        have hstack : (SlistCall.free i).runStack n free = (1, i :: free) := by
          obtain ⟨h1, hn, -⟩ := halloc
          exact if_pos ⟨by omega, by omega, hnot⟩
        rw [hstack]
        refine ⟨?_, hpushed⟩
        simp [SlistCall.run, hfreed]
      · have hstack : (SlistCall.free index).runStack n free = (0, free) := by
          refine if_neg ?_
          rintro ⟨hlow, hhigh, hnot⟩
          -- an index in range that is not free is allocated
          apply hvalid
          refine slistIsValid_eq_true.mpr ⟨hlow, hhigh, ?_⟩
          by_contra hfree
          exact hnot ((h.mem_iff _).mpr ⟨by omega, by omega, by simpa using hfree⟩)
        have hlist : slistFree l index n = (false, l) :=
          slistFree_invalid (by simpa using hvalid)
        rw [hstack, SlistCall.run, hlist]
        exact ⟨rfl, h⟩

end

/-- After any calls the list answers as the stack does that began with `1..n-1`. -/
theorem slist_refines_stack (l : Slist) {n : Nat} (hn : 1 ≤ n) {calls : List (SlistCall × Nat)}
    {l' : Slist} (run : (slistSystem n).Run (slistInit l n) calls l') :
    ∃ free, (stackSystem n).Run (List.range' 1 (n - 1)) calls free ∧ ServesFrom l' n free := by
  obtain ⟨free, hstack, himpl⟩ := run.simulate (A := stackSystem n)
    (R := fun l free => Implements l n free) (I := fun _ => True) (P := fun _ => True)
    (fun _ _ _ _ _ => trivial) (fun _ _ _ _ _ _ => trivial)
    (fun l free call l' _ himpl hstep _ => by
      obtain ⟨hresult, hnext⟩ := himpl.run call.1
      rw [show call.1.run n l = (call.2, l') from hstep] at hresult hnext
      exact ⟨_, Prod.ext hresult rfl, hnext⟩)
    trivial (slistInit_implements hn) trivial
  exact ⟨free, hstack, himpl.servesFrom⟩

/-- Freeing twice, in a list of three nodes. -/
theorem slist_refines_stack_double_free :
    ∃ free, (stackSystem 3).Run [1, 2] ([(.alloc, 1)] ++ [(.free 1, 1)] ++ [(.free 1, 0)]) free ∧
      ServesFrom (slistFree (slistAlloc (slistInit (fun _ => ⟨false, 0⟩) 3)).2 1 3).2 3 free :=
  slist_refines_stack (fun _ => ⟨false, 0⟩) (by decide) (.snoc (.snoc (.single rfl) rfl) rfl)

end UcasOs.Libs
