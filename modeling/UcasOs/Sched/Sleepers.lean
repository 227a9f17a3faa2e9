import UcasOs.Sched.Steps

/-!
# Waking the sleepers

`check_sleeping` walks the sleep queue while it moves tasks out of it.  A task
that has moved is the last of the ready queue, and the walk goes on from there:
at most one task is woken by a tick.
-/

namespace UcasOs.Sched

open UcasOs.Foundation UcasOs.Libs

def Kernel.Due (k : Kernel) (p : Pid) : Prop := (k.pcb p).awakenedTime ≤ k.getTicks

instance (k : Kernel) (p : Pid) : Decidable (k.Due p) := inferInstanceAs (Decidable (_ ≤ _))

/-- The queues after all sleepers whose time has come have been made ready, in their order. -/
def Kernel.rouse (k : Kernel) (L : QueueId → List Pid) : QueueId → List Pid :=
  Function.update (Function.update L .sleep ((L .sleep).filter fun p => ¬ k.Due p)) .ready
    (L .ready ++ (L .sleep).filter fun p => k.Due p)

/-- The queues after the first of them has been made ready. -/
def Kernel.rouseFirst (k : Kernel) (L : QueueId → List Pid) (l : List Pid) : QueueId → List Pid :=
  (l.find? fun p => k.Due p).elim L fun p => join (leave L .sleep p) .ready p

variable {k : Kernel} {L : QueueId → List Pid}

/-- Moving a task from one queue to the end of another. -/
theorem move_holds {heap : LinkHeap Pid QueueId} (h : heap.Holds L) {q : QueueId} {p : Pid}
    (hp : p ∈ L q) (q' : QueueId) :
    ∃ next heap₁ heap₂, queueRemove heap q p = .ok (next, heap₁) ∧
      queuePush heap₁ q' p = .ok heap₂ ∧ heap₂.Holds (join (leave L q p) q' p) := by
  obtain ⟨l₁, l₂, hsplit⟩ := List.append_of_mem hp
  obtain ⟨heap₁, hremove, hholds⟩ := queueRemove_holds h hsplit
  have hout : ∀ r, p ∉ leave L q p r := by
    intro r hmem
    by_cases hr : r = q
    · subst hr
      rw [leave, Function.update_self] at hmem
      exact (h.represents r).nodup.not_mem_erase hmem
    · rw [leave, Function.update_of_ne hr] at hmem
      exact hr (h.apart hmem hp)
  obtain ⟨heap₂, hpush, hholds'⟩ := queuePush_holds hholds hout (q := q')
  exact ⟨_, heap₁, heap₂, hremove, hpush, hholds'⟩

/-- The loop over the rest `l` of the sleep queue, whatever the rest of the kernel is. -/
theorem checkSleepingLoop_holds {fuel : Nat} {before l : List Pid} (h : k.heap.Holds L)
    (hl : L .sleep = before ++ l) (hlen : l.length ≤ fuel) :
    ∃ k', Kernel.checkSleepingLoop fuel l.head? k = .ok k' ∧
      k'.heap.Holds (k.rouseFirst L l) := by
  induction fuel generalizing before l with
  | zero =>
      have hnil : l = [] := List.length_eq_zero_iff.mp (by omega)
      subst hnil
      exact ⟨k, rfl, h⟩
  | succ fuel ih =>
      cases l with
      | nil => exact ⟨k, rfl, h⟩
      | cons p rest =>
          rw [List.length_cons] at hlen
          rw [List.head?_cons, Kernel.checkSleepingLoop]
          by_cases hdue : k.Due p
          · obtain ⟨next, heap, heap', hremove, hpush, hholds'⟩ :=
              move_holds h (show p ∈ L .sleep by simp [hl]) .ready
            rw [if_pos (show (k.pcb p).awakenedTime ≤ k.getTicks from hdue)]
            simp only [Kernel.remove, Kernel.push, hremove, hpush, ok_bind, pure_bind]
            -- the walk goes on from the end of the ready queue
            have hnext : heap'.next p = none := by
              have hrep := hholds'.represents .ready
              rw [join, Function.update_self] at hrep
              exact hrep.links.2
            have hfirst : k.rouseFirst L (p :: rest) = join (leave L .sleep p) .ready p := by
              rw [Kernel.rouseFirst, List.find?_cons_of_pos (by simpa using hdue)]
              rfl
            generalize hk₁ : Kernel.modifyPcb (Kernel.modifyPcb _ _ _) _ _ = k₁
            have hheap : k₁.heap = heap' := by
              rw [← hk₁]
              rfl
            rw [hheap, hnext, checkSleepingLoop_none, hfirst]
            exact ⟨k₁, rfl, hheap ▸ hholds'⟩
          · have hnext : k.heap.next p = rest.head? := by
              have hrep := h.represents .sleep
              rw [hl] at hrep
              exact hrep.links.2
            have hfirst : k.rouseFirst L (p :: rest) = k.rouseFirst L rest := by
              rw [Kernel.rouseFirst, List.find?_cons_of_neg (by simpa using hdue)]
              rfl
            rw [if_neg (show ¬ (k.pcb p).awakenedTime ≤ k.getTicks from hdue), hfirst]
            simp only [pure_bind, hnext]
            exact ih (show L .sleep = (before ++ [p]) ++ rest by simp [hl]) (by omega)

theorem length_le_of_lt {l : List Pid} (hnodup : l.Nodup) (hpcb : ∀ p ∈ l, p < maxTaskNum) :
    l.length ≤ maxTaskNum := by
  have hsub : l ⊆ List.range maxTaskNum := fun p hp => List.mem_range.mpr (hpcb p hp)
  simpa using (hnodup.subperm hsub).length_le

theorem checkSleeping_holds (h : k.heap.Holds L) (hpcb : ∀ p ∈ L .sleep, p < maxTaskNum) :
    ∃ k', k.checkSleeping = .ok k' ∧ k'.heap.Holds (k.rouseFirst L (L .sleep)) := by
  rw [Kernel.checkSleeping, (h.represents .sleep).head_eq]
  exact checkSleepingLoop_holds h (show L .sleep = [] ++ L .sleep from rfl)
    (length_le_of_lt (h.represents .sleep).nodup hpcb)

/-- All that are due are woken when that is one at most. -/
theorem rouseFirst_eq_rouse (hnodup : (L .sleep).Nodup)
    (hone : ((L .sleep).filter fun p => k.Due p).length ≤ 1) :
    k.rouseFirst L (L .sleep) = k.rouse L := by
  unfold Kernel.rouseFirst Kernel.rouse
  cases hfind : (L .sleep).find? fun p => k.Due p with
  | none =>
      have hnone : ∀ p ∈ L .sleep, ¬ k.Due p := fun p hp =>
        by simpa using List.find?_eq_none.mp hfind p hp
      have hdue : ((L .sleep).filter fun p => k.Due p) = [] :=
        List.filter_eq_nil_iff.mpr fun p hp => by simpa using hnone p hp
      have hothers : ((L .sleep).filter fun p => ¬ k.Due p) = L .sleep :=
        List.filter_eq_self.mpr fun p hp => by simpa using hnone p hp
      rw [hdue, hothers, List.append_nil, Function.update_eq_self, Function.update_eq_self]
      rfl
  | some p =>
      have hp : k.Due p := by simpa using List.find?_some hfind
      have hmem : p ∈ (L .sleep).filter fun p => k.Due p :=
        List.mem_filter.mpr ⟨List.mem_of_find?_eq_some hfind, by simpa using hp⟩
      have hdue : ((L .sleep).filter fun p => k.Due p) = [p] := by
        obtain ⟨x, hx⟩ := List.length_eq_one_iff.mp
          (Nat.le_antisymm hone (List.length_pos_of_mem hmem))
        rw [hx, List.mem_singleton] at hmem
        rw [hx, hmem]
      have hothers : ((L .sleep).filter fun p => ¬ k.Due p) = (L .sleep).erase p := by
        rw [hnodup.erase_eq_filter]
        refine List.filter_congr fun x hx => ?_
        -- no other sleeper is due
        have hiff : k.Due x ↔ x = p := by
          rw [← List.mem_singleton, ← hdue, List.mem_filter, decide_eq_true_eq]
          exact ⟨fun h => ⟨hx, h⟩, fun h => h.2⟩
        by_cases hxp : x = p
        · subst hxp
          simp [hp]
        · simp [mt hiff.mp hxp, hxp]
      rw [hdue, hothers]
      rfl

theorem rouse_of_rouseFirst_eq (h : k.rouseFirst L (L .sleep) = k.rouse L) :
    ((L .sleep).filter fun p => k.Due p).length ≤ 1 := by
  have hready := congrFun h .ready
  rw [Kernel.rouse, Function.update_self] at hready
  unfold Kernel.rouseFirst at hready
  cases hfind : (L .sleep).find? fun p => k.Due p with
  | none =>
      rw [hfind] at hready
      have hnil := List.self_eq_append_right.mp hready
      simp [hnil]
  | some p =>
      rw [hfind] at hready
      have hjoined : L .ready ++ [p] = L .ready ++ (L .sleep).filter fun p => k.Due p := by
        rw [← hready]
        simp [join, leave]
      rw [← List.append_cancel_left hjoined]
      exact Nat.le_refl 1

/-- After `check_sleeping` the ready queue has gained, in their order, the sleepers whose time
has come and the sleep queue has kept the others, exactly when one at most was due. -/
theorem sleepers_woken_iff (h : k.heap.Holds L) (hpcb : ∀ p ∈ L .sleep, p < maxTaskNum) :
    (∃ k', k.checkSleeping = .ok k' ∧ k'.heap.Holds (k.rouse L)) ↔
      ((L .sleep).filter fun p => k.Due p).length ≤ 1 := by
  obtain ⟨k', hrun, hholds⟩ := checkSleeping_holds h hpcb
  constructor
  · rintro ⟨k'', hrun', hholds'⟩
    obtain rfl : k' = k'' := Except.ok.inj (hrun.symm.trans hrun')
    exact rouse_of_rouseFirst_eq (hholds.unique hholds')
  · intro hone
    exact ⟨k', hrun, rouseFirst_eq_rouse (h.represents .sleep).nodup hone ▸ hholds⟩

/-- The queues of a kernel that events lead to. -/
theorem exists_holds_follow {events : List Event} (h : booted.canFollow events = true) :
    ∃ L, (booted.follow events).heap.Holds L ∧ (∀ q, (booted.follow events).items q = L q) ∧
      ∀ q, ∀ p ∈ L q, p < maxTaskNum := by
  obtain ⟨L, ht, -⟩ := inv_of_run initTask_zero (run_follow h)
  exact ⟨L, ht.holds, ht.items, fun _ _ hp => (ht.live hp).2.1⟩

/-- The shell has spawned a task, and one task or two have gone to sleep for no time. -/
def asleep : List Event := [.entry .timer, .entry (.spawn ⟨1⟩), .entry (.sleep 0)]

def bothAsleep : List Event := asleep ++ [.entry (.sleep 0)]

theorem sleepers_woken_one :
    ∃ L k', L .sleep = [2] ∧ (booted.follow asleep).checkSleeping = .ok k' ∧
      k'.heap.Holds ((booted.follow asleep).rouse L) := by
  obtain ⟨L, hholds, hitems, hpcb⟩ := exists_holds_follow
    (show booted.canFollow asleep = true by decide +kernel)
  have hsleep : L .sleep = [2] := (hitems .sleep).symm.trans (by decide +kernel)
  obtain ⟨k', hrun, hwoken⟩ := (sleepers_woken_iff hholds (hpcb .sleep)).mpr
    (by rw [hsleep]; decide +kernel)
  exact ⟨L, k', hsleep, hrun, hwoken⟩

/-- Two sleepers are due, and one of them sleeps on. -/
theorem sleeper_left :
    ∃ L, (booted.follow bothAsleep).heap.Holds L ∧ L .sleep = [2, 1] ∧
      (∀ p ∈ L .sleep, (booted.follow bothAsleep).Due p) ∧
      ¬ ∃ k', (booted.follow bothAsleep).checkSleeping = .ok k' ∧
        k'.heap.Holds ((booted.follow bothAsleep).rouse L) := by
  obtain ⟨L, hholds, hitems, hpcb⟩ := exists_holds_follow
    (show booted.canFollow bothAsleep = true by decide +kernel)
  have hsleep : L .sleep = [2, 1] := (hitems .sleep).symm.trans (by decide +kernel)
  refine ⟨L, hholds, hsleep, by rw [hsleep]; decide +kernel, ?_⟩
  rintro ⟨k', hrun, hwoken⟩
  obtain ⟨k₁, hrun₁, hfirst⟩ := checkSleeping_holds hholds (hpcb .sleep)
  obtain rfl : k' = k₁ := Except.ok.inj (hrun.symm.trans hrun₁)
  have hone := rouse_of_rouseFirst_eq (hfirst.unique hwoken)
  rw [hsleep] at hone
  exact absurd hone (by decide +kernel)

end UcasOs.Sched
