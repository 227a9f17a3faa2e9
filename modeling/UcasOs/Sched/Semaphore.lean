import UcasOs.Sched.Verified

/-!
# Semaphores with their queues

What `do_semaphore_up` and `do_semaphore_down` do to the queues, with the lists
they leave.  Tasks that are in no queue keep the name of the ready queue in
their PCB while others run.
-/

namespace UcasOs.Sched

open UcasOs.Foundation UcasOs.Libs

variable {k : Kernel} {L : QueueId → List Pid} {S : Pid → Prop} {p : Pid} {s : Nat}

/-! ## Up and down -/

theorem doSemaphoreUp_counts (hvalue : 0 ≤ (k.semaphores s).value) :
    k.doSemaphoreUp s = .ok (k.setSemaphore s ((k.semaphores s).value + 1)) := by
  have hpos : ¬ (k.semaphores s).value + 1 ≤ 0 := by omega
  simp [Kernel.doSemaphoreUp, Kernel.setSemaphore, hpos]

theorem doSemaphoreUp_wakes (h : Table k L S) (hqueue : L (.semaphore s) = [p])
    (hvalue : (k.semaphores s).value = -1) :
    Meets IsPanic
      (fun k' => Table k' (join (leave L (.semaphore s) p) .ready p) S ∧
        k'.currentRunning = k.currentRunning ∧ k'.pidList = k.pidList ∧
        k'.semaphores = Function.update k.semaphores s ⟨0⟩)
      (k.doSemaphoreUp s) := by
  have htable : Table (k.setSemaphore s 0) L S := h.congr rfl rfl fun _ => Pcb.Keeps.refl _
  have heq : k.doSemaphoreUp s = (k.setSemaphore s 0).doUnblockOne (.semaphore s) := by
    simp [Kernel.doSemaphoreUp, Kernel.setSemaphore, hvalue]
  rw [heq]
  refine (doUnblockOne_spec htable (.semaphore s)).mono fun k' hk' => ?_
  obtain ⟨hframe, hcur, ⟨hnil, -⟩ | ⟨x, hx, ht⟩⟩ := hk'
  · rw [hqueue] at hnil
    cases hnil
  · rw [hqueue, List.mem_singleton] at hx
    subst hx
    exact ⟨ht, hcur, hframe.pidList, hframe.semaphores⟩

theorem doSemaphoreDown_returns (hvalue : 0 < (k.semaphores s).value) :
    k.doSemaphoreDown s = .ok (k.setSemaphore s ((k.semaphores s).value - 1)) := by
  have hpos : ¬ (k.semaphores s).value - 1 < 0 := by omega
  simp [Kernel.doSemaphoreDown, Kernel.setSemaphore, hpos]

theorem doSemaphoreDown_blocks (h : Table k L S) (hcur : k.currentRunning ∈ L .ready)
    (hvalue : (k.semaphores s).value ≤ 0) :
    Meets IsPanic
      (fun k' =>
        Table k' (join (leave L .ready k.currentRunning) (.semaphore s) k.currentRunning) S ∧
        k'.currentRunning ∈ leave L .ready k.currentRunning .ready ∧
        k'.pidList = k.pidList ∧
        k'.semaphores = Function.update k.semaphores s ⟨(k.semaphores s).value - 1⟩)
      (k.doSemaphoreDown s) := by
  have hneg : (k.semaphores s).value - 1 < 0 := by omega
  have htable : Table (k.setSemaphore s ((k.semaphores s).value - 1)) L S :=
    h.congr rfl rfl fun _ => Pcb.Keeps.refl _
  have heq : k.doSemaphoreDown s =
      (k.setSemaphore s ((k.semaphores s).value - 1)).doWait k.currentRunning (.semaphore s)
        .blocked .ret := by
    simp [Kernel.doSemaphoreDown, Kernel.setSemaphore, hneg]
  rw [heq]
  refine (doWait_spec htable hcur (.semaphore s) .blocked .ret).mono fun k' hk' => ?_
  obtain ⟨ht, hframe, hready⟩ := hk'
  refine ⟨ht, ?_, hframe.pidList, hframe.semaphores⟩
  exact (mem_join.mp hready).resolve_right fun hq => nomatch hq.1

/-! ## Tasks out of their queue -/

/-- The other tasks whose PCB names the ready queue, in it or not, go on naming it. -/
def KeepsReady (k k' : Kernel) : Prop :=
  ∀ p, p ≠ k.currentRunning → (k.pcb p).queue = some .ready → (k'.pcb p).queue = some .ready

private theorem scan_queue (k : Kernel) (key : Pcb → Int) (q : QueueId)
    (selected : Option Pid) :
    Meets (fun _ => True) (fun s => ∀ p, (s.pcb p).queue = (k.pcb p).queue)
      (k.scan key q selected) := by
  refine (scan_pcb k key q selected).mono fun s hs p => ?_
  obtain ⟨w, -, heq⟩ := hs p
  rw [heq]

private theorem modifyPcb_other (k : Kernel) {x : Pid} (f : Pcb → Pcb) (hp : p ≠ x) :
    (k.modifyPcb x f).pcb p = k.pcb p :=
  Function.update_of_ne hp _ _

theorem doScheduler_queue (k : Kernel) (kont : Kont) :
    Meets (fun _ => True) (KeepsReady k) (k.doScheduler kont) := by
  unfold Kernel.doScheduler Kernel.scheduler
  split
  · trivial
  · refine (scan_queue _ _ _ _).bind fun s hs => ?_
    rw [meets_pure]
    intro p _ hready
    rw [(switchTo_keeps _ _ p).queue, hs p, (saveCurrent_keeps _ p).queue]
    exact hready

theorem doSemaphoreDown_queue (k : Kernel) (s : Nat) :
    Meets (fun _ => True) (KeepsReady k) (k.doSemaphoreDown s) := by
  unfold Kernel.doSemaphoreDown Kernel.doWait
  dsimp only
  split
  · refine (remove_heap _ _ _).bind ?_
    rintro _ ⟨heap, rfl⟩
    refine (push_heap _ _ _).bind ?_
    rintro _ ⟨heap', rfl⟩
    refine (doScheduler_queue _ _).mono fun k' hk' p hp hready => hk' p hp ?_
    have hne : p ≠ (k.setSemaphore s ((k.semaphores s).value - 1)).currentRunning := hp
    rw [modifyPcb_other _ _ hne]
    exact hready
  · exact fun _ _ => id

theorem doSemaphoreUp_queue (k : Kernel) (s : Nat) :
    Meets (fun _ => True) (KeepsReady k) (k.doSemaphoreUp s) := by
  unfold Kernel.doSemaphoreUp Kernel.doUnblockOne Kernel.wake
  dsimp only
  split
  · split
    · exact fun _ _ => id
    · refine (scan_queue _ _ _ _).bind fun scan hscan => ?_
      split
      · trivial
      · rename_i selected _
        refine (remove_heap _ _ _).bind ?_
        rintro _ ⟨heap, rfl⟩
        refine (push_heap _ _ _).bind ?_
        rintro _ ⟨heap', rfl⟩
        rw [meets_pure]
        intro p _ hready
        by_cases hp : p = selected
        · subst hp
          simp [Kernel.modifyPcb]
        · rw [modifyPcb_other _ _ hp]
          dsimp only
          rw [modifyPcb_other _ _ hp]
          exact (hscan p).trans hready
  · exact fun _ _ => id

end UcasOs.Sched
