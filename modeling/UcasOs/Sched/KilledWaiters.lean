import UcasOs.Sched.BarrierRounds

/-!
# Killed waiters

`kill` takes a task out of the queue of a semaphore or a barrier and leaves the
count of the waiters as it was.  In runs that kill no waiter, the counts stay
right; after the death of one, they do not.
-/

namespace UcasOs.Sched

open UcasOs.Foundation UcasOs.Libs

variable {k k' : Kernel} {v v' : View} {event : Event} {q : QueueId} {s barrier : Nat}

/-- Steps that kill no task waiting in `q`. -/
def sparing (q : QueueId) : Lts Kernel Event := kernelSystem.restrict fun k event => event.Spares k q

theorem seen_of_sparing {I : View → Prop} {k₁ k₂ : Kernel} {events : List Event}
    (hq : q.Counted)
    (hmove : ∀ {v event v'}, v.Moves event v' → (∀ p ∈ v.queue q, ¬ event.Kills v p) →
      I v → I v')
    (hstart : ∃ v, Seen noTask True k₁ v ∧ I v) (run : (sparing q).Run k₁ events k₂) :
    ∃ v, Seen noTask True k₂ v ∧ I v := by
  refine run.invariant (I := fun k => ∃ v, Seen noTask True k v ∧ I v) ?_ hstart
  rintro k event k' ⟨v, hseen, h⟩ ⟨hspares, hstep⟩
  obtain ⟨v', hseen', hmoves⟩ := hseen.step hstep
  exact ⟨v', hseen', hmove hmoves (hspares.kills hseen hq) h⟩

/-- The permits of a semaphore that no task uses stay. -/
theorem semaphore_unused {k₁ k₂ : Kernel} {events : List Event} {v₁ : View}
    (hseen : Seen noTask True k₁ v₁) (hunused : ∀ e ∈ events, e.uses ≠ some (.semaphore s))
    (run : (sparing (.semaphore s)).Run k₁ events k₂) :
    ∃ v₂, Seen noTask True k₂ v₂ ∧ View.Untouched (.semaphore s) v₁ v₂ := by
  induction run with
  | nil => exact ⟨v₁, hseen, View.Untouched.refl _ _⟩
  | snoc _ hstep ih =>
      obtain ⟨v, hseen', huntouched⟩ := ih fun e he => hunused e (by simp [he])
      obtain ⟨v', hseen'', hmoves⟩ := hseen'.step hstep.2
      exact ⟨v', hseen'', huntouched.trans (View.Does.untouched trivial (hunused _ (by simp))
        (hstep.1.kills hseen' trivial) hmoves.does)⟩

/-- After an up with no task waiting, a down passes, whatever happened in between. -/
theorem passesDown_of_up {k₁ k₂ k₃ : Kernel} {events : List Event} (hseen : Seen noTask True k v)
    (hagrees : v.SemaphoreAgrees s) (hnil : k.items (.semaphore s) = [])
    (hup : kernelSystem.step k (.entry (.semaphoreUp s)) k₁)
    (hunused : ∀ e ∈ events, e.uses ≠ some (.semaphore s))
    (run : (sparing (.semaphore s)).Run k₁ events k₂)
    (hdown : kernelSystem.step k₂ (.entry (.semaphoreDown s)) k₃) :
    k₃.currentRunning = k₂.currentRunning ∧ k₃.items (.semaphore s) = [] := by
  rw [hseen.items] at hnil
  obtain ⟨v₁, hseen₁, hmoves₁⟩ := hseen.step hup
  obtain ⟨v₂, hseen₂, huntouched⟩ := semaphore_unused hseen₁ hunused run
  obtain ⟨v₃, hseen₃, hmoves₃⟩ := hseen₂.step hdown
  have hpermit : 0 < (v₂.semaphores s).value ∧ v₂.queue (.semaphore s) = [] := by
    rw [huntouched.semaphore s rfl, huntouched.queue]
    obtain ⟨-, rfl⟩ | ⟨p, hp, -⟩ := semaphoreUp_cases hagrees hmoves₁.does
    · unfold View.SemaphoreAgrees at hagrees
      rw [hnil, List.length_nil] at hagrees
      refine ⟨?_, hnil⟩
      simp only [View.setSemaphore, Function.update_self]
      omega
    · rw [hnil] at hp
      cases hp
  obtain ⟨-, rfl⟩ | ⟨hvalue, -⟩ := semaphoreDown_cases hmoves₃.does
  · refine ⟨?_, ?_⟩
    · rw [← hseen₃.current_eq, ← hseen₂.current_eq]
      rfl
    · rw [hseen₃.items]
      exact hpermit.2
  · omega

/-- The tasks that a completing call releases, with the caller, are `goal` live tasks. -/
def FullRound (barrier : Nat) (k : Kernel) : Prop :=
  (k.barriers barrier).arrived + 1 = (k.barriers barrier).goal →
    (((k.currentRunning :: k.items (.barrier barrier)).length : Nat) : Int) =
      (k.barriers barrier).goal ∧
    (k.currentRunning ≠ 0 → (k.currentRunning :: k.items (.barrier barrier)).Nodup ∧
      ∀ p ∈ k.currentRunning :: k.items (.barrier barrier), k.Live p)

theorem fullRound_of_agrees (hseen : Seen noTask True k v) (hagrees : v.BarrierAgrees barrier) :
    FullRound barrier k := by
  intro hlast
  rw [hseen.items, ← hseen.barriers_eq] at *
  obtain ⟨harrived, -⟩ := hagrees
  refine ⟨?_, ?_⟩
  · rw [List.length_cons]
    omega
  · intro hboot
    have hready := hseen.current_mem hboot
    refine ⟨List.nodup_cons.mpr ⟨fun hmem => ?_, hseen.wf.nodup _⟩, ?_⟩
    · exact nomatch hseen.wf.apart hmem hready
    · intro p hp
      rcases List.mem_cons.mp hp with rfl | hp
      · exact hseen.table.live hready
      · exact hseen.table.live hp

theorem waitersCounted_of_run {k k₁ : Kernel} {events : List Event}
    (hinit : initTask Kernel.zero = .ok k) (run₁ : kernelSystem.Run k events k₁) :
    (∀ s value more k₂, (Event.entry (.semaphoreInit s value)).Enabled k₁ →
      (sparing (.semaphore s)).Run (k₁.doSemaphoreInit s value) more k₂ →
      ((k₂.items (.semaphore s)).length : Int) = max 0 (-(k₂.semaphores s).value) ∧
      (k₂.items (.semaphore s) = [] → ∀ k₃ between k₄ k₅,
        kernelSystem.step k₂ (.entry (.semaphoreUp s)) k₃ →
        (∀ e ∈ between, Event.uses e ≠ some (.semaphore s)) →
        (sparing (.semaphore s)).Run k₃ between k₄ →
        kernelSystem.step k₄ (.entry (.semaphoreDown s)) k₅ →
        k₅.currentRunning = k₄.currentRunning ∧ k₅.items (.semaphore s) = [])) ∧
    ∀ barrier goal more k₂, (Event.entry (.barrierInit barrier goal)).Enabled k₁ →
      (sparing (.barrier barrier)).Run (k₁.doBarrierInit barrier goal) more k₂ →
      (k₂.barriers barrier).arrived = (k₂.items (.barrier barrier)).length ∧
      FullRound barrier k₂ := by
  obtain ⟨v₁, hseen₁⟩ := (inv_of_run hinit run₁).seen
  constructor
  · intro s value more k₂ henabled run₂
    obtain ⟨hstart, hnil⟩ := doSemaphoreInit_seen hseen₁ henabled
    have hagrees₁ : (v₁.setSemaphore s (max 0 value)).SemaphoreAgrees s := by
      simp only [View.SemaphoreAgrees, View.setSemaphore, Function.update_self, hnil,
        List.length_nil]
      omega
    obtain ⟨v₂, hseen₂, hagrees₂⟩ := seen_of_sparing (I := fun v => v.SemaphoreAgrees s)
      (q := .semaphore s) trivial (fun hmoves hspares h => h.moves hmoves hspares)
      ⟨_, hstart, hagrees₁⟩ run₂
    refine ⟨?_, ?_⟩
    · rw [hseen₂.items, ← hseen₂.semaphores_eq]
      exact hagrees₂
    · intro hnone k₃ between k₄ k₅ hup hunused run₃ hdown
      exact passesDown_of_up hseen₂ hagrees₂ hnone hup hunused run₃ hdown
  · intro barrier goal more k₂ henabled run₂
    obtain ⟨hstart, hnil⟩ := doBarrierInit_seen hseen₁ henabled
    have hagrees₁ : (v₁.setBarrier barrier ⟨groupSize goal, 0⟩).BarrierAgrees barrier := by
      refine ⟨by simp [View.setBarrier, hnil], ?_⟩
      simp only [View.setBarrier, Function.update_self, groupSize]
      omega
    obtain ⟨v₂, hseen₂, hagrees₂⟩ := seen_of_sparing (I := fun v => v.BarrierAgrees barrier)
      (q := .barrier barrier) trivial (fun hmoves hspares h => h.moves hmoves hspares)
      ⟨_, hstart, hagrees₁⟩ run₂
    refine ⟨?_, fullRound_of_agrees hseen₂ hagrees₂⟩
    rw [hseen₂.items, ← hseen₂.barriers_eq]
    exact hagrees₂.1

theorem waitersCounted_spawned :
    ∃ k₂, (sparing (.semaphore 0)).Run (spawned.doSemaphoreInit 0 0)
        [.entry (.semaphoreDown 0)] k₂ ∧
      ((k₂.items (.semaphore 0)).length : Int) = max 0 (-(k₂.semaphores 0).value) ∧
      (k₂.semaphores 0).value = -1 := by
  let k₂ := (spawned.doSemaphoreInit 0 0).after (.semaphoreDown 0)
  have run : (sparing (.semaphore 0)).Run (spawned.doSemaphoreInit 0 0)
      [.entry (.semaphoreDown 0)] k₂ :=
    .single ⟨by simp [Event.Spares],
      step_after ⟨by decide +kernel, fun h => absurd h (by decide +kernel), trivial⟩
        (by decide +kernel)⟩
  have h := (waitersCounted_of_run initTask_zero run_spawned).1 0 0 _ k₂
    ⟨by decide +kernel, fun h => absurd h (by decide +kernel),
      show queueIsEmpty spawned.heap (.semaphore 0) = true by decide +kernel⟩ run
  exact ⟨k₂, run, h.1, by decide +kernel⟩

/--
A task that waits is killed by another: the semaphore has a value of `-1` and
the barrier one arrival, and nobody waits for either.
-/
theorem killedWaiter_counted :
    initTask Kernel.zero = .ok booted ∧ (∃ events, kernelSystem.Run booted events spawned) ∧
    (∃ k₂, kernelSystem.Run (spawned.doSemaphoreInit 0 0)
        [.entry (.semaphoreDown 0), .entry (.kill 3)] k₂ ∧
      k₂.items (.semaphore 0) = [] ∧ (k₂.semaphores 0).value = -1) ∧
    ∃ k₂, kernelSystem.Run (spawned.doBarrierInit 0 2)
        [.entry (.barrierWait 0), .entry (.kill 3)] k₂ ∧
      k₂.items (.barrier 0) = [] ∧ (k₂.barriers 0).arrived = 1 := by
  refine ⟨initTask_zero, ⟨_, run_spawned⟩, ⟨_, run_follow (by decide +kernel), ?_, ?_⟩,
    ⟨_, run_follow (by decide +kernel), ?_, ?_⟩⟩
  all_goals decide +kernel

end UcasOs.Sched
