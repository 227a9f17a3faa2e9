import UcasOs.Sched.KilledOwners

/-!
# Waiting for time and for other tasks

The sleep queue and the wait queues of the tasks.  No synchronisation object
wakes them: a task leaves the sleep queue at a timer interrupt and a wait queue
when the task it waits for ends, or either when it is killed.
-/

namespace UcasOs.Sched

open UcasOs.Foundation UcasOs.Libs

/-- The queues that belong to no synchronisation object. -/
def QueueId.Private : QueueId → Prop
  | .sleep | .wait _ => True
  | _ => False

/-- The entries that are about these queues, apart from the end of a task. -/
def Event.Plain : Event → Prop
  | .entry .timer | .entry (.sleep _) | .entry (.wait _) => False
  | _ => True

theorem Event.plain_or (event : Event) :
    event.Plain ∨ event = .entry .timer ∨ (∃ time, event = .entry (.sleep time)) ∨
      ∃ pid, event = .entry (.wait pid) := by
  cases event with
  | resume => exact .inl trivial
  | entry e =>
      cases e with
      | timer => exact .inr (.inl rfl)
      | sleep time => exact .inr (.inr (.inl ⟨time, rfl⟩))
      | wait pid => exact .inr (.inr (.inr ⟨pid, rfl⟩))
      | _ => exact .inl trivial

namespace View

/-- The clock, the deadlines and the tasks in `q` are as before. -/
structure Still (q : QueueId) (v v' : View) : Prop where
  queue : v'.queue q = v.queue q
  time : v'.time = v.time
  awakened : v'.awakened = v.awakened

variable {v v' v₁ : View} {q q' : QueueId} {event : Event} {lock : Nat} {kont : Kont}
  {status : TaskStatus} {pid p : Pid}

theorem Still.refl (q : QueueId) (v : View) : Still q v v := ⟨rfl, rfl, rfl⟩

theorem Still.trans (h : Still q v v₁) (h' : Still q v₁ v') : Still q v v' :=
  ⟨h'.queue.trans h.queue, h'.time.trans h.time, h'.awakened.trans h.awakened⟩

theorem Switches.still (h : v.Switches kont v') : Still q v v' := by
  obtain ⟨next, -, rfl⟩ := h
  exact ⟨rfl, rfl, rfl⟩

section

variable (hq : q.Private)
include hq

theorem Waits.still (hne : q ≠ q') (h : v.Waits q' status kont v') : Still q v v' := by
  have hready : q ≠ .ready := by rintro rfl; exact hq
  have hblock : Still q v (v.block q' status) := by
    refine ⟨?_, rfl, rfl⟩
    simp [block, join, leave, hne, hready]
  exact hblock.trans (Switches.still h)

theorem WakesOne.still (hne : q ≠ q') (h : v.WakesOne q' v') : Still q v v' := by
  have hready : q ≠ .ready := by rintro rfl; exact hq
  obtain ⟨-, rfl⟩ | ⟨p, -, rfl⟩ := h
  · exact .refl q _
  · refine ⟨?_, rfl, rfl⟩
    simp [wake, join, leave, hne, hready]

theorem wakeAll_still (v : View) (hne : q ≠ q') : Still q v (v.wakeAll q') := by
  have hready : q ≠ .ready := by rintro rfl; exact hq
  refine ⟨?_, rfl, rfl⟩
  simp [wakeAll, hne, hready]

theorem spawn_still (v : View) (pid : Pid) : Still q v (v.spawn pid) := by
  have hready : q ≠ .ready := by rintro rfl; exact hq
  refine ⟨?_, rfl, rfl⟩
  simp [spawn, join, hready]

theorem Takes.still (h : v.Takes lock v') : Still q v v' := by
  unfold Takes at h
  split at h
  · exact Waits.still hq (by rintro rfl; exact hq) h
  · rw [h]
    exact ⟨rfl, rfl, rfl⟩

theorem Acquires.still (h : v.Acquires lock v') : Still q v v' := by
  unfold Acquires at h
  split at h
  · rw [h]
    exact .refl q v
  · exact Takes.still hq h

theorem Releases.still (h : v.Releases lock v') : Still q v v' := by
  unfold Releases at h
  split at h
  · rw [h]
    exact .refl q v
  · obtain ⟨v₁, hwakes, rfl⟩ := h
    exact (WakesOne.still hq (by rintro rfl; exact hq) hwakes).trans ⟨rfl, rfl, rfl⟩

theorem Resumes.still (h : v.Resumes v') : Still q v v' := by
  have hpark : Still q v (v.park .ret) := ⟨rfl, rfl, rfl⟩
  unfold Resumes at h
  split at h
  · rw [h]
    exact .refl q v
  · exact hpark.trans (Takes.still hq h)
  · exact hpark.trans (Acquires.still hq h)

theorem KillLock.still (h : v.KillLock pid lock v') : Still q v v' := by
  unfold KillLock at h
  split at h
  · obtain ⟨v₁, hwakes, rfl⟩ := h
    exact (WakesOne.still hq (by rintro rfl; exact hq) hwakes).trans ⟨rfl, rfl, rfl⟩
  · rw [h]
    exact .refl q v

theorem KillLocks.still {locks : List Nat} (h : KillLocks pid locks v v') : Still q v v' := by
  induction locks generalizing v with
  | nil =>
      rw [show v' = v from h]
      exact .refl q v
  | cons i rest ih =>
      unfold KillLocks at h
      split at h
      · obtain ⟨v₁, hlock, hrest⟩ := h
        exact (KillLock.still hq hlock).trans (ih hrest)
      · rw [h]
        exact .refl q v

/-- A task that ends leaves its queue. -/
theorem Kills.still (hne : q ≠ .wait pid) (h : v.Kills pid v') :
    ∃ q', pid ∈ v.queue q' ∧ Still q (v.remove q' pid) v' := by
  obtain ⟨q', v₁, hq', hlocks, hlast⟩ := h
  have hwoken : Still q (v.remove q' pid) (v₁.wakeAll (.wait pid)) :=
    (KillLocks.still hq hlocks).trans (wakeAll_still hq v₁ hne)
  refine ⟨q', hq', ?_⟩
  split at hlast
  · exact hwoken.trans (Switches.still hlast)
  · rw [hlast]
    exact hwoken

/-- The others stay where they are when a task ends that they do not wait for. -/
theorem Kills.mem_iff (hne : q ≠ .wait pid) (h : v.Kills pid v') (hp : p ≠ pid) :
    p ∈ v'.queue q ↔ p ∈ v.queue q := by
  obtain ⟨q', -, hstill⟩ := Kills.still hq hne h
  rw [hstill.queue, remove]
  by_cases hqq : q = q'
  · subst hqq
    simp [leave, List.mem_erase_of_ne hp]
  · simp [leave, hqq]

end

/-- Those who wait for a task are ready when it has ended. -/
theorem Kills.ready (h : v.Kills pid v') (hp : p ∈ v.queue (.wait pid)) (hne : p ≠ pid) :
    p ∈ v'.queue .ready := by
  obtain ⟨q', v₁, hq', hlocks, hlast⟩ := h
  have hstill : Still (.wait pid) (v.remove q' pid) v₁ := KillLocks.still trivial hlocks
  have hwaits : p ∈ v₁.queue (.wait pid) := by
    rw [hstill.queue, remove]
    by_cases hqq : QueueId.wait pid = q'
    · subst hqq
      simpa [leave] using (List.mem_erase_of_ne hne).mpr hp
    · simpa [leave, hqq] using hp
  have hwoken : p ∈ (v₁.wakeAll (.wait pid)).queue .ready := by
    simp [wakeAll, hwaits]
  split at hlast
  · obtain ⟨next, -, rfl⟩ := hlast
    exact hwoken
  · rw [hlast]
    exact hwoken

theorem KillStep.still {i : Int} (h : v.KillStep i v') :
    Still q v v' ∨ ∃ pid, (i ≠ 1 ∧ v.Accepts i pid) ∧ v.Kills pid v' := by
  obtain ⟨-, rfl⟩ | ⟨hone, p, haccepted, hkills⟩ := h
  · exact .inl (.refl q _)
  · exact .inr ⟨p, ⟨hone, haccepted⟩, hkills⟩

/-- What most events do to a private queue: nothing, unless they end a task. -/
theorem Does.still (hq : q.Private) (hplain : event.Plain) (h : v.Does v' event) :
    Still q v v' ∨ ∃ pid, event.Kills v pid ∧ v.Kills pid v' := by
  cases event with
  | resume => exact .inl (Resumes.still hq h)
  | entry e =>
      cases e with
      | kill pid => exact KillStep.still h
      | exit => exact KillStep.still h
      | spawn task =>
          obtain rfl | ⟨pid, -, -, rfl⟩ := h
          · exact .inl (.refl q _)
          · exact .inl (spawn_still hq v pid)
      | wait pid => exact hplain.elim
      | sleep time => exact hplain.elim
      | timer => exact hplain.elim
      | mutexInit lock =>
          rw [show v' = v.setMutex lock _ from h]
          exact .inl ⟨rfl, rfl, rfl⟩
      | mutexAcquire lock => exact .inl (Acquires.still hq h)
      | mutexRelease lock => exact .inl (Releases.still hq h)
      | semaphoreInit s value =>
          rw [show v' = v.setSemaphore s _ from h]
          exact .inl ⟨rfl, rfl, rfl⟩
      | semaphoreUp s =>
          have hset : Still q v (v.setSemaphore s ((v.semaphores s).value + 1)) := ⟨rfl, rfl, rfl⟩
          simp only [Does, Step] at h
          split at h
          · exact .inl (hset.trans (WakesOne.still hq (by rintro rfl; exact hq) h))
          · exact .inl (h ▸ hset)
      | semaphoreDown s =>
          have hset : Still q v (v.setSemaphore s ((v.semaphores s).value - 1)) := ⟨rfl, rfl, rfl⟩
          simp only [Does, Step] at h
          split at h
          · exact .inl (hset.trans (Waits.still hq (by rintro rfl; exact hq) h))
          · exact .inl (h ▸ hset)
      | conditionInit condition =>
          rw [show v' = v.setCondition condition 0 from h]
          exact .inl ⟨rfl, rfl, rfl⟩
      | conditionWait condition lock =>
          have hset : Still q v
              (v.setCondition condition ((v.conditions condition).waitingNum + 1)) :=
            ⟨rfl, rfl, rfl⟩
          obtain ⟨v₁, hreleases, hwaits⟩ := h
          exact .inl ((hset.trans (Releases.still hq hreleases)).trans
            (Waits.still hq (by rintro rfl; exact hq) hwaits))
      | conditionSignal condition =>
          have hset : Still q v
              (v.setCondition condition ((v.conditions condition).waitingNum - 1)) :=
            ⟨rfl, rfl, rfl⟩
          simp only [Does, Step] at h
          split at h
          · exact .inl (hset.trans (WakesOne.still hq (by rintro rfl; exact hq) h))
          · exact .inl (h ▸ .refl q v)
      | conditionBroadcast condition =>
          have hset : Still q v (v.setCondition condition 0) := ⟨rfl, rfl, rfl⟩
          simp only [Does, Step] at h
          split at h
          · exact .inl (h ▸ hset.trans (wakeAll_still hq _ (by rintro rfl; exact hq)))
          · exact .inl (h ▸ .refl q v)
      | barrierInit barrier goal =>
          rw [show v' = v.setBarrier barrier _ from h]
          exact .inl ⟨rfl, rfl, rfl⟩
      | barrierWait barrier =>
          have hset : ∀ b, Still q v (v.setBarrier barrier b) := fun b => ⟨rfl, rfl, rfl⟩
          simp only [Does, Step] at h
          split at h
          · exact .inl (h ▸ (hset _).trans (wakeAll_still hq _ (by rintro rfl; exact hq)))
          · exact .inl ((hset _).trans (Waits.still hq (by rintro rfl; exact hq) h))
      | waitRecv => exact .inl (Waits.still hq (by rintro rfl; exact hq) h)
      | mac => exact .inl (WakesOne.still hq (by rintro rfl; exact hq) h)

theorem Waits.subset (h : v.Waits q' status kont v') (hq' : q' ≠ .ready) (hq : q.Private)
    (hp : p ∈ v.queue q) : p ∈ v'.queue q := by
  by_cases hne : q = q'
  · subst hne
    obtain ⟨next, -, rfl⟩ := h
    simp [switch, block, join, leave, hq', hp]
  · rw [(Waits.still hq hne h).queue]
    exact hp

/-- A tick only concerns the sleep queue. -/
theorem timer_still (hq : q.Private) (hsleep : q ≠ .sleep) (h : v.Step v' .timer) :
    v'.queue q = v.queue q := by
  obtain ⟨next, -, rfl⟩ := h
  have hready : q ≠ .ready := by rintro rfl; exact hq
  change (View.wakeSleeper { v with time := v.time + 1 }).queue q = v.queue q
  unfold wakeSleeper
  cases (v.queue .sleep).find? fun p => View.Due { v with time := v.time + 1 } p with
  | none => rfl
  | some p => simp [awaken, join, leave, hready, hsleep]

theorem Kills.stays (h : v.Kills pid v') (hq : q.Private) (hwait : q ≠ .wait pid) (hne : p ≠ pid)
    (hp : p ∈ v.queue q) : p ∈ v'.queue q :=
  (Kills.mem_iff hq hwait h hne).mpr hp

/-- A task waits on until it is killed or the task that it waits for ends. -/
theorem Does.waits (h : v.Does v' event) (hp : p ∈ v.queue (.wait pid))
    (hself : ¬ event.Kills v p) (hother : ¬ event.Kills v pid) : p ∈ v'.queue (.wait pid) := by
  have hq : (QueueId.wait pid).Private := trivial
  obtain hplain | rfl | ⟨time, rfl⟩ | ⟨i, rfl⟩ := event.plain_or
  · obtain hstill | ⟨x, hends, hkills⟩ := Does.still hq hplain h
    · rw [hstill.queue]
      exact hp
    · refine Kills.stays hkills hq ?_ (fun hpx => hself (hpx ▸ hends)) hp
      intro hwait
      cases hwait
      exact hother hends
  · rw [timer_still hq (by simp) h]
    exact hp
  · rw [(Waits.still hq (by simp) h).queue]
    exact hp
  · obtain ⟨-, rfl⟩ | ⟨-, x, -, hwaits⟩ := h
    · exact hp
    · exact Waits.subset hwaits (by simp) hq hp

/-- `wait` for another live task. -/
theorem wait_enters (h : v.Step v' (.wait p)) (hlive : v.live p) (hother : p ≠ v.current) :
    v'.queue (.wait p) = v.queue (.wait p) ++ [v.current] := by
  have hother' : (p : Int) ≠ v.current := by exact_mod_cast hother
  obtain ⟨hrefused, -⟩ | ⟨-, x, hx, next, -, rfl⟩ := h
  · exact absurd ⟨rfl, hlive⟩ (hrefused.resolve_left hother' p)
  · obtain rfl : p = x := by exact_mod_cast hx.1
    simp [switch, block, join, leave]

end View

/-! ## Waiting for the end of a task -/

/-- The event ends the task `p`, which is alive. -/
def Event.Ends (k : Kernel) (p : Pid) : Event → Prop
  | .entry (.kill pid) => pid = p
  | .entry .exit => k.currentRunning = p
  | _ => False

variable {k k' : Kernel} {v v' : View} {event : Event} {p : Pid}

theorem Event.Kills.ends (hseen : Seen noTask True k v) (h : event.Kills v p) :
    event.Ends k p := by
  cases event with
  | resume => exact h.elim
  | entry e =>
      cases e with
      | kill pid => exact h.2.1
      | exit =>
          rw [Event.Ends, ← hseen.current_eq]
          exact_mod_cast h.2.1
      | _ => exact h.elim

/-- Only the shell survives `kill` and `exit`. -/
theorem Event.Ends.kills (hseen : Seen noTask True k v) (hlive : k.Live p) (hp : p ≠ 1)
    (h : event.Ends k p) : event.Kills v p := by
  have hlive' := (hseen.live_iff p).mpr hlive
  have hp' : (p : Int) ≠ 1 := by exact_mod_cast hp
  cases event with
  | resume => exact h.elim
  | entry e =>
      cases e with
      | kill pid =>
          obtain rfl : pid = p := h
          exact ⟨hp', rfl, hlive'⟩
      | exit =>
          have hcurrent : k.currentRunning = p := h
          rw [← hseen.current_eq] at hcurrent
          subst hcurrent
          exact ⟨hp', rfl, hlive'⟩
      | _ => exact h.elim

/-- The steps in which none of the given tasks ends. -/
def surviving (tasks : List Pid) : Lts Kernel Event :=
  kernelSystem.restrict fun k event => ∀ p ∈ tasks, ¬ event.Ends k p

theorem seen_after {k₁ : Kernel} {before : List Event} (hinit : initTask Kernel.zero = .ok k)
    (run : kernelSystem.Run k before k₁) : ∃ v, Seen noTask True k₁ v :=
  (inv_of_run hinit run).seen

/-- What the steps of a surviving run preserve of the view. -/
theorem seen_of_surviving {I : View → Prop} {tasks : List Pid} {k₁ k₂ : Kernel}
    {events : List Event}
    (hmove : ∀ {v event v'}, v.Moves event v' → (∀ p ∈ tasks, ¬ event.Kills v p) → I v → I v')
    (run : (surviving tasks).Run k₁ events k₂) (hseen : Seen noTask True k₁ v) (h : I v) :
    ∃ v', Seen noTask True k₂ v' ∧ I v' := by
  refine run.invariant (I := fun k => ∃ v, Seen noTask True k v ∧ I v) ?_ ⟨v, hseen, h⟩
  rintro k event k' ⟨v, hseen, h⟩ ⟨hspares, hstep⟩
  obtain ⟨v', hseen', hmoves⟩ := hseen.step hstep
  exact ⟨v', hseen', hmove hmoves (fun p hp hkills => hspares p hp (hkills.ends hseen)) h⟩

/-- A task that waits for another is in its wait queue and does not run, until one of the two ends;
when it is the other, the waiting task is ready. -/
theorem waits_until_end {k₁ k₂ k₃ : Kernel} {before events : List Event}
    (hinit : initTask Kernel.zero = .ok k) (run : kernelSystem.Run k before k₁)
    (hlive : k₁.Live p) (hother : p ≠ k₁.currentRunning)
    (hwait : kernelSystem.step k₁ (.entry (.wait p)) k₂)
    (run' : (surviving [p, k₁.currentRunning]).Run k₂ events k₃) :
    (k₁.currentRunning ∈ k₃.items (.wait p) ∧ k₃.currentRunning ≠ k₁.currentRunning ∧
      k₃.Live p) ∧
    ∀ event k₄, kernelSystem.step k₃ event k₄ → event.Ends k₃ p → p ≠ 1 →
      k₁.currentRunning ∈ k₄.items .ready := by
  obtain ⟨v₁, hseen₁⟩ := seen_after hinit run
  obtain ⟨v₂, hseen₂, hmoves⟩ := hseen₁.step hwait
  rw [← hseen₁.current_eq] at hother run' ⊢
  have hentered := View.wait_enters hmoves.does ((hseen₁.live_iff p).mpr hlive) hother
  obtain ⟨v₃, hseen₃, hwaits⟩ := seen_of_surviving
    (I := fun v => v₁.current ∈ v.queue (.wait p))
    (fun hmoves hspares hp => View.Does.waits hmoves.does hp (hspares _ (by simp))
      (hspares _ (by simp))) run' hseen₂ (by rw [hentered]; simp)
  have hlive₃ : v₃.live p := by
    by_contra hdead
    rw [hseen₃.wf.waitNil hdead] at hwaits
    exact List.not_mem_nil hwaits
  refine ⟨⟨?_, fun hcurrent => ?_, (hseen₃.live_iff p).mp hlive₃⟩,
    fun event k₄ hstep hends hp => ?_⟩
  · rw [hseen₃.items]
    exact hwaits
  · rw [← hseen₃.current_eq] at hcurrent
    have hready := hseen₃.wf.current
      (hcurrent ▸ hseen₃.wf.ne_zero (hseen₃.wf.live hwaits))
    rw [hcurrent] at hready
    cases hseen₃.wf.apart hwaits hready
  · obtain ⟨v₄, hseen₄, hmoves₄⟩ := hseen₃.step hstep
    have hkills := hmoves₄.does.kills
      (Event.Ends.kills hseen₃ ((hseen₃.live_iff p).mp hlive₃) hp hends)
    rw [hseen₄.items]
    exact View.Kills.ready hkills hwaits hother.symm

/-- Task 2 has spawned task 3. -/
def parent : Kernel := booted.follow [.entry .timer, .entry (.spawn ⟨1⟩)]

theorem run_parent : kernelSystem.Run booted [.entry .timer, .entry (.spawn ⟨1⟩)] parent :=
  run_follow (by decide +kernel)

theorem current_parent : parent.currentRunning = 2 := by decide +kernel

theorem waits_until_end_spawned :
    (2 ∈ ((parent.after (.wait 3)).after .timer).items (.wait 3) ∧
      ((parent.after (.wait 3)).after .timer).currentRunning ≠ 2 ∧
      ((parent.after (.wait 3)).after .timer).Live 3) ∧
    ∀ event k₄, kernelSystem.step ((parent.after (.wait 3)).after .timer) event k₄ →
      event.Ends ((parent.after (.wait 3)).after .timer) 3 → 3 ≠ 1 → 2 ∈ k₄.items .ready := by
  have hrunning : parent.currentRunning ≠ 0 := by
    rw [current_parent]
    decide
  have hwait : kernelSystem.step parent (.entry (.wait 3)) (parent.after (.wait 3)) :=
    step_after ⟨by decide +kernel, fun hboot => absurd hboot hrunning, trivial⟩
      (by decide +kernel)
  have htimer : kernelSystem.step (parent.after (.wait 3)) (.entry .timer)
      ((parent.after (.wait 3)).after .timer) :=
    step_after ⟨by decide +kernel, fun _ => trivial, trivial⟩ (by decide +kernel)
  have h := waits_until_end initTask_zero run_parent
    (show parent.Live 3 by decide +kernel) (by rw [current_parent]; decide) hwait
    (.single ⟨fun _ _ => id, htimer⟩)
  rwa [current_parent] at h

end UcasOs.Sched
