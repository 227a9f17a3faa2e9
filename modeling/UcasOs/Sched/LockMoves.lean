import UcasOs.Sched.Moves

/-!
# What a move does to the mutexes

Most events leave the mutexes, their queues and the tasks that come back to
them as they were.  The others spawn a task, initialise, take or give up a
mutex, block on one, or kill a task; `Moves.lock_cases` says so once for all
events.
-/

namespace UcasOs.Sched

open UcasOs.Foundation UcasOs.Libs

namespace View

/-- The mutexes are left alone, and of the tasks at most the running one goes on elsewhere. -/
structure Steady (v v' : View) : Prop where
  mutexes : v'.mutexes = v.mutexes
  lockNum : v'.lockNum = v.lockNum
  live : v'.live = v.live
  queue : ∀ lock, v'.queue (.mutex lock) = v.queue (.mutex lock)
  ready : ∀ p ∈ v.queue .ready, p ≠ v.current → p ∈ v'.queue .ready
  kont : ∀ p, p ≠ v.current → v'.kont p = v.kont p
  fresh : ∀ lock, v'.kont v.current = .acquire lock → v.kont v.current = .acquire lock

variable {v v' v₁ v₂ : View} {q : QueueId} {event : Event} {lock : Nat} {kont : Kont}
  {status : TaskStatus} {pid p : Pid}

theorem Steady.refl (v : View) : v.Steady v :=
  ⟨rfl, rfl, rfl, fun _ => rfl, fun _ hp _ => hp, fun _ _ => rfl, fun _ => id⟩

theorem Steady.trans (h : v.Steady v₁) (hcurrent : v₁.current = v.current)
    (h' : v₁.Steady v₂) : v.Steady v₂ where
  mutexes := h'.mutexes.trans h.mutexes
  lockNum := h'.lockNum.trans h.lockNum
  live := h'.live.trans h.live
  queue lock := (h'.queue lock).trans (h.queue lock)
  ready p hp hne := h'.ready p (h.ready p hp hne) (hcurrent ▸ hne)
  kont p hne := (h'.kont p (hcurrent ▸ hne)).trans (h.kont p hne)
  fresh lock hkont := h.fresh lock (hcurrent ▸ h'.fresh lock (hcurrent.symm ▸ hkont))

theorem steady_of_queue (hmutexes : v'.mutexes = v.mutexes) (hlockNum : v'.lockNum = v.lockNum)
    (hlive : v'.live = v.live) (hkont : v'.kont = v.kont) (hqueue : v'.queue = v.queue) :
    v.Steady v' :=
  ⟨hmutexes, hlockNum, hlive, fun _ => by rw [hqueue], fun _ hp _ => by rwa [hqueue],
    fun _ _ => by rw [hkont], fun _ hacquire => by rwa [hkont] at hacquire⟩

/-- A step after an update that is not about mutexes or queues. -/
theorem Steady.after_set (h : v₁.Steady v') (hmutexes : v₁.mutexes = v.mutexes)
    (hlockNum : v₁.lockNum = v.lockNum) (hlive : v₁.live = v.live) (hkont : v₁.kont = v.kont)
    (hqueue : v₁.queue = v.queue) (hcurrent : v₁.current = v.current) : v.Steady v' :=
  (steady_of_queue hmutexes hlockNum hlive hkont hqueue).trans hcurrent h

theorem Switches.steady (hkont : ∀ lock, kont ≠ .acquire lock) (h : v.Switches kont v') :
    v.Steady v' := by
  obtain ⟨next, -, rfl⟩ := h
  refine ⟨rfl, rfl, rfl, fun _ => rfl, fun _ hp _ => hp,
    fun p hp => Function.update_of_ne hp _ _, fun lock hacquire => ?_⟩
  rw [switch_kont, Function.update_self] at hacquire
  exact absurd hacquire (hkont lock)

theorem Waits.steady (hq : ∀ lock, q ≠ .mutex lock) (hkont : ∀ lock, kont ≠ .acquire lock)
    (h : v.Waits q status kont v') : v.Steady v' := by
  have hblock : v.Steady (v.block q status) := by
    refine ⟨rfl, rfl, rfl, ?_, ?_, fun _ _ => rfl, fun _ => id⟩
    · intro lock
      simp [block, join, leave, (hq lock).symm]
    · intro p hp hne
      refine mem_join.mpr (.inl ?_)
      rw [leave, Function.update_self]
      exact (List.mem_erase_of_ne hne).mpr hp
  exact hblock.trans rfl (Switches.steady hkont h)

theorem WakesOne.steady (hq : ∀ lock, q ≠ .mutex lock) (h : v.WakesOne q v') : v.Steady v' := by
  obtain ⟨-, rfl⟩ | ⟨p, -, rfl⟩ := h
  · exact Steady.refl _
  · refine ⟨rfl, rfl, rfl, ?_, ?_, fun _ _ => rfl, fun _ => id⟩
    · intro lock
      simp [wake, join, leave, (hq lock).symm]
    · intro x hx _
      change x ∈ join (leave v.queue q p) .ready p .ready
      refine mem_join.mpr ?_
      by_cases hxp : x = p
      · exact .inr ⟨rfl, hxp⟩
      · refine .inl ?_
        by_cases hready : q = .ready
        · subst hready
          rw [leave, Function.update_self]
          exact (List.mem_erase_of_ne hxp).mpr hx
        · rwa [leave, Function.update_of_ne (Ne.symm hready)]

theorem wakeAll_steady (v : View) (hq : ∀ lock, q ≠ .mutex lock) : v.Steady (v.wakeAll q) := by
  refine ⟨rfl, rfl, rfl, ?_, ?_, fun _ _ => rfl, fun _ => id⟩
  · intro lock
    simp [wakeAll, (hq lock).symm]
  · intro p hp _
    simp [wakeAll, hp]

theorem wakeSleeper_steady (v : View) :
    v.Steady v.wakeSleeper ∧ v.wakeSleeper.current = v.current := by
  unfold wakeSleeper
  cases (v.queue .sleep).find? fun p => v.Due p with
  | none => exact ⟨Steady.refl v, rfl⟩
  | some p =>
      refine ⟨⟨rfl, rfl, rfl, ?_, ?_, fun _ _ => rfl, fun _ => id⟩, rfl⟩
      · intro lock
        simp [awaken, join, leave]
      · intro x hx _
        simp [awaken, join, leave, hx]

/-! ## Taking and giving up -/

/-- Entering the kernel, the running task is not on its way back to a lock. -/
def Fresh (v : View) : Prop := ∀ lock, v.kont v.current ≠ .acquire lock

/-- The running task comes to the loop of `do_mutex_lock_acquire(lock)`. -/
def Comes (v : View) (lock : Nat) : Prop :=
  v.current ≠ 0 ∧ (∀ lock', v.kont v.current = .acquire lock' → lock' = lock) ∧
    (v.kont v.current = .acquire lock ∨ (v.mutexes lock).owner ≠ v.current)

/-- `v` as it is when the running task has come to that loop. -/
def AtLoop (v v₀ : View) : Prop := (v₀ = v ∧ v.Fresh) ∨ v₀ = v.park .ret

/-- The running task takes the open lock. -/
def TakesOpen (lock : Nat) (v v' : View) : Prop :=
  (v.mutexes lock).status ≠ .locked ∧
    ∃ v₀, v.AtLoop v₀ ∧ v' = (v₀.addLocks v.current 1).setMutex lock ⟨.locked, v.current⟩

/-- The running task blocks on the lock. -/
def BlocksOn (lock : Nat) (v v' : View) : Prop :=
  (v.mutexes lock).status = .locked ∧
    ∃ v₀, v.AtLoop v₀ ∧ v₀.Waits (.mutex lock) .blocked (.acquire lock) v'

/-- The running task gives its lock up, and may block elsewhere. -/
def GivesUp (lock : Nat) (v v' : View) : Prop :=
  (v.mutexes lock).owner = v.current ∧
    ∃ v₁, v.WakesOne (.mutex lock) v₁ ∧
      ((v₁.addLocks v.current (-1)).setMutex lock ⟨.unlocked, 0⟩).Steady v'

theorem Takes.cases {v₀ : View} (hloop : v.AtLoop v₀) (h : v₀.Takes lock v') :
    v.TakesOpen lock v' ∨ v.BlocksOn lock v' := by
  have hmutexes : v₀.mutexes = v.mutexes := by
    obtain ⟨rfl, -⟩ | rfl := hloop <;> rfl
  have hcurrent : v₀.current = v.current := by
    obtain ⟨rfl, -⟩ | rfl := hloop <;> rfl
  unfold Takes at h
  rw [hmutexes, hcurrent] at h
  split at h
  · exact .inr ⟨‹_›, v₀, hloop, h⟩
  · exact .inl ⟨‹_›, v₀, hloop, h⟩

theorem WakesOne.current (h : v.WakesOne q v') : v'.current = v.current := by
  obtain ⟨-, rfl⟩ | ⟨p, -, rfl⟩ := h <;> rfl

theorem Releases.cases (h : v.Releases lock v') : v' = v ∨ v.GivesUp lock v' := by
  unfold Releases at h
  split at h
  · exact .inl h
  · rename_i howner
    obtain ⟨v₁, hwakes, rfl⟩ := h
    exact .inr ⟨not_not.mp howner, v₁, hwakes, Steady.refl _⟩

/-- What an event does to the mutexes. -/
def LockStep (v v' : View) (event : Event) : Prop :=
  (v.Fresh ∧ v.Steady v') ∨
  (v.Fresh ∧ ∃ pid, ¬ v.live pid ∧ pid ≠ 0 ∧ v' = v.spawn pid) ∨
  (v.Fresh ∧ ∃ lock, event = .entry (.mutexInit lock) ∧ v.queue (.mutex lock) = [] ∧
    v' = v.setMutex lock ⟨.unlocked, 0⟩) ∨
  (∃ lock, v.Comes lock ∧ v.TakesOpen lock v') ∨
  (∃ lock, v.Comes lock ∧ v.BlocksOn lock v') ∨
  (v.Fresh ∧ v.current ≠ 0 ∧ ∃ lock, v.GivesUp lock v') ∨
  (v.Fresh ∧ ∃ p, event.Kills v p ∧ v.Kills p v')

theorem LockStep.of_takes (hcomes : v.Comes lock) {v₀ : View} (hloop : v.AtLoop v₀)
    (h : v₀.Takes lock v') : v.LockStep v' event := by
  obtain htakes | hblocks := h.cases hloop
  · exact .inr (.inr (.inr (.inl ⟨lock, hcomes, htakes⟩)))
  · exact .inr (.inr (.inr (.inr (.inl ⟨lock, hcomes, hblocks⟩))))

theorem LockStep.of_killStep {pid : Int} (hfresh : v.Fresh)
    (hkills : ∀ p, pid ≠ 1 → v.Accepts pid p → event.Kills v p) (h : v.KillStep pid v') :
    v.LockStep v' event := by
  obtain ⟨-, rfl⟩ | ⟨hone, p, haccepted, hkilled⟩ := h
  · exact .inl ⟨hfresh, Steady.refl _⟩
  · exact .inr (.inr (.inr (.inr (.inr (.inr ⟨hfresh, p, hkills p hone haccepted, hkilled⟩)))))

/-- A lock given up inside `do_condition_wait`, where the caller then waits. -/
theorem GivesUp.conditionWait {condition : Nat} {waitingNum : Int}
    (hgives : (v.setCondition condition waitingNum).GivesUp lock v₁)
    (hwaits : v₁.Waits (.condition condition) .blocked (.reacquire lock) v')
    (hcurrent : v₁.current = v.current) :
    v.GivesUp lock v' := by
  obtain ⟨howner, v₂, hwakes, hsteady⟩ := hgives
  have hrest := hwaits.steady (by simp) (by simp)
  obtain ⟨hnil, rfl⟩ | ⟨p, hp, rfl⟩ := hwakes
  · refine ⟨howner, v, .inl ⟨hnil, rfl⟩, Steady.trans ?_ ?_ (hsteady.trans ?_ hrest)⟩
    · exact steady_of_queue rfl rfl rfl rfl rfl
    · rfl
    · exact hcurrent
  · refine ⟨howner, v.wake (.mutex lock) p, .inr ⟨p, hp, rfl⟩,
      Steady.trans ?_ ?_ (hsteady.trans ?_ hrest)⟩
    · exact steady_of_queue rfl rfl rfl rfl rfl
    · rfl
    · exact hcurrent

theorem Releases.current (h : v.Releases lock v') : v'.current = v.current := by
  unfold Releases at h
  split at h
  · rw [h]
  · obtain ⟨v₁, hwakes, rfl⟩ := h
    exact hwakes.current

theorem LockStep.of_conditionWait {condition : Nat} (hfresh : v.Fresh) (hboot : v.current ≠ 0)
    (h : v.Step v' (.conditionWait condition lock)) : v.LockStep v' event := by
  obtain ⟨v₁, hreleases, hwaits⟩ := h
  have hcurrent : v₁.current = v.current := hreleases.current
  have hset : v.Steady (v.setCondition condition ((v.conditions condition).waitingNum + 1)) :=
    steady_of_queue rfl rfl rfl rfl rfl
  obtain rfl | hgives := hreleases.cases
  · exact .inl ⟨hfresh, hset.trans rfl (hwaits.steady (by simp) (by simp))⟩
  · exact .inr (.inr (.inr (.inr (.inr (.inl
      ⟨hfresh, hboot, lock, hgives.conditionWait hwaits hcurrent⟩)))))

theorem Step.lockStep {e : Entry} (hret : v.kont v.current = .ret)
    (hinterrupt : v.current = 0 → e.IsInterrupt) (hallows : v.Allows e) (h : v.Step v' e) :
    v.LockStep v' (.entry e) := by
  have hfresh : v.Fresh := by
    intro lock hkont
    rw [hret] at hkont
    cases hkont
  cases e with
  | spawn task =>
      obtain rfl | hspawned := h
      · exact .inl ⟨hfresh, Steady.refl _⟩
      · exact .inr (.inl ⟨hfresh, hspawned⟩)
  | kill pid => exact LockStep.of_killStep hfresh (fun p hone hacc => ⟨hone, hacc⟩) h
  | exit => exact LockStep.of_killStep hfresh (fun p hone hacc => ⟨hone, hacc⟩) h
  | wait pid =>
      obtain ⟨-, rfl⟩ | ⟨-, p, -, hwaits⟩ := h
      · exact .inl ⟨hfresh, Steady.refl _⟩
      · exact .inl ⟨hfresh, hwaits.steady (by simp) (by simp)⟩
  | sleep time =>
      exact .inl ⟨hfresh, (Waits.steady (by simp) (by simp) h).after_set rfl rfl rfl rfl rfl rfl⟩
  | mutexInit lock => exact .inr (.inr (.inl ⟨hfresh, lock, rfl, hallows, h⟩))
  | mutexAcquire lock =>
      simp only [Step, Acquires] at h
      split at h
      · rw [h]
        exact .inl ⟨hfresh, Steady.refl _⟩
      · rename_i howner
        have hcomes : v.Comes lock :=
          ⟨hinterrupt, fun lock' hkont => absurd hkont (hfresh lock'), .inr howner⟩
        exact LockStep.of_takes hcomes (.inl ⟨rfl, hfresh⟩) h
  | mutexRelease lock =>
      obtain rfl | hgives := Releases.cases h
      · exact .inl ⟨hfresh, Steady.refl _⟩
      · exact .inr (.inr (.inr (.inr (.inr (.inl ⟨hfresh, hinterrupt, lock, hgives⟩)))))
  | semaphoreInit s value =>
      rw [show v' = v.setSemaphore s _ from h]
      exact .inl ⟨hfresh, steady_of_queue rfl rfl rfl rfl rfl⟩
  | semaphoreUp s =>
      simp only [Step] at h
      split at h
      · exact .inl ⟨hfresh, (WakesOne.steady (by simp) h).after_set rfl rfl rfl rfl rfl rfl⟩
      · exact .inl ⟨hfresh, h ▸ steady_of_queue rfl rfl rfl rfl rfl⟩
  | semaphoreDown s =>
      simp only [Step] at h
      split at h
      · exact .inl ⟨hfresh, (Waits.steady (by simp) (by simp) h).after_set rfl rfl rfl rfl rfl rfl⟩
      · exact .inl ⟨hfresh, h ▸ steady_of_queue rfl rfl rfl rfl rfl⟩
  | conditionInit condition =>
      rw [show v' = v.setCondition condition 0 from h]
      exact .inl ⟨hfresh, steady_of_queue rfl rfl rfl rfl rfl⟩
  | conditionWait condition lock => exact LockStep.of_conditionWait hfresh hinterrupt h
  | conditionSignal condition =>
      simp only [Step] at h
      split at h
      · exact .inl ⟨hfresh, (WakesOne.steady (by simp) h).after_set rfl rfl rfl rfl rfl rfl⟩
      · exact .inl ⟨hfresh, h ▸ Steady.refl _⟩
  | conditionBroadcast condition =>
      simp only [Step] at h
      split at h
      · rw [h]
        exact .inl ⟨hfresh, (wakeAll_steady _ (by simp)).after_set rfl rfl rfl rfl rfl rfl⟩
      · exact .inl ⟨hfresh, h ▸ Steady.refl _⟩
  | barrierInit barrier goal =>
      rw [show v' = v.setBarrier barrier _ from h]
      exact .inl ⟨hfresh, steady_of_queue rfl rfl rfl rfl rfl⟩
  | barrierWait barrier =>
      simp only [Step] at h
      split at h
      · rw [h]
        exact .inl ⟨hfresh, (wakeAll_steady _ (by simp)).after_set rfl rfl rfl rfl rfl rfl⟩
      · exact .inl ⟨hfresh, (Waits.steady (by simp) (by simp) h).after_set rfl rfl rfl rfl rfl rfl⟩
  | waitRecv => exact .inl ⟨hfresh, Waits.steady (by simp) (by simp) h⟩
  | timer =>
      obtain ⟨hsteady, hcurrent⟩ := wakeSleeper_steady { v with time := v.time + 1 }
      exact .inl ⟨hfresh, (hsteady.trans hcurrent (Switches.steady (by simp) h)).after_set rfl rfl rfl rfl
        rfl rfl⟩
  | mac => exact .inl ⟨hfresh, WakesOne.steady (by simp) h⟩

theorem Resumes.lockStep (hboot : v.current ≠ 0) (hret : v.kont v.current ≠ .ret)
    (h : v.Resumes v') : v.LockStep v' .resume := by
  unfold Resumes at h
  cases hkont : v.kont v.current with
  | ret => exact absurd hkont hret
  | acquire lock =>
      rw [hkont] at h
      have hcomes : v.Comes lock := by
        refine ⟨hboot, ?_, .inl hkont⟩
        intro lock' hkont'
        rw [hkont] at hkont'
        cases hkont'
        rfl
      exact LockStep.of_takes hcomes (.inr rfl) h
  | reacquire lock =>
      rw [hkont] at h
      have hfresh : v.Fresh := by
        intro lock' hkont'
        rw [hkont] at hkont'
        cases hkont'
      simp only [Acquires] at h
      split at h
      · rw [h]
        refine .inl ⟨hfresh, rfl, rfl, rfl, fun _ => rfl, fun _ hp _ => hp,
          fun p hp => Function.update_of_ne hp _ _, fun lock' hacquire => ?_⟩
        rw [park_kont, Function.update_self] at hacquire
        cases hacquire
      · rename_i howner
        have hcomes : v.Comes lock :=
          ⟨hboot, fun lock' hkont' => absurd hkont' (hfresh lock'), .inr howner⟩
        exact LockStep.of_takes hcomes (.inr rfl) h

theorem Moves.lockStep (h : v.Moves event v') : v.LockStep v' event := by
  cases event with
  | entry e => exact Step.lockStep h.enabled.1 h.enabled.2.1 h.enabled.2.2 h.does
  | resume => exact Resumes.lockStep h.enabled.1 h.enabled.2 h.does

end View

end UcasOs.Sched
