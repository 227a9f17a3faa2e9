import UcasOs.Sched.ProcessTable

/-!
# Kernel entries keep the process table

Each entry and each continuation inside the kernel keeps `Inv`, and changes
the mutexes only as its `Effect` says.  The invariant of whole runs follows.
-/

namespace UcasOs.Sched

open UcasOs.Foundation UcasOs.Libs

variable {k k' : Kernel} {S : Pid → Prop} {boot : Prop}

/-- No pid was allocated or freed and no mutex changed. -/
def Quiet (k k' : Kernel) : Prop :=
  k'.pidList = k.pidList ∧ k'.mutexes = k.mutexes

theorem Frame.quiet (h : Frame k k') : Quiet k k' := ⟨h.pidList, h.mutexes⟩

/-- `do_mutex_lock_acquire` returned, or blocked the caller. -/
def Acquired (lock : Nat) (k k' : Kernel) : Prop :=
  k'.pidList = k.pidList ∧
    (((k.mutexes lock).owner = k.currentRunning ∧ k' = k) ∨
      ((k.mutexes lock).status = .unlocked ∧ k'.kont = k.kont ∧
        k'.mutexes = Function.update k.mutexes lock ⟨.locked, k.currentRunning⟩) ∨
      ((k.mutexes lock).status = .locked ∧ k'.mutexes = k.mutexes ∧
        k'.kont = Function.update k.kont k.currentRunning (.acquire lock)))

/-- The caller gave the lock up if it owned it. -/
def Released (lock : Nat) (k k' : Kernel) : Prop :=
  k'.pidList = k.pidList ∧
    (((k.mutexes lock).owner ≠ k.currentRunning ∧ k'.mutexes = k.mutexes) ∨
      ((k.mutexes lock).owner = k.currentRunning ∧
        k'.mutexes = Function.update k.mutexes lock ⟨.unlocked, 0⟩))

theorem Inv.pid_current (h : Inv k S boot) : (k.pcb k.currentRunning).pid = k.currentRunning := by
  obtain ⟨L, ht, -, hready⟩ := h
  exact ht.pid_eq (hready.elim (fun h0 => .inr h0.2) fun hm => .inl (ht.live hm))

theorem acquireLoop_inv (h : Inv k S boot) (hboot : k.currentRunning ≠ 0) (lock : Nat) :
    Meets IsPanic (fun k' => Inv k' S boot ∧ Acquired lock k k') (k.acquireLoop lock) := by
  unfold Kernel.acquireLoop
  by_cases hlocked : (k.mutexes lock).status = .locked
  · rw [if_pos hlocked]
    refine (doWait_inv h hboot (by simp) _ _).mono fun k' hk' => ?_
    exact ⟨hk'.1, hk'.2.pidList, .inr (.inr ⟨hlocked, hk'.2.mutexes, hk'.2.kont⟩)⟩
  · rw [if_neg hlocked]
    have hunlocked : (k.mutexes lock).status = .unlocked := by
      cases hs : (k.mutexes lock).status with
      | unlocked => rfl
      | locked => exact absurd hs hlocked
    have hinv : Inv (k.modifyPcb k.currentRunning
        fun p => { p with lockNum := p.lockNum + 1 }) S boot :=
      h.modifyPcb ⟨rfl, rfl, fun he => ⟨he.priority, he.schedulerPriority, he.waitTime⟩⟩
    have hpid := h.pid_current
    refine ⟨hinv.congr rfl rfl rfl fun _ => Pcb.Keeps.refl _, rfl,
      .inr (.inl ⟨hunlocked, rfl, ?_⟩)⟩
    simp [Kernel.setMutex, Kernel.modifyPcb, hpid]

theorem doMutexLockAcquire_inv (h : Inv k S boot) (hboot : k.currentRunning ≠ 0) (lock : Nat) :
    Meets IsPanic (fun k' => Inv k' S boot ∧ Acquired lock k k') (k.doMutexLockAcquire lock) := by
  unfold Kernel.doMutexLockAcquire
  by_cases howner : (k.mutexes lock).owner = (k.pcb k.currentRunning).pid
  · rw [if_pos howner]
    exact ⟨h, rfl, .inl ⟨howner.trans h.pid_current, rfl⟩⟩
  · rw [if_neg howner]
    exact acquireLoop_inv h hboot lock

theorem doMutexLockRelease_inv (h : Inv k S boot) (lock : Nat) :
    Meets IsPanic
      (fun k' => Inv k' S boot ∧ Released lock k k' ∧ k'.currentRunning = k.currentRunning)
      (k.doMutexLockRelease lock) := by
  unfold Kernel.doMutexLockRelease
  have hpid := h.pid_current
  by_cases howner : (k.mutexes lock).owner ≠ (k.pcb k.currentRunning).pid
  · rw [if_pos howner]
    exact ⟨h, ⟨rfl, .inl ⟨hpid ▸ howner, rfl⟩⟩, rfl⟩
  · rw [if_neg howner]
    rw [not_not, hpid] at howner
    refine (doUnblockOne_inv h (.mutex lock)).bind fun k₁ hk₁ => ?_
    obtain ⟨hinv₁, hframe, hcur⟩ := hk₁
    have hinv : Inv (k₁.modifyPcb k₁.currentRunning
        fun p => { p with lockNum := p.lockNum - 1 }) S boot :=
      hinv₁.modifyPcb ⟨rfl, rfl, fun he => ⟨he.priority, he.schedulerPriority, he.waitTime⟩⟩
    refine ⟨hinv.congr rfl rfl rfl fun _ => Pcb.Keeps.refl _,
      ⟨hframe.pidList, .inr ⟨howner, ?_⟩⟩, hcur⟩
    simp [Kernel.setMutex, Kernel.modifyPcb, hframe.mutexes]

theorem doConditionWait_inv (h : Inv k S boot) (hboot : k.currentRunning ≠ 0)
    (condition lock : Nat) :
    Meets IsPanic (fun k' => Inv k' S boot ∧ Released lock k k')
      (k.doConditionWait condition lock) := by
  have hinv : Inv (k.setCondition condition ((k.conditions condition).waitingNum + 1)) S boot :=
    h.congr rfl rfl rfl fun _ => Pcb.Keeps.refl _
  refine (doMutexLockRelease_inv hinv lock).bind fun k₁ hk₁ => ?_
  obtain ⟨hinv₁, ⟨hpids, hreleased⟩, hcur⟩ := hk₁
  have hboot₁ : k₁.currentRunning ≠ 0 := by rw [hcur]; exact hboot
  refine (doWait_inv hinv₁ hboot₁ (by simp) _ _).mono fun k₂ hk₂ => ?_
  obtain ⟨hinv₂, hframe⟩ := hk₂
  refine ⟨hinv₂, hframe.pidList.trans hpids, ?_⟩
  rw [hframe.mutexes]
  exact hreleased

theorem quiet_of_wait (h : Inv k S boot) (hboot : k.currentRunning ≠ 0) {q : QueueId}
    (hq : ∀ p, q = .wait p → k.Live p) (status : TaskStatus) :
    Meets IsPanic (fun k' => Inv k' S boot ∧ Quiet k k')
      (k.doWait k.currentRunning q status .ret) :=
  (doWait_inv h hboot hq status .ret).mono fun _ hk' => ⟨hk'.1, hk'.2.pidList, hk'.2.mutexes⟩

theorem doSemaphoreUp_inv (h : Inv k S boot) (s : Nat) :
    Meets IsPanic (fun k' => Inv k' S boot ∧ Quiet k k') (k.doSemaphoreUp s) := by
  have hinv : Inv (k.setSemaphore s ((k.semaphores s).value + 1)) S boot :=
    h.congr rfl rfl rfl fun _ => Pcb.Keeps.refl _
  simp only [Kernel.doSemaphoreUp]
  split
  · exact (doUnblockOne_inv hinv _).mono fun k' hk' => ⟨hk'.1, hk'.2.1.quiet⟩
  · exact ⟨hinv, rfl, rfl⟩

theorem doSemaphoreDown_inv (h : Inv k S boot) (hboot : k.currentRunning ≠ 0) (s : Nat) :
    Meets IsPanic (fun k' => Inv k' S boot ∧ Quiet k k') (k.doSemaphoreDown s) := by
  have hinv : Inv (k.setSemaphore s ((k.semaphores s).value - 1)) S boot :=
    h.congr rfl rfl rfl fun _ => Pcb.Keeps.refl _
  simp only [Kernel.doSemaphoreDown]
  split
  · exact quiet_of_wait hinv hboot (by simp) .blocked
  · exact ⟨hinv, rfl, rfl⟩

theorem doConditionSignal_inv (h : Inv k S boot) (condition : Nat) :
    Meets IsPanic (fun k' => Inv k' S boot ∧ Quiet k k') (k.doConditionSignal condition) := by
  unfold Kernel.doConditionSignal
  split
  · have hinv : Inv (k.setCondition condition ((k.conditions condition).waitingNum - 1)) S boot :=
      h.congr rfl rfl rfl fun _ => Pcb.Keeps.refl _
    exact (doUnblockOne_inv hinv _).mono fun k' hk' => ⟨hk'.1, hk'.2.1.quiet⟩
  · exact ⟨h, rfl, rfl⟩

theorem doConditionBroadcast_inv (h : Inv k S boot) (condition : Nat) :
    Meets IsPanic (fun k' => Inv k' S boot ∧ Quiet k k') (k.doConditionBroadcast condition) := by
  unfold Kernel.doConditionBroadcast
  split
  · have hinv : Inv (k.setCondition condition 0) S boot :=
      h.congr rfl rfl rfl fun _ => Pcb.Keeps.refl _
    exact (doUnblockAll_inv hinv (by simp)).mono fun k' hk' => ⟨hk'.1, hk'.2.1.quiet⟩
  · exact ⟨h, rfl, rfl⟩

theorem doBarrierWait_inv (h : Inv k S boot) (hboot : k.currentRunning ≠ 0) (barrier : Nat) :
    Meets IsPanic (fun k' => Inv k' S boot ∧ Quiet k k') (k.doBarrierWait barrier) := by
  have hinv : ∀ b b', Inv ((k.setBarrier barrier b).setBarrier barrier b') S boot := fun b b' =>
    h.congr rfl rfl rfl fun _ => Pcb.Keeps.refl _
  have hinv' : ∀ b, Inv (k.setBarrier barrier b) S boot := fun b =>
    h.congr rfl rfl rfl fun _ => Pcb.Keeps.refl _
  simp only [Kernel.doBarrierWait]
  split
  · exact (doUnblockAll_inv (hinv _ _) (by simp)).mono fun k' hk' => ⟨hk'.1, hk'.2.1.quiet⟩
  · exact quiet_of_wait (hinv' _) hboot (by simp) .waiting

theorem irqTimer_inv (h : Inv k S boot) :
    Meets IsPanic (fun k' => Inv k' S boot ∧ Quiet k k') k.irqTimer := by
  have hinv : Inv { k with timeElapsed := k.timeElapsed + 1 } S boot :=
    h.congr rfl rfl rfl fun _ => Pcb.Keeps.refl _
  refine (checkSleeping_inv hinv).bind fun k₁ hk₁ => ?_
  refine (doScheduler_inv hk₁.1 .ret).mono fun k₂ hk₂ => ?_
  exact ⟨hk₂.1, hk₂.2.pidList.trans hk₁.2.1.pidList, hk₂.2.mutexes.trans hk₁.2.1.mutexes⟩

theorem irqMac_inv (h : Inv k S boot) : Meets IsPanic (fun k' => Inv k' S boot ∧ Quiet k k') k.irqMac := by
  unfold Kernel.irqMac
  split
  · exact ⟨h, rfl, rfl⟩
  · exact (doUnblockOne_inv h _).mono fun k' hk' => ⟨hk'.1, hk'.2.1.quiet⟩

theorem doSleep_inv (h : Inv k S boot) (hboot : k.currentRunning ≠ 0) (time : BitVec 32) :
    Meets IsPanic (fun k' => Inv k' S boot ∧ Quiet k k') (k.doSleep time) := by
  have hinv : Inv (k.modifyPcb k.currentRunning fun p =>
      { p with awakenedTime := k.getTicks + time / Kernel.timeSlice }) S boot :=
    h.modifyPcb ⟨rfl, rfl, fun he => ⟨he.priority, he.schedulerPriority, he.waitTime⟩⟩
  exact quiet_of_wait hinv hboot (by simp) .sleeping

theorem wait_inv (h : Inv k S boot) (hboot : k.currentRunning ≠ 0) (pid : Int) :
    Meets IsPanic (fun k' => Inv k' S boot ∧ Quiet k k') (k.wait pid) := by
  unfold Kernel.wait
  split
  · exact ⟨h.setReg2 0, rfl, rfl⟩
  · rename_i hcond
    rw [not_or, Bool.not_eq_false] at hcond
    obtain ⟨i, rfl, hi⟩ := slistIsValid_iff.mp hcond.1
    refine quiet_of_wait (h.setReg2 1) hboot ?_ .waiting
    intro p hp
    rw [Int.toNat_natCast, QueueId.wait.injEq] at hp
    exact hp ▸ hi

/-- What an entry does to the pids and the mutexes. -/
def Effect (k k' : Kernel) : Entry → Prop
  | .spawn _ => Spawned k k'
  | .kill pid => Killed k k' ∧ k'.pidList = killPids k.pidList pid
  | .exit => Killed k k' ∧ k'.pidList = killPids k.pidList (k.pcb k.currentRunning).pid
  | .mutexInit lock =>
      k'.pidList = k.pidList ∧ k'.mutexes = Function.update k.mutexes lock ⟨.unlocked, 0⟩
  | .mutexAcquire lock => Acquired lock k k'
  | .mutexRelease lock | .conditionWait _ lock => Released lock k k'
  | _ => Quiet k k'

theorem enter_inv (h : Inv k S boot) (hS : ∀ p, ¬ S p) {e : Entry}
    (henabled : (Event.entry e).Enabled k) :
    Meets IsPanic (fun k' => Inv k' S boot ∧ Effect k k' e) (k.enter e) := by
  obtain ⟨-, hinterrupt, hallowed⟩ := henabled
  cases e with
  | spawn task => exact initPcb_inv h hallowed
  | kill pid => exact kill_inv h hS pid
  | exit => exact kill_inv h hS _
  | wait pid => exact wait_inv h hinterrupt pid
  | sleep time => exact doSleep_inv h hinterrupt time
  | mutexInit lock =>
      have hinv : Inv (k.setMutex lock ⟨.unlocked, 0⟩) S boot :=
        h.congr rfl rfl rfl fun _ => Pcb.Keeps.refl _
      exact ⟨hinv.queueInit hallowed, rfl, rfl⟩
  | mutexAcquire lock => exact doMutexLockAcquire_inv h hinterrupt lock
  | mutexRelease lock =>
      exact (doMutexLockRelease_inv h lock).mono fun k' hk' => ⟨hk'.1, hk'.2.1⟩
  | semaphoreInit s value =>
      have hinv : Inv (k.setSemaphore s (if value < 0 then 0 else value)) S boot :=
        h.congr rfl rfl rfl fun _ => Pcb.Keeps.refl _
      exact ⟨hinv.queueInit hallowed, rfl, rfl⟩
  | semaphoreUp s => exact doSemaphoreUp_inv h s
  | semaphoreDown s => exact doSemaphoreDown_inv h hinterrupt s
  | conditionInit condition =>
      have hinv : Inv (k.setCondition condition 0) S boot :=
        h.congr rfl rfl rfl fun _ => Pcb.Keeps.refl _
      exact ⟨hinv.queueInit hallowed, rfl, rfl⟩
  | conditionWait condition lock => exact doConditionWait_inv h hinterrupt condition lock
  | conditionSignal condition => exact doConditionSignal_inv h condition
  | conditionBroadcast condition => exact doConditionBroadcast_inv h condition
  | barrierInit barrier goal =>
      have hinv : Inv (k.setBarrier barrier ⟨if goal < 1 then 1 else goal, 0⟩) S boot :=
        h.congr rfl rfl rfl fun _ => Pcb.Keeps.refl _
      exact ⟨hinv.queueInit hallowed, rfl, rfl⟩
  | barrierWait barrier => exact doBarrierWait_inv h hinterrupt barrier
  | waitRecv => exact quiet_of_wait h hinterrupt (by simp) .blocked
  | timer => exact irqTimer_inv h
  | mac => exact irqMac_inv h

/-- What a continuation inside the kernel does to the pids and the mutexes. -/
def ResumeEffect (k k' : Kernel) : Prop :=
  ∃ lock, (k.kont k.currentRunning = .acquire lock ∨ k.kont k.currentRunning = .reacquire lock) ∧
    Acquired lock (k.park .ret) k'

theorem resume_inv (h : Inv k S boot) (henabled : Event.resume.Enabled k) :
    Meets IsPanic (fun k' => Inv k' S boot ∧ ResumeEffect k k') k.resume := by
  obtain ⟨hboot, hkont⟩ := henabled
  have hinv : Inv (k.park .ret) S boot := h.congr rfl rfl rfl fun _ => Pcb.Keeps.refl _
  unfold Kernel.resume
  cases hk : k.kont k.currentRunning with
  | ret => exact absurd hk hkont
  | acquire lock =>
      exact (acquireLoop_inv hinv hboot lock).mono fun k' hk' =>
        ⟨hk'.1, lock, .inl hk, hk'.2⟩
  | reacquire lock =>
      exact (doMutexLockAcquire_inv hinv hboot lock).mono fun k' hk' =>
        ⟨hk'.1, lock, .inr hk, hk'.2⟩

theorem exec_inv (h : Inv k S boot) (hS : ∀ p, ¬ S p) {event : Event} (henabled : event.Enabled k) :
    Meets IsPanic (fun k' => Inv k' S boot) (k.exec event) := by
  cases event with
  | entry e => exact (enter_inv h hS henabled).mono fun _ hk' => hk'.1
  | resume => exact (resume_inv h henabled).mono fun _ hk' => hk'.1

/-! ## Boot and runs -/

def noTask : Pid → Prop := fun _ => False

/-- The kernel between `slist_init(pid_list)` and the first `init_pcb`. -/
theorem beforeSpawn_table {k : Kernel} (hheap : k.heap.Holds fun _ => [])
    (hpids : ∃ free, Implements k.pidList maxTaskNum free)
    (hlive : ∀ p, ¬ k.Live p) (hpid : (k.pcb 0).pid = 0) : Table k (fun _ => []) noTask := by
  refine ⟨hheap, hpids, by simp, by simp, ?_, by simp, ?_, ?_, ?_⟩
  · exact fun hp => absurd hp (hlive _)
  · exact fun hp => hp.elim
  · rintro p (hp | rfl)
    · exact absurd hp (hlive p)
    · exact hpid
  · exact fun hp => absurd hp (hlive _)

theorem zero_holds : Kernel.zero.heap.Holds fun _ => [] :=
  ⟨fun _ => ⟨rfl, rfl, List.nodup_nil, trivial⟩, by simp [LinkHeap.Apart]⟩

theorem slistInit_live {k : Kernel} (hpids : k.pidList = slistInit Kernel.zero.pidList maxTaskNum)
    (p : Pid) : ¬ k.Live p := by
  intro hp
  have hlive := hp.2.2
  rw [hpids] at hlive
  simp [slistInit, hp.2.1] at hlive
  have := hp.1
  omega

/-- What holds of a kernel without tasks and is kept by spawning holds after `init_task`. -/
theorem initTask_keeps {I : Kernel → Prop} (hstart : ∀ k, (∀ p, ¬ k.Live p) → I k)
    (hspawn : ∀ k task, Inv k noTask True → I k → Meets (fun _ => True) I (k.initPcb task)) :
    Meets IsPanic (fun k => Inv k noTask True ∧ I k) (initTask Kernel.zero) := by
  have hnext : ∀ {k : Kernel} {task : TaskInfo}, 1 ≤ task.priority → Inv k noTask True → I k →
      Meets IsPanic (fun k' => Inv k' noTask True ∧ I k') (k.initPcb task) := by
    intro k task htask hinv hI
    refine ((initPcb_inv hinv htask).and (hspawn k task hinv hI)).mono fun k' hk' => ?_
    exact ⟨hk'.1.1, hk'.2⟩
  unfold initTask
  refine (hnext (by decide) ⟨_, beforeSpawn_table ?_ ?_ (slistInit_live rfl) ?_, fun _ _ => rfl,
    .inl ⟨trivial, rfl⟩⟩ (hstart _ (slistInit_live rfl))).bind fun k hk =>
      hnext (by decide) hk.1 hk.2
  · exact queueInit_holds (queueInit_holds (queueInit_holds zero_holds rfl) rfl) rfl
  · exact ⟨_, slistInit_implements (by decide)⟩
  · simp [Kernel.modifyPcb]

theorem initTask_inv : Meets IsPanic (fun k => Inv k noTask True) (initTask Kernel.zero) := by
  refine (initTask_keeps (I := fun _ => True) (fun _ _ => trivial) ?_).mono fun _ hk => hk.1
  intro k task hinv _
  cases k.initPcb task <;> trivial

theorem inv_run {events : List Event} (run : kernelSystem.Run k events k')
    (h : Inv k noTask boot) : Inv k' noTask boot := by
  refine run.invariant (I := fun k => Inv k noTask boot) ?_ h
  intro k₁ event k₂ h hstep
  exact (exec_inv h (fun _ => id) hstep.1).of_ok hstep.2

theorem inv_of_run {events : List Event} (hinit : initTask Kernel.zero = .ok k)
    (run : kernelSystem.Run k events k') : Inv k' noTask True :=
  inv_run run (initTask_inv.of_ok hinit)

/-- The kernel after `init_task`. -/
def booted : Kernel := (initTask Kernel.zero).toOption.getD Kernel.zero

def Kernel.after (k : Kernel) (e : Entry) : Kernel := (k.enter e).toOption.getD k

def Kernel.next (k : Kernel) (event : Event) : Kernel := (k.exec event).toOption.getD k

/-- The state that the events lead to, where they can. -/
def Kernel.follow (k : Kernel) (events : List Event) : Kernel := events.foldl Kernel.next k

def Kernel.canFollow : Kernel → List Event → Bool
  | _, [] => true
  | k, event :: rest =>
      decide (event.Enabled k) && (k.exec event).isOk && (k.next event).canFollow rest

theorem run_follow {events : List Event} (h : k.canFollow events = true) :
    kernelSystem.Run k events (k.follow events) := by
  induction events generalizing k with
  | nil => exact .nil k
  | cons event rest ih =>
      simp only [Kernel.canFollow, Bool.and_eq_true, decide_eq_true_eq] at h
      obtain ⟨⟨henabled, hok⟩, hrest⟩ := h
      have hstep : kernelSystem.step k event (k.next event) := ⟨henabled, eq_ok_getD hok k⟩
      exact (Lts.Run.single hstep).append (ih hrest)

/-- The first timer interrupt leaves the boot task. -/
def ticked : Kernel := booted.after .timer

/-- The shell has spawned a task, which runs. -/
def spawned : Kernel :=
  (((ticked.after .timer).after (.spawn ⟨1⟩)).after .timer).after .timer

theorem initTask_zero : initTask Kernel.zero = .ok booted := rfl

theorem run_ticked : kernelSystem.Run booted [.entry .timer] ticked :=
  .single ⟨⟨rfl, fun _ => trivial, trivial⟩, rfl⟩

theorem step_after {k : Kernel} {e : Entry} (henabled : (Event.entry e).Enabled k)
    (hok : (k.enter e).isOk = true) : kernelSystem.step k (.entry e) (k.after e) :=
  ⟨henabled, eq_ok_getD hok k⟩

theorem run_spawned : kernelSystem.Run booted
    [.entry .timer, .entry .timer, .entry (.spawn ⟨1⟩), .entry .timer, .entry .timer]
    spawned := by
  refine .snoc (.snoc (.snoc (.snoc run_ticked (step_after ⟨?_, ?_, ?_⟩ ?_))
    (step_after ⟨?_, ?_, ?_⟩ ?_)) (step_after ⟨?_, ?_, ?_⟩ ?_)) (step_after ⟨?_, ?_, ?_⟩ ?_)
  · decide +kernel
  · exact fun _ => trivial
  · trivial
  · decide +kernel
  · decide +kernel
  · exact fun h => absurd h (by decide +kernel)
  · exact le_refl 1
  · decide +kernel
  · decide +kernel
  · exact fun _ => trivial
  · trivial
  · decide +kernel
  · decide +kernel
  · exact fun _ => trivial
  · trivial
  · decide +kernel

/-- A running task that is not the boot task is in the ready queue, and stays so for ever. -/
theorem Inv.leave_boot (h : Inv k S boot) (hboot : k.currentRunning ≠ 0) : Inv k S False := by
  obtain ⟨L, ht, hwait, hready⟩ := h
  exact ⟨L, ht, hwait, .inr (hready.resolve_left fun h0 => hboot h0.2)⟩

/--
The queues hold lists `L` with every allocated pid in exactly one of them, and no
enabled kernel entry stops other than by a panic.
-/
theorem processTable_of_run {k k₁ k₂ : Kernel} {events more : List Event}
    (hinit : initTask Kernel.zero = .ok k) (run₁ : kernelSystem.Run k events k₁)
    (run₂ : kernelSystem.Run k₁ more k₂) :
    ∃ L : QueueId → List Pid,
      (∀ q, k₂.heap.Represents q (L q)) ∧
      (∀ p, k₂.Live p → ∃! q, p ∈ L q) ∧
      (∀ p q, p ∈ L q → (k₂.pcb p).queue = some q) ∧
      (∀ p, ¬ k₂.Live p → (∀ q, p ∉ L q) ∧ L (.wait p) = []) ∧
      (k₁.currentRunning ≠ 0 → k₂.currentRunning ∈ L .ready) ∧
      ∀ event : Event, event.Enabled k₂ → Meets IsPanic (fun _ => True) (k₂.exec event) := by
  have hinv₁ := inv_of_run hinit run₁
  have hinv : Inv k₂ noTask (k₁.currentRunning = 0) := by
    by_cases hboot : k₁.currentRunning = 0
    · simpa [hboot] using inv_run run₂ hinv₁
    · simpa [hboot] using inv_run run₂ (hinv₁.leave_boot hboot)
  obtain ⟨L, ht, hwait, hready⟩ := hinv
  refine ⟨L, ht.holds.represents, ?_, fun p q hp => ht.queue_eq hp, ?_, ?_, ?_⟩
  · intro p hp
    obtain ⟨q, hq⟩ := ht.covered hp id
    exact ⟨q, hq, fun q' hq' => ht.holds.apart hq' hq⟩
  · intro p hp
    exact ⟨fun q hq => hp (ht.live hq), hwait p hp⟩
  · intro hboot
    exact hready.resolve_left fun h0 => hboot h0.1
  · intro event henabled
    exact (exec_inv ⟨L, ht, hwait, hready⟩ (fun _ => id) henabled).mono fun _ _ => trivial

/-- The boot task is left at the first tick. -/
theorem processTable_ticked :
    ticked.currentRunning ≠ 0 ∧ ∃ L : QueueId → List Pid, ticked.currentRunning ∈ L .ready ∧
      ∀ q, ticked.heap.Represents q (L q) := by
  have hboot : ticked.currentRunning ≠ 0 := by decide
  obtain ⟨L, hrep, -, -, -, hready, -⟩ :=
    processTable_of_run initTask_zero run_ticked (.nil ticked)
  exact ⟨hboot, L, hready hboot, hrep⟩

end UcasOs.Sched
