import UcasOs.Sched.Entries

/-!
# Bounds of the scheduler priority

A wake-up adds one to the scheduler priority of a task, a switch to it takes one
away.  A task can be woken again only after it has run and waited, so it is
always switched to between two wake-ups.
-/

namespace UcasOs.Sched

open UcasOs.Foundation UcasOs.Libs

def Pcb.Fresh (b : Pcb) : Prop := b.schedulerPriority ≤ max b.priority 2

/-- The bound after a switch to the task, which leaves room for one wake-up. -/
def Pcb.Spent (b : Pcb) : Prop := b.schedulerPriority ≤ max (b.priority - 1) 1

theorem Pcb.Spent.fresh {b : Pcb} (h : b.Spent) : b.Fresh := by
  unfold Pcb.Spent at h
  unfold Pcb.Fresh
  omega

/-- A ready task that is not running may have been woken since it was switched to. -/
def Pcb.Paced (b : Pcb) (running : Prop) : Prop :=
  b.Fresh ∧ (running ∨ b.queue ≠ some .ready → b.Spent)

theorem Pcb.Spent.paced {b : Pcb} (h : b.Spent) (running : Prop) : b.Paced running :=
  ⟨h.fresh, fun _ => h⟩

def Paced (k : Kernel) : Prop :=
  ∀ p, k.Live p → (k.pcb p).Paced (p = k.currentRunning)

/-- What an update of a PCB that is not about scheduling leaves alone. -/
structure Pcb.SamePace (b b' : Pcb) : Prop where
  priority : b'.priority = b.priority
  schedulerPriority : b'.schedulerPriority = b.schedulerPriority
  queue : b'.queue = b.queue

variable {k k' : Kernel} {L L' : QueueId → List Pid} {S : Pid → Prop} {boot : Prop}

theorem Pcb.SamePace.refl (b : Pcb) : b.SamePace b := ⟨rfl, rfl, rfl⟩

theorem Pcb.SamePace.paced {b b' : Pcb} {running : Prop} (h : b.SamePace b')
    (hb : b.Paced running) : b'.Paced running := by
  unfold Pcb.Paced Pcb.Fresh Pcb.Spent at hb ⊢
  rwa [h.priority, h.schedulerPriority, h.queue]

theorem Paced.congr (h : Paced k) (hpids : k'.pidList = k.pidList)
    (hcur : k'.currentRunning = k.currentRunning)
    (hpcb : ∀ p, (k.pcb p).SamePace (k'.pcb p)) : Paced k' := by
  intro p hp
  rw [Kernel.Live, hpids] at hp
  rw [hcur]
  exact (hpcb p).paced (h p hp)

theorem Paced.modifyPcb (h : Paced k) {x : Pid} {f : Pcb → Pcb}
    (hf : (k.pcb x).SamePace (f (k.pcb x))) : Paced (k.modifyPcb x f) := by
  refine h.congr rfl rfl fun p => ?_
  by_cases hp : p = x
  · subst hp
    simpa [Kernel.modifyPcb] using hf
  · simpa [Kernel.modifyPcb, hp] using Pcb.SamePace.refl _

/-! ## Switching -/

/-- A switch takes one away, down to one. -/
theorem Pcb.Fresh.switched {b : Pcb} (h : b.Fresh) :
    (if b.schedulerPriority > 1 then b.schedulerPriority - 1 else b.schedulerPriority) ≤
      max (b.priority - 1) 1 := by
  unfold Pcb.Fresh at h
  split <;> omega

theorem Paced.switchTo (h : Paced k) (next : Pid) : Paced (k.switchTo next) := by
  intro p hp
  have hpaced := h p hp
  by_cases hnext : p = next
  · subst hnext
    have hspent : ((k.switchTo p).pcb p).Spent := by
      simpa [Kernel.switchTo, Kernel.modifyPcb, Pcb.Spent] using hpaced.1.switched
    exact hspent.paced _
  · have hpcb : (k.switchTo next).pcb p = k.pcb p := by
      simp [Kernel.switchTo, Kernel.modifyPcb, hnext]
    rw [hpcb]
    exact ⟨hpaced.1, fun hor => hpaced.2 (.inr (hor.resolve_left hnext))⟩

theorem Paced.aged (h : Paced k) {pcb : Pid → Pcb}
    (hpcb : ∀ p, ∃ w, (k.pcb p).waitTime ≤ w ∧ pcb p = { k.pcb p with waitTime := w }) :
    Paced { k with pcb } := by
  refine h.congr rfl rfl fun p => ?_
  obtain ⟨w, -, heq⟩ := hpcb p
  simp only [heq]
  exact ⟨rfl, rfl, rfl⟩

theorem Paced.saveCurrent (h : Paced k) : Paced k.saveCurrent := by
  unfold Kernel.saveCurrent
  exact h.modifyPcb ⟨rfl, rfl, rfl⟩

theorem doScheduler_paced (h : Paced k) (kont : Kont) :
    Meets (fun _ => True) Paced (k.doScheduler kont) := by
  unfold Kernel.doScheduler Kernel.scheduler
  split
  · trivial
  · have hparked : Paced { k with kont := Function.update k.kont k.currentRunning kont } :=
      h.congr rfl rfl fun _ => Pcb.SamePace.refl _
    refine (scan_pcb _ _ _ _).bind fun s hs => ?_
    exact (hparked.saveCurrent.aged hs).switchTo _

/-- A task that waits has been switched to. -/
theorem doWait_paced (h : Paced k) (q : QueueId) (status : TaskStatus) (kont : Kont) :
    Meets (fun _ => True) Paced (k.doWait k.currentRunning q status kont) := by
  unfold Kernel.doWait
  refine (remove_heap _ _ _).bind ?_
  rintro _ ⟨heap, rfl⟩
  refine (push_heap _ _ _).bind ?_
  rintro _ ⟨heap', rfl⟩
  refine doScheduler_paced (fun p hp => ?_) kont
  by_cases hcur : p = k.currentRunning
  · subst hcur
    have hspent := (h _ hp).2 (.inl rfl)
    simp only [Kernel.modifyPcb, Function.update_self]
    exact Pcb.Spent.paced (b := { k.pcb k.currentRunning with queue := some q, status }) hspent _
  · simp only [Kernel.modifyPcb, Function.update_of_ne hcur]
    exact h p hp

/-- Tasks that have slept are made ready without a rise in priority. -/
theorem checkSleepingLoop_paced (fuel : Nat) :
    ∀ (start : Option Pid) {k : Kernel}, Paced k →
      Meets (fun _ => True) Paced (Kernel.checkSleepingLoop fuel start k) := by
  induction fuel with
  | zero =>
      intro start k h
      cases start with
      | none => exact h
      | some p => trivial
  | succ fuel ih =>
      intro start k h
      cases start with
      | none => exact h
      | some x =>
          unfold Kernel.checkSleepingLoop
          split
          · refine (remove_heap _ _ _).bind ?_
            rintro _ ⟨heap, rfl⟩
            refine (push_heap _ _ _).bind ?_
            rintro _ ⟨heap', rfl⟩
            refine ih _ (Paced.modifyPcb (fun p hp => ?_) ⟨rfl, rfl, rfl⟩)
            have hpaced := h p hp
            by_cases hx : p = x
            · subst hx
              simp only [Kernel.modifyPcb, Function.update_self]
              exact ⟨hpaced.1, fun hor => hpaced.2 (hor.imp_right fun hne => absurd rfl hne)⟩
            · simp only [Kernel.modifyPcb, Function.update_of_ne hx]
              exact hpaced
          · exact ih _ h

/-! ## Waking -/

/-- The running task waits in no queue. -/
def CurrentFree (k : Kernel) (L : QueueId → List Pid) : Prop :=
  ∀ q, q ≠ .ready → k.currentRunning ∉ L q

theorem CurrentReady.free (h : CurrentReady boot k L) (ht : Table k L S) : CurrentFree k L := by
  intro q hq hmem
  rcases h with ⟨-, hzero⟩ | hready
  · have hpos := (ht.live hmem).1
    rw [hzero] at hpos
    cases hpos
  · exact hq (ht.holds.apart hmem hready)

theorem CurrentFree.wakes (h : CurrentFree k L) (hwakes : Wakes L L')
    (hcur : k'.currentRunning = k.currentRunning) : CurrentFree k' L' := by
  intro q hq hmem
  rw [hcur] at hmem
  exact h q hq (hwakes.other q hq hmem)

/-- Raising the priority of a task that has waited. -/
theorem Paced.woken (h : Paced k) (ht : Table k L S) (hfree : CurrentFree k L) {q : QueueId}
    (hq : q ≠ .ready) {x : Pid} (hx : x ∈ L q) (hpids : k'.pidList = k.pidList)
    (hcur : k'.currentRunning = k.currentRunning)
    (hother : ∀ p, p ≠ x → (k.pcb p).SamePace (k'.pcb p))
    (hpriority : (k'.pcb x).priority = (k.pcb x).priority)
    (hraised : (k'.pcb x).schedulerPriority = (k.pcb x).schedulerPriority + 1)
    (hqueue : (k'.pcb x).queue = some .ready) : Paced k' := by
  intro p hp
  rw [Kernel.Live, hpids] at hp
  rw [hcur]
  by_cases hpx : p = x
  · subst hpx
    have hspent : (k.pcb p).Spent := by
      refine (h p hp).2 (.inr ?_)
      rw [ht.queue_eq hx, ne_eq, Option.some.injEq]
      exact hq
    refine ⟨?_, ?_⟩
    · unfold Pcb.Spent at hspent
      unfold Pcb.Fresh
      omega
    · rintro (rfl | hne)
      · exact absurd hx (hfree q hq)
      · exact absurd hqueue hne
  · exact (hother p hpx).paced (h p hp)

theorem doUnblockOne_paced (h : Paced k) (ht : Table k L S) (hfree : CurrentFree k L)
    {q : QueueId} (hq : q ≠ .ready) : Meets (fun _ => True) Paced (k.doUnblockOne q) := by
  unfold Kernel.doUnblockOne
  by_cases hempty : queueIsEmpty k.heap q = true
  · rw [if_pos hempty]
    exact h
  · rw [if_neg hempty]
    have hne : L q ≠ [] := fun hnil => hempty ((queueIsEmpty_iff ht.holds).mpr hnil)
    obtain ⟨s, x, hscan, hselected, hx, hpcb⟩ := ht.scan Pcb.priority hne
      (fun p hp => (ht.eligible (ht.live hp)).priority) none
    simp only [hscan, ok_bind, hselected]
    unfold Kernel.wake
    refine (remove_heap _ _ _).bind ?_
    rintro _ ⟨heap, rfl⟩
    refine (push_heap _ _ _).bind ?_
    rintro _ ⟨heap', rfl⟩
    rw [meets_pure]
    obtain ⟨w, -, heq⟩ := hpcb x
    refine h.woken ht hfree hq hx rfl rfl (fun p hp => ?_) ?_ ?_ ?_
    · obtain ⟨w', -, heq'⟩ := hpcb p
      simp only [Kernel.modifyPcb, Function.update_of_ne hp, heq']
      exact ⟨rfl, rfl, rfl⟩
    · simp [Kernel.modifyPcb, heq]
    · simp [Kernel.modifyPcb, heq]
    · simp [Kernel.modifyPcb]

theorem unblockAllLoop_paced {q : QueueId} (hq : q ≠ .ready) (fuel : Nat) :
    ∀ {k : Kernel} {L : QueueId → List Pid}, Paced k → Table k L S → CurrentFree k L →
      Meets (fun _ => True) Paced (Kernel.unblockAllLoop q fuel k) := by
  induction fuel with
  | zero =>
      intro k L h _ _
      rw [Kernel.unblockAllLoop]
      split
      · exact h
      · trivial
  | succ fuel ih =>
      intro k L h ht hfree
      by_cases hempty : queueIsEmpty k.heap q = true
      · rw [Kernel.unblockAllLoop, if_pos hempty]
        exact h
      · have hne : L q ≠ [] := fun hnil => hempty ((queueIsEmpty_iff ht.holds).mpr hnil)
        obtain ⟨x, rest, hcons⟩ := List.exists_cons_of_ne_nil hne
        obtain ⟨k₁, hround, hwoken, -, hother, hself⟩ := unblockAllLoop_round ht hcons fuel
        obtain ⟨ht₁, hwakes, hframe, hcur⟩ := hwoken
        rw [hround]
        refine ih ?_ ht₁ (hfree.wakes hwakes hcur)
        refine h.woken ht hfree hq (x := x) (by simp [hcons]) hframe.pidList hcur
          (fun p hp => ?_) (hframe.priority x) (by rw [hself]) (by rw [hself])
        rw [hother p hp]
        exact Pcb.SamePace.refl _

theorem doUnblockAll_paced (h : Paced k) (ht : Table k L S) (hfree : CurrentFree k L)
    {q : QueueId} (hq : q ≠ .ready) : Meets (fun _ => True) Paced (k.doUnblockAll q) :=
  unblockAllLoop_paced hq maxTaskNum h ht hfree

/-! ## Spawning and killing -/

/-- A new task starts with its own priority, in the ready queue. -/
theorem initPcb_paced (h : Paced k) (ht : Table k L S) (hready : CurrentReady boot k L)
    (task : TaskInfo) : Meets (fun _ => True) Paced (k.initPcb task) := by
  obtain ⟨free, hfree⟩ := ht.free
  unfold Kernel.initPcb
  cases free with
  | nil =>
      rw [slistAlloc_nil hfree]
      exact h.modifyPcb ⟨rfl, rfl, rfl⟩
  | cons pid free =>
      obtain ⟨hpid, -, hone, -, hlive⟩ := slistAlloc_cons hfree
      obtain ⟨alloc, hsplit⟩ : ∃ alloc, slistAlloc k.pidList = (pid, alloc) :=
        ⟨_, Prod.ext hpid rfl⟩
      have hdead : ¬ k.Live pid := by
        intro hl
        have := (hfree.mem_iff pid).mp (by simp)
        simp [hl.2.2] at this
      have hcur : pid ≠ k.currentRunning := by
        rintro rfl
        rcases hready with ⟨-, hzero⟩ | hmem
        · rw [hzero] at hone
          cases hone
        · exact hdead (ht.live hmem)
      rw [hsplit] at hlive ⊢
      simp only [show pid ≠ 0 by omega, if_false]
      refine (push_heap _ _ _).bind ?_
      rintro _ ⟨heap, rfl⟩
      rw [meets_pure]
      intro p hp
      by_cases hpp : p = pid
      · subst hpp
        simp only [Kernel.modifyPcb, Function.update_self]
        refine ⟨le_max_left _ _, ?_⟩
        rintro (heq | hne)
        · exact absurd heq hcur
        · exact absurd rfl hne
      · simp only [Kernel.modifyPcb, Function.update_of_ne hpp]
        exact h p (((hlive p).mp hp).resolve_left hpp)

theorem killLock_paced (h : Paced k) (ht : Table k L S) (hfree : CurrentFree k L) (pid : Pid)
    (i : Nat) : Meets (fun _ => True) Paced (k.killLock pid i) := by
  unfold Kernel.killLock
  split
  · refine (doUnblockOne_paced h ht hfree (by simp)).bind fun k₁ hk₁ => ?_
    have hpaced : Paced (k₁.modifyPcb pid fun p => { p with lockNum := p.lockNum - 1 }) :=
      hk₁.modifyPcb ⟨rfl, rfl, rfl⟩
    exact hpaced.congr rfl rfl fun _ => Pcb.SamePace.refl _
  · exact h

theorem killLocks_paced (pid : Pid) (locks : List Nat) :
    ∀ {k : Kernel} {L : QueueId → List Pid}, Paced k → Table k L S → CurrentFree k L →
      Meets (fun _ => True) Paced (Kernel.killLocks pid locks k) := by
  induction locks with
  | nil =>
      intro k L h _ _
      exact h
  | cons i rest ih =>
      intro k L h ht hfree
      rw [Kernel.killLocks]
      split
      · refine ((killLock_paced h ht hfree pid i).and (killLock_spec ht)).bind fun k₁ hk₁ => ?_
        obtain ⟨hpaced, L₁, ht₁, hwakes, hframe, -⟩ := hk₁
        exact ih hpaced ht₁ (hfree.wakes hwakes hframe.currentRunning)
      · exact h

theorem kill_paced (h : Paced k) (hinv : Inv k S boot) (hS : ∀ p, ¬ S p) (pid : Int) :
    Meets (fun _ => True) Paced (k.kill pid) := by
  obtain ⟨L, ht, -, hready⟩ := hinv
  have hrefused : Paced (k.setReg2 0) := h.modifyPcb ⟨rfl, rfl, rfl⟩
  by_cases hone : pid = 1
  · rw [Kernel.kill, if_pos hone]
    exact hrefused
  by_cases hvalid : slistIsValid k.pidList pid maxTaskNum = true
  · obtain ⟨i, rfl, hi⟩ := slistIsValid_iff.mp hvalid
    obtain ⟨q, pidList, heap, hq, -, ht₁, hlive, hkill⟩ := kill_live ht hS hone hi
    rw [hkill]
    have hpaced : Paced { k with pidList, heap } := fun p hp => h p ((hlive p).mp hp).2
    have hfree₁ : CurrentFree { k with pidList, heap } (leave L q i) := fun q' hq' hmem =>
      hready.free ht q' hq' ((ht.mem_leave hq).mp hmem).1
    refine ((killLocks_paced i _ hpaced ht₁ hfree₁).and (killLocks_spec _ ht₁)).bind
      fun k₂ hk₂ => ?_
    obtain ⟨hpaced₂, L₂, ht₂, hwakes, hframe, -⟩ := hk₂
    refine (doUnblockAll_paced hpaced₂ ht₂ (hfree₁.wakes hwakes hframe.currentRunning)
      (by simp)).bind fun k₃ hk₃ => ?_
    split
    · exact doScheduler_paced hk₃ .ret
    · exact hk₃.modifyPcb ⟨rfl, rfl, rfl⟩
  · rw [Kernel.kill, if_neg hone, slistFree_invalid (by simpa using hvalid)]
    exact hrefused

/-! ## Entries -/

theorem Paced.park (h : Paced k) (kont : Kont) : Paced (k.park kont) :=
  h.congr rfl rfl fun _ => Pcb.SamePace.refl _

theorem Inv.unblocks_one (hinv : Inv k S boot) (h : Paced k) {q : QueueId} (hq : q ≠ .ready) :
    Meets (fun _ => True) Paced (k.doUnblockOne q) := by
  obtain ⟨L, ht, -, hready⟩ := hinv
  exact doUnblockOne_paced h ht (hready.free ht) hq

theorem Inv.unblocks_all (hinv : Inv k S boot) (h : Paced k) {q : QueueId} (hq : q ≠ .ready) :
    Meets (fun _ => True) Paced (k.doUnblockAll q) := by
  obtain ⟨L, ht, -, hready⟩ := hinv
  exact doUnblockAll_paced h ht (hready.free ht) hq

theorem acquireLoop_paced (h : Paced k) (lock : Nat) :
    Meets (fun _ => True) Paced (k.acquireLoop lock) := by
  unfold Kernel.acquireLoop
  split
  · exact doWait_paced h _ _ _
  · have hpaced : Paced (k.modifyPcb k.currentRunning
        fun p => { p with lockNum := p.lockNum + 1 }) := h.modifyPcb ⟨rfl, rfl, rfl⟩
    exact hpaced.congr rfl rfl fun _ => Pcb.SamePace.refl _

theorem doMutexLockAcquire_paced (h : Paced k) (lock : Nat) :
    Meets (fun _ => True) Paced (k.doMutexLockAcquire lock) := by
  unfold Kernel.doMutexLockAcquire
  split
  · exact h
  · exact acquireLoop_paced h lock

theorem doMutexLockRelease_paced (h : Paced k) (hinv : Inv k S boot) (lock : Nat) :
    Meets (fun _ => True) Paced (k.doMutexLockRelease lock) := by
  unfold Kernel.doMutexLockRelease
  split
  · exact h
  · refine (hinv.unblocks_one h (by simp)).bind fun k₁ hk₁ => ?_
    have hpaced : Paced (k₁.modifyPcb k₁.currentRunning
        fun p => { p with lockNum := p.lockNum - 1 }) := hk₁.modifyPcb ⟨rfl, rfl, rfl⟩
    exact hpaced.congr rfl rfl fun _ => Pcb.SamePace.refl _

theorem enter_paced (h : Paced k) (hinv : Inv k S boot) (hS : ∀ p, ¬ S p) (e : Entry) :
    Meets (fun _ => True) Paced (k.enter e) := by
  -- The synchronisation objects are apart from the PCBs.
  have hset : ∀ k₁ : Kernel, k₁.pidList = k.pidList → k₁.currentRunning = k.currentRunning →
      k₁.pcb = k.pcb → k₁.heap = k.heap → Paced k₁ ∧ Inv k₁ S boot := by
    intro k₁ hpids hcur hpcb hheap
    refine ⟨h.congr hpids hcur fun p => ?_, hinv.congr hheap hpids hcur fun p => ?_⟩
    · rw [hpcb]
      exact Pcb.SamePace.refl _
    · rw [hpcb]
      exact Pcb.Keeps.refl _
  cases e with
  | spawn task =>
      obtain ⟨L, ht, -, hready⟩ := hinv
      exact initPcb_paced h ht hready task
  | kill pid => exact kill_paced h hinv hS pid
  | exit => exact kill_paced h hinv hS _
  | wait pid =>
      have hpaced : ∀ value, Paced (k.setReg2 value) := fun value =>
        h.modifyPcb ⟨rfl, rfl, rfl⟩
      change Meets _ _ (k.wait pid)
      unfold Kernel.wait
      split
      · exact hpaced 0
      · exact doWait_paced (hpaced 1) _ _ _
  | sleep time =>
      have hpaced : Paced (k.modifyPcb k.currentRunning fun p =>
          { p with awakenedTime := k.getTicks + time / Kernel.timeSlice }) :=
        h.modifyPcb ⟨rfl, rfl, rfl⟩
      exact doWait_paced hpaced _ _ _
  | mutexInit lock => exact h.congr rfl rfl fun _ => Pcb.SamePace.refl _
  | mutexAcquire lock => exact doMutexLockAcquire_paced h lock
  | mutexRelease lock => exact doMutexLockRelease_paced h hinv lock
  | semaphoreInit s value => exact h.congr rfl rfl fun _ => Pcb.SamePace.refl _
  | semaphoreUp s =>
      simp only [Kernel.enter, Kernel.doSemaphoreUp]
      have hpair := hset (k.setSemaphore s ((k.semaphores s).value + 1)) rfl rfl rfl rfl
      split
      · exact hpair.2.unblocks_one hpair.1 (by simp)
      · exact hpair.1
  | semaphoreDown s =>
      simp only [Kernel.enter, Kernel.doSemaphoreDown]
      have hpair := hset (k.setSemaphore s ((k.semaphores s).value - 1)) rfl rfl rfl rfl
      split
      · exact doWait_paced hpair.1 _ _ _
      · exact hpair.1
  | conditionInit condition => exact h.congr rfl rfl fun _ => Pcb.SamePace.refl _
  | conditionWait condition lock =>
      have hpair := hset (k.setCondition condition
        ((k.conditions condition).waitingNum + 1)) rfl rfl rfl rfl
      refine (doMutexLockRelease_paced hpair.1 hpair.2 lock).bind fun k₁ hk₁ => ?_
      exact doWait_paced hk₁ _ _ _
  | conditionSignal condition =>
      simp only [Kernel.enter, Kernel.doConditionSignal]
      have hpair := hset (k.setCondition condition
        ((k.conditions condition).waitingNum - 1)) rfl rfl rfl rfl
      split
      · exact hpair.2.unblocks_one hpair.1 (by simp)
      · exact h
  | conditionBroadcast condition =>
      simp only [Kernel.enter, Kernel.doConditionBroadcast]
      have hpair := hset (k.setCondition condition 0) rfl rfl rfl rfl
      split
      · exact hpair.2.unblocks_all hpair.1 (by simp)
      · exact h
  | barrierInit barrier goal => exact h.congr rfl rfl fun _ => Pcb.SamePace.refl _
  | barrierWait barrier =>
      simp only [Kernel.enter, Kernel.doBarrierWait]
      have hpair : ∀ b b', Paced ((k.setBarrier barrier b).setBarrier barrier b') ∧
          Inv ((k.setBarrier barrier b).setBarrier barrier b') S boot := fun b b' =>
        hset _ rfl rfl rfl rfl
      have hpaced : ∀ b, Paced (k.setBarrier barrier b) := fun b => (hset _ rfl rfl rfl rfl).1
      split
      · exact (hpair _ _).2.unblocks_all (hpair _ _).1 (by simp)
      · exact doWait_paced (hpaced _) _ _ _
  | waitRecv => exact doWait_paced h _ _ _
  | timer =>
      have hpair := hset { k with timeElapsed := k.timeElapsed + 1 } rfl rfl rfl rfl
      refine (checkSleepingLoop_paced _ _ hpair.1).bind fun k₁ hk₁ => ?_
      exact doScheduler_paced hk₁ .ret
  | mac =>
      simp only [Kernel.enter, Kernel.irqMac]
      split
      · exact h
      · exact hinv.unblocks_one h (by simp)

theorem exec_paced (h : Paced k) (hinv : Inv k S boot) (hS : ∀ p, ¬ S p) (event : Event) :
    Meets (fun _ => True) Paced (k.exec event) := by
  cases event with
  | entry e => exact enter_paced h hinv hS e
  | resume =>
      change Meets _ _ k.resume
      unfold Kernel.resume
      dsimp only
      split
      · exact h
      · exact acquireLoop_paced (h.park .ret) _
      · exact doMutexLockAcquire_paced (h.park .ret) _

/-! ## Runs -/

theorem initTask_paced : Meets IsPanic (fun k => Inv k noTask True ∧ Paced k)
    (initTask Kernel.zero) := by
  refine initTask_keeps (fun k hdead p hp => absurd hp (hdead p)) ?_
  rintro k task ⟨L, ht, -, hready⟩ h
  exact initPcb_paced h ht hready task

/-- The scheduler priority of every live task is between one and `max priority 2`. -/
theorem schedulerPriority_of_run {events : List Event} (hinit : initTask Kernel.zero = .ok k)
    (run : kernelSystem.Run k events k') (p : Pid) (hp : k'.Live p) :
    1 ≤ (k'.pcb p).schedulerPriority ∧
      (k'.pcb p).schedulerPriority ≤ max (k'.pcb p).priority 2 := by
  have hinv : Inv k' noTask True ∧ Paced k' := by
    refine run.invariant (I := fun k => Inv k noTask True ∧ Paced k) ?_
      (initTask_paced.of_ok hinit)
    intro k₁ event k₂ h hstep
    refine ⟨(exec_inv h.1 (fun _ => id) hstep.1).of_ok hstep.2, ?_⟩
    exact (exec_paced h.2 h.1 (fun _ => id) event).of_ok hstep.2
  obtain ⟨⟨L, ht, -, -⟩, hpaced⟩ := hinv
  exact ⟨(ht.eligible hp).schedulerPriority, (hpaced p hp).1⟩

/-- The shell spawns a task of priority five. -/
theorem schedulerPriority_spawned :
    ∃ k, kernelSystem.Run ticked [.entry (.spawn ⟨5⟩)] k ∧ k.Live 3 ∧ (k.pcb 3).priority = 5 ∧
      (k.pcb 3).schedulerPriority ≤ 5 := by
  have run : kernelSystem.Run ticked [.entry (.spawn ⟨5⟩)] (ticked.follow _) :=
    run_follow (by decide +kernel)
  have hlive : (ticked.follow [.entry (.spawn ⟨5⟩)]).Live 3 := by
    refine ⟨?_, ?_, ?_⟩ <;> decide +kernel
  have hpriority : ((ticked.follow [.entry (.spawn ⟨5⟩)]).pcb 3).priority = 5 := by
    decide +kernel
  refine ⟨_, run, hlive, hpriority, ?_⟩
  have hbound := schedulerPriority_of_run initTask_zero (run_ticked.append run) 3 hlive
  rw [hpriority] at hbound
  exact hbound.2

end UcasOs.Sched
