import UcasOs.Sched.Entries

/-!
# The kernel takes the steps of its view

`Seen S boot k v`: the process table of `k` holds the queues of `v`, and `v` is
what the tasks see of `k`.  Every enabled event of the kernel is one of the
steps that `View.Does` allows, so what those steps preserve holds in every
reachable state.
-/

namespace UcasOs.Sched

open UcasOs.Foundation UcasOs.Libs

structure Seen (S : Pid → Prop) (boot : Prop) (k : Kernel) (v : View) : Prop where
  table : Table k v.queue S
  waitNil : WaitNil k v.queue
  current : CurrentReady boot k v.queue
  view : k.view v.queue = v

/-- The tasks in a queue, in the order of its links. -/
def Kernel.items (k : Kernel) (q : QueueId) : List Pid :=
  (k.heap.walk (fun l p => l ++ [p]) maxTaskNum (k.heap.head q) []).getD []

variable {k k' : Kernel} {v v' : View} {S : Pid → Prop} {boot : Prop}
  {L : QueueId → List Pid} {tolerated : Fault → Prop}

theorem Table.items (h : Table k L S) (q : QueueId) : k.items q = L q := by
  have hfold : ∀ l a : List Pid, l.foldl (fun l p => l ++ [p]) a = a ++ l := by
    intro l
    induction l with
    | nil => simp
    | cons x l ih => simp [ih]
  have hwalk := k.heap.walk_eq_foldl (fun l p => l ++ [p]) (h.holds.represents q).seg
    (h.length_le q) []
  rw [← (h.holds.represents q).head_eq, hfold] at hwalk
  rw [Kernel.items, hwalk]
  rfl

theorem Table.seen (h : Table k L S) (hwait : WaitNil k L) (hready : CurrentReady boot k L) :
    Seen S boot k (k.view L) :=
  ⟨h, hwait, hready, rfl⟩

theorem Inv.seen (h : Inv k S boot) : ∃ v, Seen S boot k v := by
  obtain ⟨L, ht, hwait, hready⟩ := h
  exact ⟨_, ht.seen hwait hready⟩

namespace Seen

theorem inv (h : Seen S boot k v) : Inv k S boot := ⟨_, h.table, h.waitNil, h.current⟩

theorem items (h : Seen S boot k v) (q : QueueId) : k.items q = v.queue q := h.table.items q

theorem queueIsEmpty_iff (h : Seen S boot k v) (q : QueueId) :
    queueIsEmpty k.heap q = true ↔ v.queue q = [] :=
  Sched.queueIsEmpty_iff h.table.holds

theorem current_eq (h : Seen S boot k v) : v.current = k.currentRunning :=
  congrArg View.current h.view.symm

theorem kont_eq (h : Seen S boot k v) : v.kont = k.kont := congrArg View.kont h.view.symm

theorem live_iff (h : Seen S boot k v) (p : Pid) : v.live p ↔ k.Live p :=
  iff_of_eq (congrFun (congrArg View.live h.view.symm) p)

theorem mutexes_eq (h : Seen S boot k v) : v.mutexes = k.mutexes :=
  congrArg View.mutexes h.view.symm

theorem semaphores_eq (h : Seen S boot k v) : v.semaphores = k.semaphores :=
  congrArg View.semaphores h.view.symm

theorem conditions_eq (h : Seen S boot k v) : v.conditions = k.conditions :=
  congrArg View.conditions h.view.symm

theorem barriers_eq (h : Seen S boot k v) : v.barriers = k.barriers :=
  congrArg View.barriers h.view.symm

theorem pid_current (h : Seen S boot k v) : (k.pcb k.currentRunning).pid = v.current :=
  h.inv.pid_current.trans h.current_eq.symm

theorem current_mem (h : Seen S boot k v) (hboot : k.currentRunning ≠ 0) :
    k.currentRunning ∈ v.queue .ready :=
  h.current.resolve_left fun h0 => hboot h0.2

/-- A step that moves no task and spawns or kills none. -/
theorem congr (h : Seen S boot k v) (hheap : k'.heap = k.heap) (hpids : k'.pidList = k.pidList)
    (hcur : k'.currentRunning = k.currentRunning) (hpcb : ∀ p, (k.pcb p).Keeps (k'.pcb p))
    (hview : k'.view v.queue = v') : Seen S boot k' v' := by
  subst hview
  refine ⟨h.table.congr hheap hpids hpcb, h.waitNil.congr hpids fun p => List.Subset.refl _, ?_,
    rfl⟩
  have hready := h.current
  rwa [CurrentReady, ← hcur] at hready

theorem setMutex (h : Seen S boot k v) (lock : Nat) (m : MutexLock) :
    Seen S boot (k.setMutex lock m) (v.setMutex lock m) := by
  refine h.congr rfl rfl rfl (fun _ => Pcb.Keeps.refl _) ?_
  conv_rhs => rw [← h.view]
  rfl

theorem setSemaphore (h : Seen S boot k v) (s : Nat) (value : Int) :
    Seen S boot (k.setSemaphore s value) (v.setSemaphore s value) := by
  refine h.congr rfl rfl rfl (fun _ => Pcb.Keeps.refl _) ?_
  conv_rhs => rw [← h.view]
  rfl

theorem setCondition (h : Seen S boot k v) (condition : Nat) (waitingNum : Int) :
    Seen S boot (k.setCondition condition waitingNum) (v.setCondition condition waitingNum) := by
  refine h.congr rfl rfl rfl (fun _ => Pcb.Keeps.refl _) ?_
  conv_rhs => rw [← h.view]
  rfl

theorem setBarrier (h : Seen S boot k v) (barrier : Nat) (b : Barrier) :
    Seen S boot (k.setBarrier barrier b) (v.setBarrier barrier b) := by
  refine h.congr rfl rfl rfl (fun _ => Pcb.Keeps.refl _) ?_
  conv_rhs => rw [← h.view]
  rfl

theorem park (h : Seen S boot k v) (kont : Kont) : Seen S boot (k.park kont) (v.park kont) := by
  refine h.congr rfl rfl rfl (fun _ => Pcb.Keeps.refl _) ?_
  conv_rhs => rw [← h.view]
  rfl

theorem setReg2 (h : Seen S boot k v) (value : BitVec 32) : Seen S boot (k.setReg2 value) v := by
  refine ⟨h.table.modifyPcb ⟨rfl, rfl, fun he => ⟨he.priority, he.schedulerPriority,
    he.waitTime⟩⟩, h.waitNil, h.current, ?_⟩
  rw [setReg2_view, h.view]

theorem addLocks (h : Seen S boot k v) (p : Pid) (n : Int) :
    Seen S boot (k.modifyPcb p fun b => { b with lockNum := b.lockNum + n }) (v.addLocks p n) := by
  have hview := addLocks_view k v.queue p n
  rw [h.view] at hview
  exact ⟨h.table.modifyPcb ⟨rfl, rfl, fun he => ⟨he.priority, he.schedulerPriority,
    he.waitTime⟩⟩, h.waitNil, h.current, hview⟩

theorem queueInit (h : Seen S boot k v) {q : QueueId} (hq : queueIsEmpty k.heap q = true) :
    Seen S boot { k with heap := queueInit k.heap q } v := by
  have ht := h.table
  have hholds := queueInit_holds ht.holds ((h.queueIsEmpty_iff q).mp hq)
  exact ⟨⟨hholds, ht.free, ht.queue_eq, ht.live, ht.covered, ht.outside, ht.live_of_outside,
    ht.pid_eq, ht.eligible⟩, h.waitNil, h.current, h.view⟩

end Seen

/-! ## Functions of the scheduler -/

theorem doScheduler_seen (h : Seen S boot k v) (kont : Kont) :
    Meets IsPanic (fun k' => ∃ v', Seen S boot k' v' ∧ v.Switches kont v')
      (k.doScheduler kont) := by
  refine (doScheduler_view h.table kont).mono fun k' hk' => ?_
  obtain ⟨ht, hframe, hcur, hview⟩ := hk'
  rw [h.view] at hview
  exact ⟨k'.view v.queue, ht.seen (h.waitNil.congr hframe.pidList fun p => List.Subset.refl _)
    (.inr hcur), k'.currentRunning, hcur, hview⟩

theorem doWait_seen (h : Seen S boot k v) (hboot : k.currentRunning ≠ 0) {q : QueueId}
    (hq : ∀ p, q = .wait p → k.Live p) (status : TaskStatus) (kont : Kont) :
    Meets IsPanic (fun k' => ∃ v', Seen S boot k' v' ∧ v.Waits q status kont v')
      (k.doWait k.currentRunning q status kont) := by
  refine (doWait_view h.table (h.current_mem hboot) q status kont).mono fun k' hk' => ?_
  obtain ⟨ht, hframe, hcur, hview⟩ := hk'
  have hqueue : (v.block q status).queue =
      join (leave v.queue .ready k.currentRunning) q k.currentRunning := by
    rw [View.block, h.current_eq]
  refine ⟨_, ht.seen ?_ (.inr hcur), k'.currentRunning, ?_, ?_⟩
  · intro p hp
    have hlive : ¬ k.Live p := fun hl => hp (by rw [Kernel.Live, hframe.pidList]; exact hl)
    have hne : QueueId.wait p ≠ q := fun he => hlive (hq p he.symm)
    rw [join, Function.update_of_ne hne, leave, Function.update_of_ne (by simp)]
    exact h.waitNil p hlive
  · rw [hqueue]
    exact hcur
  · rw [hview, h.view]

theorem Woken.seen (hwoken : Woken k L S k' (v'.queue)) (hwait : WaitNil k L)
    (hready : CurrentReady boot k L) (hview : k'.view v'.queue = v') : Seen S boot k' v' := by
  obtain ⟨htable, hwakes, hframe, hsame⟩ := hwoken
  refine ⟨htable, hwait.congr hframe.pidList fun p => hwakes.other _ (by simp), ?_, hview⟩
  rw [CurrentReady, hsame]
  exact hready.imp_right (fun h => hwakes.ready h)

theorem doUnblockOne_seen (h : Seen S boot k v) (q : QueueId) :
    Meets tolerated
      (fun k' => ∃ v', Seen S boot k' v' ∧ v.WakesOne q v' ∧
        k'.currentRunning = k.currentRunning)
      (k.doUnblockOne q) := by
  refine (doUnblockOne_wakesOne h.table q).mono fun k' hk' => ?_
  obtain ⟨L', hwoken, hwakes⟩ := hk'
  rw [h.view] at hwakes
  have hcur := hwoken.2.2.2
  exact ⟨k'.view L', hwoken.seen h.waitNil h.current rfl, hwakes, hcur⟩

theorem doUnblockAll_seen (h : Seen S boot k v) {q : QueueId} (hq : q ≠ .ready) :
    Meets tolerated (fun k' => Seen S boot k' (v.wakeAll q)) (k.doUnblockAll q) := by
  refine (doUnblockAll_view h.table hq).mono fun k' hk' => ?_
  obtain ⟨L', hwoken, -, hview⟩ := hk'
  rw [h.view] at hview
  rw [← hview]
  exact hwoken.seen h.waitNil h.current rfl

theorem checkSleeping_seen (h : Seen S boot k v) :
    Meets tolerated (fun k' => Seen S boot k' v.wakeSleeper) k.checkSleeping := by
  refine (checkSleeping_view h.table).mono fun k' hk' => ?_
  obtain ⟨L', hwoken, hview⟩ := hk'
  rw [h.view] at hview
  rw [← hview]
  exact hwoken.seen h.waitNil h.current rfl

theorem initPcb_seen (h : Seen S boot k v) {task : TaskInfo} (htask : 1 ≤ task.priority) :
    Meets IsPanic
      (fun k' => ∃ v', Seen S boot k' v' ∧
        (v' = v ∨ ∃ pid, ¬ v.live pid ∧ pid ≠ 0 ∧ v' = v.spawn pid))
      (k.initPcb task) := by
  refine ((initPcb_inv h.inv htask).and (initPcb_view h.table h.waitNil htask)).mono
    fun k' hk' => ?_
  obtain ⟨-, hspawned, -, -, hcases⟩ := hk'
  obtain ⟨-, hcur, hpids, hlive⟩ := hspawned
  have hwait : ∀ {L'}, (∀ p, L' (.wait p) = v.queue (.wait p)) → WaitNil k' L' := by
    intro L' hL' p hp
    rw [hL']
    refine h.waitNil p fun hl => hp ?_
    obtain ⟨hsame, -⟩ | ⟨pid, -, -, hiff, -⟩ := hlive
    · rwa [Kernel.Live, hsame]
    · exact (hiff p).mpr (.inr hl)
  rw [h.view] at hcases
  obtain ⟨htable, hview⟩ | ⟨pid, hdead, hne, htable, hview⟩ := hcases
  · refine ⟨v, ⟨htable, hwait fun p => rfl, ?_, hview⟩, .inl rfl⟩
    rw [CurrentReady, hcur]
    exact h.current
  · refine ⟨_, htable.seen (hwait fun p => by simp [join]) ?_, .inr ⟨pid, ?_, hne, hview⟩⟩
    · rw [CurrentReady, hcur]
      exact h.current.imp_right fun hm => mem_join.mpr (.inl hm)
    · rwa [h.live_iff]

theorem kill_seen (h : Seen S boot k v) (hS : ∀ p, ¬ S p) (pid : Int) :
    Meets IsPanic (fun k' => ∃ v', Seen S boot k' v' ∧ v.KillStep pid v') (k.kill pid) := by
  refine (kill_view h.table h.waitNil h.current hS pid).mono fun k' hk' => ?_
  obtain ⟨L', ht, hwait, hready, -, -, hstep⟩ := hk'
  rw [h.view] at hstep
  exact ⟨_, ht.seen hwait hready, hstep⟩

/-! ## Mutexes -/

theorem pid_current_modifyPcb (k : Kernel) {p : Pid} (f : Pcb → Pcb)
    (hf : ∀ b, (f b).pid = b.pid) :
    ((k.modifyPcb p f).pcb (k.modifyPcb p f).currentRunning).pid =
      (k.pcb k.currentRunning).pid := by
  change (Function.update k.pcb p (f (k.pcb p)) k.currentRunning).pid = _
  by_cases hp : k.currentRunning = p
  · rw [← hp, Function.update_self, hf]
  · rw [Function.update_of_ne hp]

theorem acquireLoop_seen (h : Seen S boot k v) (hboot : k.currentRunning ≠ 0) (lock : Nat) :
    Meets IsPanic (fun k' => ∃ v', Seen S boot k' v' ∧ v.Takes lock v')
      (k.acquireLoop lock) := by
  unfold Kernel.acquireLoop View.Takes
  rw [h.mutexes_eq]
  by_cases hlocked : (k.mutexes lock).status = .locked
  · rw [if_pos hlocked]
    simp only [if_pos hlocked]
    exact doWait_seen h hboot (by simp) _ _
  · rw [if_neg hlocked]
    simp only [if_neg hlocked]
    refine ⟨_, ?_, rfl⟩
    rw [pid_current_modifyPcb, h.pid_current, ← h.current_eq]
    swap
    · exact fun p => rfl
    exact (h.addLocks v.current 1).setMutex lock _

theorem doMutexLockAcquire_seen (h : Seen S boot k v) (hboot : k.currentRunning ≠ 0)
    (lock : Nat) :
    Meets IsPanic (fun k' => ∃ v', Seen S boot k' v' ∧ v.Acquires lock v')
      (k.doMutexLockAcquire lock) := by
  unfold Kernel.doMutexLockAcquire View.Acquires
  rw [h.pid_current, h.mutexes_eq]
  by_cases howner : (k.mutexes lock).owner = v.current
  · rw [if_pos howner]
    simp only [if_pos howner]
    exact ⟨v, h, rfl⟩
  · rw [if_neg howner]
    simp only [if_neg howner]
    exact acquireLoop_seen h hboot lock

theorem doMutexLockRelease_seen (h : Seen S boot k v) (lock : Nat) :
    Meets tolerated
      (fun k' => ∃ v', Seen S boot k' v' ∧ v.Releases lock v' ∧
        k'.currentRunning = k.currentRunning)
      (k.doMutexLockRelease lock) := by
  unfold Kernel.doMutexLockRelease View.Releases
  rw [h.pid_current, h.mutexes_eq]
  by_cases howner : (k.mutexes lock).owner ≠ v.current
  · rw [if_pos howner]
    simp only [if_pos howner]
    exact ⟨v, h, rfl, rfl⟩
  · rw [if_neg howner]
    simp only [if_neg howner]
    refine (doUnblockOne_seen h (.mutex lock)).bind fun k₁ hk₁ => ?_
    obtain ⟨v₁, h₁, hwakes, hcur⟩ := hk₁
    have hreleased := (h₁.addLocks k₁.currentRunning (-1)).setMutex lock ⟨.unlocked, 0⟩
    rw [show k₁.currentRunning = v.current from hcur.trans h.current_eq.symm] at hreleased
    refine ⟨_, ?_, ⟨v₁, hwakes, rfl⟩, hcur⟩
    rw [show k₁.currentRunning = v.current from hcur.trans h.current_eq.symm]
    exact hreleased

/-! ## Events -/

theorem wait_seen (h : Seen S boot k v) (hboot : k.currentRunning ≠ 0) (pid : Int) :
    Meets IsPanic (fun k' => ∃ v', Seen S boot k' v' ∧ v.Step v' (.wait pid)) (k.wait pid) := by
  unfold Kernel.wait
  rw [h.pid_current]
  by_cases hrefused : slistIsValid k.pidList pid maxTaskNum = false ∨ pid = v.current
  · rw [if_pos hrefused]
    refine ⟨v, h.setReg2 0, .inl ⟨?_, rfl⟩⟩
    refine hrefused.symm.imp id fun hinvalid p haccepted => ?_
    obtain ⟨rfl, hlive⟩ := haccepted
    have hvalid := slistIsValid_iff.mpr ⟨p, rfl, (h.live_iff p).mp hlive⟩
    rw [hinvalid] at hvalid
    cases hvalid
  · rw [if_neg hrefused]
    rw [not_or, Bool.not_eq_false] at hrefused
    obtain ⟨p, rfl, hlive⟩ := slistIsValid_iff.mp hrefused.1
    refine (doWait_seen (h.setReg2 1) hboot (q := .wait (p : Int).toNat) ?_ .waiting .ret).mono
      fun k' hk' => ?_
    · intro x hx
      rw [Int.toNat_natCast, QueueId.wait.injEq] at hx
      exact hx ▸ hlive
    · obtain ⟨v', h', hwaits⟩ := hk'
      rw [Int.toNat_natCast] at hwaits
      exact ⟨v', h', .inr ⟨hrefused.2, p, ⟨rfl, (h.live_iff p).mpr hlive⟩, hwaits⟩⟩

theorem doSleep_seen (h : Seen S boot k v) (hboot : k.currentRunning ≠ 0) (time : BitVec 32) :
    Meets IsPanic (fun k' => ∃ v', Seen S boot k' v' ∧ v.Step v' (.sleep time))
      (k.doSleep time) := by
  have hset : Seen S boot
      (k.modifyPcb k.currentRunning fun p =>
        { p with awakenedTime := k.getTicks + time / Kernel.timeSlice })
      { v with
        awakened := Function.update v.awakened v.current
          (v.time + time / Kernel.timeSlice) } := by
    refine ⟨h.table.modifyPcb ⟨rfl, rfl, fun he => ⟨he.priority, he.schedulerPriority,
      he.waitTime⟩⟩, h.waitNil, h.current, ?_⟩
    change Kernel.view _ v.queue = _
    rw [modifyPcb_view]
    conv_rhs => rw [← h.view]
    ext1
    case status | lockNum | cursor => exact Function.update_eq_self_iff.mpr rfl
    all_goals rfl
  exact doWait_seen hset hboot (by simp) .sleeping .ret

theorem irqTimer_seen (h : Seen S boot k v) :
    Meets IsPanic (fun k' => ∃ v', Seen S boot k' v' ∧ v.Step v' .timer) k.irqTimer := by
  have hticked : Seen S boot { k with timeElapsed := k.timeElapsed + 1 }
      { v with time := v.time + 1 } := by
    refine h.congr rfl rfl rfl (fun _ => Pcb.Keeps.refl _) ?_
    conv_rhs => rw [← h.view]
    rfl
  exact (checkSleeping_seen hticked).bind fun k₁ hk₁ => doScheduler_seen hk₁ .ret

theorem doConditionWait_seen (h : Seen S boot k v) (hboot : k.currentRunning ≠ 0)
    (condition lock : Nat) :
    Meets IsPanic (fun k' => ∃ v', Seen S boot k' v' ∧ v.Step v' (.conditionWait condition lock))
      (k.doConditionWait condition lock) := by
  have hset := h.setCondition condition ((v.conditions condition).waitingNum + 1)
  rw [show v.conditions = k.conditions from h.conditions_eq] at hset
  refine (doMutexLockRelease_seen hset lock).bind fun k₁ hk₁ => ?_
  obtain ⟨v₁, h₁, hreleases, hcur⟩ := hk₁
  have hboot₁ : k₁.currentRunning ≠ 0 := by rw [hcur]; exact hboot
  refine (doWait_seen h₁ hboot₁ (by simp) .blocked (.reacquire lock)).mono fun k' hk' => ?_
  obtain ⟨v', h', hwaits⟩ := hk'
  refine ⟨v', h', v₁, ?_, hwaits⟩
  rwa [show v.conditions = k.conditions from h.conditions_eq]

theorem doSemaphoreUp_seen (h : Seen S boot k v) (s : Nat) :
    Meets tolerated (fun k' => ∃ v', Seen S boot k' v' ∧ v.Step v' (.semaphoreUp s))
      (k.doSemaphoreUp s) := by
  have hset := h.setSemaphore s ((k.semaphores s).value + 1)
  simp only [Kernel.doSemaphoreUp, View.Step, h.semaphores_eq]
  simp only [Kernel.setSemaphore, Function.update_self]
  by_cases hvalue : (k.semaphores s).value + 1 ≤ 0
  · simp only [if_pos hvalue]
    refine (doUnblockOne_seen hset (.semaphore s)).mono fun k' hk' => ?_
    obtain ⟨v', h', hwakes, -⟩ := hk'
    exact ⟨v', h', hwakes⟩
  · simp only [if_neg hvalue]
    exact ⟨_, hset, rfl⟩

theorem doConditionSignal_seen (h : Seen S boot k v) (condition : Nat) :
    Meets tolerated (fun k' => ∃ v', Seen S boot k' v' ∧ v.Step v' (.conditionSignal condition))
      (k.doConditionSignal condition) := by
  have hset := h.setCondition condition ((k.conditions condition).waitingNum - 1)
  simp only [Kernel.doConditionSignal, View.Step, h.conditions_eq]
  by_cases hwaiting : (k.conditions condition).waitingNum > 0
  · simp only [if_pos hwaiting]
    refine (doUnblockOne_seen hset (.condition condition)).mono fun k' hk' => ?_
    obtain ⟨v', h', hwakes, -⟩ := hk'
    exact ⟨v', h', hwakes⟩
  · simp only [if_neg hwaiting]
    exact ⟨v, h, rfl⟩

theorem doConditionBroadcast_seen (h : Seen S boot k v) (condition : Nat) :
    Meets tolerated
      (fun k' => ∃ v', Seen S boot k' v' ∧ v.Step v' (.conditionBroadcast condition))
      (k.doConditionBroadcast condition) := by
  have hset := h.setCondition condition 0
  simp only [Kernel.doConditionBroadcast, View.Step, h.conditions_eq]
  by_cases hwaiting : (k.conditions condition).waitingNum > 0
  · simp only [if_pos hwaiting]
    exact (doUnblockAll_seen hset (by simp)).mono fun k' hk' => ⟨_, hk', rfl⟩
  · simp only [if_neg hwaiting]
    exact ⟨v, h, rfl⟩

/-- The last task to arrive releases the others and goes on. -/
theorem doBarrierWait_seen_last (h : Seen S boot k v) {barrier : Nat}
    (hlast : (k.barriers barrier).arrived + 1 = (k.barriers barrier).goal) :
    Meets tolerated
      (fun k' => Seen S boot k'
        ((v.setBarrier barrier { k.barriers barrier with arrived := 0 }).wakeAll
          (.barrier barrier)) ∧ k'.currentRunning = k.currentRunning)
      (k.doBarrierWait barrier) := by
  have hset := h.setBarrier barrier { k.barriers barrier with arrived := 0 }
  have htwice : ∀ b b', (k.setBarrier barrier b).setBarrier barrier b' =
      k.setBarrier barrier b' := by
    intro b b'
    simp [Kernel.setBarrier]
  simp only [Kernel.doBarrierWait, if_pos hlast]
  rw [htwice]
  refine (doUnblockAll_seen hset (by simp)).mono fun k' hk' => ⟨hk', ?_⟩
  rw [← hk'.current_eq, ← h.current_eq]
  rfl

theorem enter_seen (h : Seen S boot k v) (hS : ∀ p, ¬ S p) {e : Entry}
    (henabled : (Event.entry e).Enabled k) :
    Meets IsPanic (fun k' => ∃ v', Seen S boot k' v' ∧ v.Step v' e) (k.enter e) := by
  obtain ⟨-, hinterrupt, hallowed⟩ := henabled
  cases e with
  | spawn task => exact initPcb_seen h hallowed
  | kill pid => exact kill_seen h hS pid
  | exit =>
      change Meets _ _ (k.kill (k.pcb k.currentRunning).pid)
      rw [h.pid_current]
      exact kill_seen h hS _
  | wait pid => exact wait_seen h hinterrupt pid
  | sleep time => exact doSleep_seen h hinterrupt time
  | mutexInit lock => exact ⟨_, (h.setMutex lock ⟨.unlocked, 0⟩).queueInit hallowed, rfl⟩
  | mutexAcquire lock => exact doMutexLockAcquire_seen h hinterrupt lock
  | mutexRelease lock =>
      refine (doMutexLockRelease_seen h lock).mono fun k' hk' => ?_
      obtain ⟨v', h', hreleases, -⟩ := hk'
      exact ⟨v', h', hreleases⟩
  | semaphoreInit s value => exact ⟨_, (h.setSemaphore s _).queueInit hallowed, rfl⟩
  | semaphoreUp s => exact doSemaphoreUp_seen h s
  | semaphoreDown s =>
      have hset := h.setSemaphore s ((k.semaphores s).value - 1)
      simp only [Kernel.enter, Kernel.doSemaphoreDown, View.Step, h.semaphores_eq]
      simp only [Kernel.setSemaphore, Function.update_self]
      by_cases hvalue : (k.semaphores s).value - 1 < 0
      · simp only [if_pos hvalue]
        exact doWait_seen hset hinterrupt (by simp) .blocked .ret
      · simp only [if_neg hvalue]
        exact ⟨_, hset, rfl⟩
  | conditionInit condition => exact ⟨_, (h.setCondition condition 0).queueInit hallowed, rfl⟩
  | conditionWait condition lock => exact doConditionWait_seen h hinterrupt condition lock
  | conditionSignal condition => exact doConditionSignal_seen h condition
  | conditionBroadcast condition => exact doConditionBroadcast_seen h condition
  | barrierInit barrier goal => exact ⟨_, (h.setBarrier barrier _).queueInit hallowed, rfl⟩
  | barrierWait barrier =>
      by_cases hlast : (k.barriers barrier).arrived + 1 = (k.barriers barrier).goal
      · exact (doBarrierWait_seen_last h hlast).mono fun k' hk' =>
          ⟨_, hk'.1, by rw [View.Step, h.barriers_eq, if_pos hlast]⟩
      · simp only [Kernel.enter, Kernel.doBarrierWait, View.Step, h.barriers_eq, if_neg hlast]
        exact doWait_seen (h.setBarrier barrier _) hinterrupt (by simp) .waiting .ret
  | waitRecv => exact doWait_seen h hinterrupt (by simp) .blocked .ret
  | timer => exact irqTimer_seen h
  | mac =>
      simp only [Kernel.enter, Kernel.irqMac, View.Step]
      by_cases hempty : queueIsEmpty k.heap .recv = true
      · rw [if_pos hempty]
        exact ⟨v, h, .inl ⟨(h.queueIsEmpty_iff .recv).mp hempty, rfl⟩⟩
      · rw [if_neg hempty]
        refine (doUnblockOne_seen h .recv).mono fun k' hk' => ?_
        obtain ⟨v', h', hwakes, -⟩ := hk'
        exact ⟨v', h', hwakes⟩

theorem resume_seen (h : Seen S boot k v) (henabled : Event.resume.Enabled k) :
    Meets IsPanic (fun k' => ∃ v', Seen S boot k' v' ∧ v.Resumes v') k.resume := by
  obtain ⟨hboot, hkont⟩ := henabled
  unfold Kernel.resume View.Resumes
  rw [h.kont_eq, h.current_eq]
  cases hk : k.kont k.currentRunning with
  | ret => exact absurd hk hkont
  | acquire lock => exact acquireLoop_seen (h.park .ret) hboot lock
  | reacquire lock => exact doMutexLockAcquire_seen (h.park .ret) hboot lock

theorem exec_seen (h : Seen S boot k v) (hS : ∀ p, ¬ S p) {event : Event}
    (henabled : event.Enabled k) :
    Meets IsPanic (fun k' => ∃ v', Seen S boot k' v' ∧ v.Does v' event) (k.exec event) := by
  cases event with
  | entry e => exact enter_seen h hS henabled
  | resume => exact resume_seen h henabled

end UcasOs.Sched
