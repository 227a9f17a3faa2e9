import UcasOs.Sched.Table

/-!
# The kernel as its tasks see it

A `View` has the queues as lists and, of every PCB, what other tasks can
observe.  Its steps say what each kernel entry does to the queues, the states
of the tasks and the synchronisation objects, and leave open which ready task
runs next and which waiter is woken.  `Sched.Steps` proves that the kernel
takes no other steps.
-/

namespace UcasOs.Sched

open UcasOs.Foundation UcasOs.Libs

@[ext] structure View where
  queue : QueueId → List Pid
  status : Pid → TaskStatus
  current : Pid
  live : Pid → Prop
  time : BitVec 32
  awakened : Pid → BitVec 32
  mutexes : Nat → MutexLock
  semaphores : Nat → Semaphore
  conditions : Nat → Condition
  barriers : Nat → Barrier
  lockNum : Pid → Int
  kont : Pid → Kont
  cursor : Pid → Int × Int
  screen : Int × Int

/-- The view of a kernel whose queues hold the lists `L`. -/
def Kernel.view (k : Kernel) (L : QueueId → List Pid) : View where
  queue := L
  status p := (k.pcb p).status
  current := k.currentRunning
  live := k.Live
  time := k.timeElapsed
  awakened p := (k.pcb p).awakenedTime
  mutexes := k.mutexes
  semaphores := k.semaphores
  conditions := k.conditions
  barriers := k.barriers
  lockNum p := (k.pcb p).lockNum
  kont := k.kont
  cursor p := ((k.pcb p).cursorX, (k.pcb p).cursorY)
  screen := (k.screenCursorX, k.screenCursorY)

namespace View

/-! ## Moving tasks -/

/-- The running task is left for `next` and will go on with `kont`. -/
def switch (v : View) (kont : Kont) (next : Pid) : View :=
  { v with
    current := next
    kont := Function.update v.kont v.current kont
    status := Function.update
      (Function.update v.status v.current
        (if v.status v.current = .running then .ready else v.status v.current)) next .running
    cursor := Function.update v.cursor v.current v.screen
    screen := Function.update v.cursor v.current v.screen next }

@[simp] theorem switch_kont (v : View) (kont : Kont) (next : Pid) :
    (v.switch kont next).kont = Function.update v.kont v.current kont := rfl

def block (v : View) (q : QueueId) (status : TaskStatus) : View :=
  { v with
    queue := join (leave v.queue .ready v.current) q v.current
    status := Function.update v.status v.current status }

def wake (v : View) (q : QueueId) (p : Pid) : View :=
  { v with
    queue := join (leave v.queue q p) .ready p
    status := Function.update v.status p .ready }

def wakeAll (v : View) (q : QueueId) : View :=
  { v with
    queue := Function.update (Function.update v.queue q []) .ready (v.queue .ready ++ v.queue q)
    status := fun p => if p ∈ v.queue q then .ready else v.status p }

/-- A sleeper joins the ready queue; it is the running task that is marked ready. -/
def awaken (v : View) (p : Pid) : View :=
  { v with
    queue := join (leave v.queue .sleep p) .ready p
    status := Function.update v.status v.current .ready }

def Due (v : View) (p : Pid) : Prop := v.awakened p ≤ v.time

instance (v : View) (p : Pid) : Decidable (v.Due p) := inferInstanceAs (Decidable (_ ≤ _))

/-- `check_sleeping` wakes the first task whose time has come. -/
def wakeSleeper (v : View) : View :=
  ((v.queue .sleep).find? fun p => v.Due p).elim v v.awaken

theorem wakeAll_nil {v : View} {q : QueueId} (hnil : v.queue q = []) : v.wakeAll q = v := by
  ext1
  case queue =>
      change Function.update (Function.update v.queue q []) .ready (v.queue .ready ++ v.queue q) =
        v.queue
      rw [← hnil, Function.update_eq_self, hnil, List.append_nil, Function.update_eq_self]
  case status =>
      funext x
      simp [wakeAll, hnil]
  all_goals rfl

/-- Waking the first task and then the rest wakes all. -/
theorem wakeAll_wake {v : View} {q : QueueId} {p : Pid} {rest : List Pid} (hq : q ≠ .ready)
    (hcons : v.queue q = p :: rest) : (v.wake q p).wakeAll q = v.wakeAll q := by
  have hrest : (v.wake q p).queue q = rest := by simp [wake, join, leave, hq, hcons]
  have hready : (v.wake q p).queue .ready = v.queue .ready ++ [p] := by
    simp [wake, join, leave, hq.symm]
  ext1
  case queue =>
      funext x
      by_cases hx : x = .ready
      · subst hx
        simp [wakeAll, hrest, hready, hcons]
      · by_cases hxq : x = q
        · subst hxq
          simp [wakeAll, hx]
        · simp [wakeAll, wake, join, leave, hx, hxq]
  case status =>
      funext x
      change (if x ∈ (v.wake q p).queue q then TaskStatus.ready else
        Function.update v.status p .ready x) = if x ∈ v.queue q then .ready else v.status x
      rw [hrest, hcons]
      by_cases hx : x = p <;> simp [hx]
  all_goals rfl

def Switches (kont : Kont) (v v' : View) : Prop :=
  ∃ next ∈ v.queue .ready, v' = v.switch kont next

def Waits (q : QueueId) (status : TaskStatus) (kont : Kont) (v v' : View) : Prop :=
  (v.block q status).Switches kont v'

def WakesOne (q : QueueId) (v v' : View) : Prop :=
  (v.queue q = [] ∧ v' = v) ∨ ∃ p ∈ v.queue q, v' = v.wake q p

/-! ## Synchronisation objects -/

def setMutex (v : View) (lock : Nat) (m : MutexLock) : View :=
  { v with mutexes := Function.update v.mutexes lock m }

def addLocks (v : View) (p : Pid) (n : Int) : View :=
  { v with lockNum := Function.update v.lockNum p (v.lockNum p + n) }

def setSemaphore (v : View) (s : Nat) (value : Int) : View :=
  { v with semaphores := Function.update v.semaphores s ⟨value⟩ }

def setCondition (v : View) (condition : Nat) (waitingNum : Int) : View :=
  { v with conditions := Function.update v.conditions condition ⟨waitingNum⟩ }

def setBarrier (v : View) (barrier : Nat) (b : Barrier) : View :=
  { v with barriers := Function.update v.barriers barrier b }

/-- `do_mutex_lock_acquire` from its loop on. -/
def Takes (lock : Nat) (v v' : View) : Prop :=
  if (v.mutexes lock).status = .locked then
    v.Waits (.mutex lock) .blocked (.acquire lock) v'
  else
    v' = (v.addLocks v.current 1).setMutex lock ⟨.locked, v.current⟩

def Acquires (lock : Nat) (v v' : View) : Prop :=
  if (v.mutexes lock).owner = v.current then v' = v else v.Takes lock v'

def Releases (lock : Nat) (v v' : View) : Prop :=
  if (v.mutexes lock).owner ≠ v.current then v' = v
  else ∃ v₁, v.WakesOne (.mutex lock) v₁ ∧
    v' = (v₁.addLocks v.current (-1)).setMutex lock ⟨.unlocked, 0⟩

/-! ## Processes -/

def spawn (v : View) (pid : Pid) : View :=
  { v with
    queue := join v.queue .ready pid
    status := Function.update v.status pid .ready
    live := fun p => p = pid ∨ v.live p
    lockNum := Function.update v.lockNum pid 0
    kont := Function.update v.kont pid .ret
    cursor := Function.update v.cursor pid (0, 0) }

def remove (v : View) (q : QueueId) (pid : Pid) : View :=
  { v with
    queue := leave v.queue q pid
    live := fun p => p ≠ pid ∧ v.live p }

def KillLock (pid : Pid) (lock : Nat) (v v' : View) : Prop :=
  if (v.mutexes lock).owner = pid then
    ∃ v₁, v.WakesOne (.mutex lock) v₁ ∧
      v' = (v₁.addLocks pid (-1)).setMutex lock ⟨.unlocked, 0⟩
  else v' = v

/-- The locks of `pid` among the given ones are opened, as long as it is said to hold any. -/
def KillLocks (pid : Pid) : List Nat → View → View → Prop
  | [], v, v' => v' = v
  | i :: rest, v, v' =>
      if v.lockNum pid > 0 then ∃ v₁, v.KillLock pid i v₁ ∧ KillLocks pid rest v₁ v'
      else v' = v

def Kills (pid : Pid) (v v' : View) : Prop :=
  ∃ q v₁, pid ∈ v.queue q ∧ KillLocks pid (List.range maxLocksNum) (v.remove q pid) v₁ ∧
    if v.current = pid then (v₁.wakeAll (.wait pid)).Switches .ret v'
    else v' = v₁.wakeAll (.wait pid)

/-- The pids that `kill` and `wait` accept. -/
def Accepts (v : View) (pid : Int) (p : Pid) : Prop := pid = p ∧ v.live p

def KillStep (pid : Int) (v v' : View) : Prop :=
  ((pid = 1 ∨ ∀ p, ¬ v.Accepts pid p) ∧ v' = v) ∨
    (pid ≠ 1 ∧ ∃ p, v.Accepts pid p ∧ v.Kills p v')

/-! ## Entries -/

def Step (v v' : View) : Entry → Prop
  | .spawn _ => v' = v ∨ ∃ pid, ¬ v.live pid ∧ pid ≠ 0 ∧ v' = v.spawn pid
  | .kill pid => v.KillStep pid v'
  | .exit => v.KillStep v.current v'
  | .wait pid =>
      ((pid = v.current ∨ ∀ p, ¬ v.Accepts pid p) ∧ v' = v) ∨
        (pid ≠ v.current ∧ ∃ p, v.Accepts pid p ∧ v.Waits (.wait p) .waiting .ret v')
  | .sleep time =>
      { v with
        awakened := Function.update v.awakened v.current
          (v.time + time / Kernel.timeSlice) }.Waits .sleep .sleeping .ret v'
  | .mutexInit lock => v' = v.setMutex lock ⟨.unlocked, 0⟩
  | .mutexAcquire lock => v.Acquires lock v'
  | .mutexRelease lock => v.Releases lock v'
  | .semaphoreInit s value => v' = v.setSemaphore s (if value < 0 then 0 else value)
  | .semaphoreUp s =>
      let v₁ := v.setSemaphore s ((v.semaphores s).value + 1)
      if (v.semaphores s).value + 1 ≤ 0 then v₁.WakesOne (.semaphore s) v' else v' = v₁
  | .semaphoreDown s =>
      let v₁ := v.setSemaphore s ((v.semaphores s).value - 1)
      if (v.semaphores s).value - 1 < 0 then v₁.Waits (.semaphore s) .blocked .ret v'
      else v' = v₁
  | .conditionInit condition => v' = v.setCondition condition 0
  | .conditionWait condition lock =>
      ∃ v₁, (v.setCondition condition ((v.conditions condition).waitingNum + 1)).Releases lock v₁ ∧
        v₁.Waits (.condition condition) .blocked (.reacquire lock) v'
  | .conditionSignal condition =>
      if (v.conditions condition).waitingNum > 0 then
        (v.setCondition condition ((v.conditions condition).waitingNum - 1)).WakesOne
          (.condition condition) v'
      else v' = v
  | .conditionBroadcast condition =>
      if (v.conditions condition).waitingNum > 0 then
        v' = (v.setCondition condition 0).wakeAll (.condition condition)
      else v' = v
  | .barrierInit barrier goal => v' = v.setBarrier barrier ⟨if goal < 1 then 1 else goal, 0⟩
  | .barrierWait barrier =>
      let b := v.barriers barrier
      if b.arrived + 1 = b.goal then
        v' = (v.setBarrier barrier { b with arrived := 0 }).wakeAll (.barrier barrier)
      else
        (v.setBarrier barrier { b with arrived := b.arrived + 1 }).Waits (.barrier barrier)
          .waiting .ret v'
  | .waitRecv => v.Waits .recv .blocked .ret v'
  | .timer => ({ v with time := v.time + 1 }.wakeSleeper).Switches .ret v'
  | .mac => v.WakesOne .recv v'

def park (v : View) (kont : Kont) : View :=
  { v with kont := Function.update v.kont v.current kont }

@[simp] theorem park_kont (v : View) (kont : Kont) :
    (v.park kont).kont = Function.update v.kont v.current kont := rfl

def Resumes (v v' : View) : Prop :=
  match v.kont v.current with
  | .ret => v' = v
  | .acquire lock => (v.park .ret).Takes lock v'
  | .reacquire lock => (v.park .ret).Acquires lock v'

def Does (v v' : View) : Event → Prop
  | .entry e => v.Step v' e
  | .resume => v.Resumes v'

end View

end UcasOs.Sched
