import UcasOs.Foundation.Run
import UcasOs.Sched.Kernel

/-!
# Mutexes, semaphores, conditions and barriers; kernel entries

`kernel/lock/*.c`, the system calls and interrupts through which tasks enter
the kernel, and the state that `init_task` leaves.  An entry runs until the
kernel returns to a task; a task whose turn comes inside a kernel function goes
on there with `resume` before it can enter the kernel again.
-/

namespace UcasOs.Sched

open UcasOs.Foundation UcasOs.Libs

namespace Kernel

def setMutex (k : Kernel) (lock : Nat) (m : MutexLock) : Kernel :=
  { k with mutexes := Function.update k.mutexes lock m }

def doMutexLockInit (k : Kernel) (lock : Nat) : Kernel :=
  let k := k.setMutex lock ⟨.unlocked, 0⟩
  { k with heap := queueInit k.heap (.mutex lock) }

/-- `do_mutex_lock_acquire` from its `while` on. -/
def acquireLoop (k : Kernel) (lock : Nat) : Except Fault Kernel :=
  if (k.mutexes lock).status = .locked then
    k.doWait k.currentRunning (.mutex lock) .blocked (.acquire lock)
  else
    let k := k.modifyPcb k.currentRunning fun p => { p with lockNum := p.lockNum + 1 }
    .ok (k.setMutex lock ⟨.locked, (k.pcb k.currentRunning).pid⟩)

def doMutexLockAcquire (k : Kernel) (lock : Nat) : Except Fault Kernel :=
  if (k.mutexes lock).owner = (k.pcb k.currentRunning).pid then .ok k
  else k.acquireLoop lock

def doMutexLockRelease (k : Kernel) (lock : Nat) : Except Fault Kernel :=
  if (k.mutexes lock).owner ≠ (k.pcb k.currentRunning).pid then .ok k
  else do
    let k ← k.doUnblockOne (.mutex lock)
    let k := k.modifyPcb k.currentRunning fun p => { p with lockNum := p.lockNum - 1 }
    return k.setMutex lock ⟨.unlocked, 0⟩

def setSemaphore (k : Kernel) (s : Nat) (value : Int) : Kernel :=
  { k with semaphores := Function.update k.semaphores s ⟨value⟩ }

def doSemaphoreInit (k : Kernel) (s : Nat) (value : Int) : Kernel :=
  let k := k.setSemaphore s (if value < 0 then 0 else value)
  { k with heap := queueInit k.heap (.semaphore s) }

def doSemaphoreUp (k : Kernel) (s : Nat) : Except Fault Kernel :=
  let k := k.setSemaphore s ((k.semaphores s).value + 1)
  if (k.semaphores s).value ≤ 0 then k.doUnblockOne (.semaphore s) else .ok k

def doSemaphoreDown (k : Kernel) (s : Nat) : Except Fault Kernel :=
  let k := k.setSemaphore s ((k.semaphores s).value - 1)
  if (k.semaphores s).value < 0 then
    k.doWait k.currentRunning (.semaphore s) .blocked .ret
  else .ok k

def setCondition (k : Kernel) (condition : Nat) (waitingNum : Int) : Kernel :=
  { k with conditions := Function.update k.conditions condition ⟨waitingNum⟩ }

def doConditionInit (k : Kernel) (condition : Nat) : Kernel :=
  let k := k.setCondition condition 0
  { k with heap := queueInit k.heap (.condition condition) }

def doConditionWait (k : Kernel) (condition lock : Nat) : Except Fault Kernel := do
  let k := k.setCondition condition ((k.conditions condition).waitingNum + 1)
  let k ← k.doMutexLockRelease lock
  k.doWait k.currentRunning (.condition condition) .blocked (.reacquire lock)

def doConditionSignal (k : Kernel) (condition : Nat) : Except Fault Kernel :=
  if (k.conditions condition).waitingNum > 0 then
    let k := k.setCondition condition ((k.conditions condition).waitingNum - 1)
    k.doUnblockOne (.condition condition)
  else .ok k

def doConditionBroadcast (k : Kernel) (condition : Nat) : Except Fault Kernel :=
  if (k.conditions condition).waitingNum > 0 then
    let k := k.setCondition condition 0
    k.doUnblockAll (.condition condition)
  else .ok k

def setBarrier (k : Kernel) (barrier : Nat) (b : Barrier) : Kernel :=
  { k with barriers := Function.update k.barriers barrier b }

def doBarrierInit (k : Kernel) (barrier : Nat) (goal : Int) : Kernel :=
  let k := k.setBarrier barrier ⟨if goal < 1 then 1 else goal, 0⟩
  { k with heap := queueInit k.heap (.barrier barrier) }

def doBarrierWait (k : Kernel) (barrier : Nat) : Except Fault Kernel :=
  let b := k.barriers barrier
  let k := k.setBarrier barrier { b with arrived := b.arrived + 1 }
  if b.arrived + 1 = b.goal then
    let k := k.setBarrier barrier { b with arrived := 0 }
    k.doUnblockAll (.barrier barrier)
  else
    k.doWait k.currentRunning (.barrier barrier) .waiting .ret

end Kernel

/-! ## Kernel entries -/

inductive Entry where
  | spawn (task : TaskInfo)
  | kill (pid : Int)
  | exit
  | wait (pid : Int)
  | sleep (time : BitVec 32)
  | mutexInit (lock : Nat)
  | mutexAcquire (lock : Nat)
  | mutexRelease (lock : Nat)
  | semaphoreInit (s : Nat) (value : Int)
  | semaphoreUp (s : Nat)
  | semaphoreDown (s : Nat)
  | conditionInit (condition : Nat)
  | conditionWait (condition lock : Nat)
  | conditionSignal (condition : Nat)
  | conditionBroadcast (condition : Nat)
  | barrierInit (barrier : Nat) (goal : Int)
  | barrierWait (barrier : Nat)
  | waitRecv
  | timer
  | mac

namespace Kernel

def enter (k : Kernel) : Entry → Except Fault Kernel
  | .spawn task => k.initPcb task
  | .kill pid => k.kill pid
  | .exit => k.exit
  | .wait pid => k.wait pid
  | .sleep time => k.doSleep time
  | .mutexInit lock => .ok (k.doMutexLockInit lock)
  | .mutexAcquire lock => k.doMutexLockAcquire lock
  | .mutexRelease lock => k.doMutexLockRelease lock
  | .semaphoreInit s value => .ok (k.doSemaphoreInit s value)
  | .semaphoreUp s => k.doSemaphoreUp s
  | .semaphoreDown s => k.doSemaphoreDown s
  | .conditionInit condition => .ok (k.doConditionInit condition)
  | .conditionWait condition lock => k.doConditionWait condition lock
  | .conditionSignal condition => k.doConditionSignal condition
  | .conditionBroadcast condition => k.doConditionBroadcast condition
  | .barrierInit barrier goal => .ok (k.doBarrierInit barrier goal)
  | .barrierWait barrier => k.doBarrierWait barrier
  | .waitRecv => k.doWaitRecvPackage
  | .timer => k.irqTimer
  | .mac => k.irqMac

/-- The current task goes on inside the kernel function it was switched away in. -/
def resume (k : Kernel) : Except Fault Kernel :=
  let k' := { k with kont := Function.update k.kont k.currentRunning .ret }
  match k.kont k.currentRunning with
  | .ret => .ok k
  | .acquire lock => k'.acquireLoop lock
  | .reacquire lock => k'.doMutexLockAcquire lock

end Kernel

/-- Interrupts; all other entries are system calls. -/
def Entry.IsInterrupt : Entry → Prop
  | .timer | .mac => True
  | _ => False

/--
What the callers keep to: tasks are spawned with a positive priority, and no
synchronisation object is initialised while tasks wait on it.
-/
def Entry.Allowed (k : Kernel) : Entry → Prop
  | .spawn task => 1 ≤ task.priority
  | .mutexInit lock => queueIsEmpty k.heap (.mutex lock) = true
  | .semaphoreInit s _ => queueIsEmpty k.heap (.semaphore s) = true
  | .conditionInit condition => queueIsEmpty k.heap (.condition condition) = true
  | .barrierInit barrier _ => queueIsEmpty k.heap (.barrier barrier) = true
  | _ => True

instance (e : Entry) : Decidable e.IsInterrupt :=
  match e with
  | .timer | .mac => inferInstanceAs (Decidable True)
  | .spawn _ | .kill _ | .exit | .wait _ | .sleep _ | .mutexInit _ | .mutexAcquire _
  | .mutexRelease _ | .semaphoreInit _ _ | .semaphoreUp _ | .semaphoreDown _
  | .conditionInit _ | .conditionWait _ _ | .conditionSignal _ | .conditionBroadcast _
  | .barrierInit _ _ | .barrierWait _ | .waitRecv => inferInstanceAs (Decidable False)

instance (k : Kernel) (e : Entry) : Decidable (e.Allowed k) :=
  match e with
  | .spawn _ => inferInstanceAs (Decidable (1 ≤ _))
  | .mutexInit _ | .semaphoreInit _ _ | .conditionInit _ | .barrierInit _ _ =>
      inferInstanceAs (Decidable (_ = true))
  | .kill _ | .exit | .wait _ | .sleep _ | .mutexAcquire _ | .mutexRelease _ | .semaphoreUp _
  | .semaphoreDown _ | .conditionWait _ _ | .conditionSignal _ | .conditionBroadcast _
  | .barrierWait _ | .waitRecv | .timer | .mac => inferInstanceAs (Decidable True)

inductive Event where
  | entry (e : Entry)
  | resume

/--
The boot task loops with interrupts enabled: it makes no system call and is
never switched away in one.
-/
def Event.Enabled (k : Kernel) : Event → Prop
  | .entry e =>
      k.kont k.currentRunning = .ret ∧ (k.currentRunning = 0 → e.IsInterrupt) ∧ e.Allowed k
  | .resume => k.currentRunning ≠ 0 ∧ k.kont k.currentRunning ≠ .ret

instance (k : Kernel) (event : Event) : Decidable (event.Enabled k) :=
  match event with
  | .entry _ => inferInstanceAs (Decidable (_ ∧ (_ → _) ∧ _))
  | .resume => inferInstanceAs (Decidable (_ ∧ _))

def Kernel.exec (k : Kernel) : Event → Except Fault Kernel
  | .entry e => k.enter e
  | .resume => k.resume

def kernelSystem : Lts Kernel Event where
  step k event k' := event.Enabled k ∧ k.exec event = .ok k'

/-! ## Boot -/

/-- Static storage before `init_task`: all bytes zero. -/
def Kernel.zero : Kernel where
  pcb _ := ⟨0, 0, 0, 0, 0, .blocked, 0, none, 0, 0, 0⟩
  heap := ⟨fun _ => none, fun _ => none, fun _ => none, fun _ => none⟩
  currentRunning := 0
  pidList _ := ⟨false, 0⟩
  timeElapsed := 0
  screenCursorX := 0
  screenCursorY := 0
  mutexes _ := ⟨.unlocked, 0⟩
  semaphores _ := ⟨0⟩
  conditions _ := ⟨0⟩
  barriers _ := ⟨0, 0⟩
  kont _ := .ret

def infoShell : TaskInfo := ⟨1⟩

def infoIoProc : TaskInfo := ⟨1⟩

def initTask (k : Kernel) : Except Fault Kernel := do
  let k := { k with heap := queueInit (queueInit k.heap .ready) .sleep }
  let k := k.modifyPcb 0 fun p => { p with pid := 0, lockNum := 0 }
  let k := { k with currentRunning := 0 }
  let k := k.modifyPcb 0 fun p => { p with status := .running, cursorX := 0, cursorY := 0 }
  let k := { k with heap := queueInit k.heap (.wait 0) }
  let k := { k with pidList := slistInit k.pidList maxTaskNum }
  let k ← k.initPcb infoShell
  k.initPcb infoIoProc

end UcasOs.Sched
