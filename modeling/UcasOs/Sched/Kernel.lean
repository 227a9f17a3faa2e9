import UcasOs.Libs.Slist
import UcasOs.Sched.Queue

/-!
# The process table and the scheduler

`kernel/sched/sched.c` with the PCB of `include/sched/sched.h`.  The `prev` and
`next` fields of the PCBs are kept in the heap of `Sched.Queue`, the other
fields in `Pcb`.  A task that gives up the processor inside the kernel keeps a
kernel stack to return to; `kont` records what is left to do on it.
-/

namespace UcasOs.Sched

open UcasOs.Foundation UcasOs.Libs

abbrev Pid := Nat

def maxTaskNum : Nat := 16

def maxLocksNum : Nat := 16

/-- The queues a PCB can be in.  The locks below `maxLocksNum` are `locks[]`. -/
inductive QueueId where
  | ready
  | sleep
  | recv
  | wait (pid : Pid)
  | mutex (lock : Nat)
  | semaphore (s : Nat)
  | condition (condition : Nat)
  | barrier (barrier : Nat)
  deriving DecidableEq, Repr

inductive TaskStatus where
  | blocked
  | running
  | ready
  | exited
  | sleeping
  | waiting
  deriving DecidableEq, Repr

structure Pcb where
  pid : Pid
  priority : Int
  schedulerPriority : Int
  waitTime : Int
  awakenedTime : BitVec 32
  status : TaskStatus
  lockNum : Int
  queue : Option QueueId
  cursorX : Int
  cursorY : Int
  /-- `user_regs_context.regs[2]`, the register that returns results. -/
  reg2 : BitVec 32

structure TaskInfo where
  priority : Int

inductive LockStatus where
  | unlocked
  | locked
  deriving DecidableEq, Repr

structure MutexLock where
  status : LockStatus
  owner : Pid

structure Semaphore where
  value : Int

structure Condition where
  waitingNum : Int

structure Barrier where
  goal : Int
  arrived : Int

/-- What a task does when `do_scheduler` returns in it. -/
inductive Kont where
  | ret
  | acquire (lock : Nat)
  | reacquire (lock : Nat)
  deriving DecidableEq, Repr

structure Kernel where
  pcb : Pid → Pcb
  heap : LinkHeap Pid QueueId
  currentRunning : Pid
  pidList : Slist
  timeElapsed : BitVec 32
  screenCursorX : Int
  screenCursorY : Int
  mutexes : Nat → MutexLock
  semaphores : Nat → Semaphore
  conditions : Nat → Condition
  barriers : Nat → Barrier
  kont : Pid → Kont

namespace Kernel

def modifyPcb (k : Kernel) (p : Pid) (f : Pcb → Pcb) : Kernel :=
  { k with pcb := Function.update k.pcb p (f (k.pcb p)) }

def push (k : Kernel) (queue : QueueId) (item : Pid) : Except Fault Kernel := do
  let heap ← queuePush k.heap queue item
  return { k with heap }

def remove (k : Kernel) (queue : QueueId) (item : Pid) : Except Fault Kernel := do
  let (_, heap) ← queueRemove k.heap queue item
  return { k with heap }

/-! ## Choosing a task -/

structure Scan where
  pcb : Pid → Pcb
  selected : Option Pid
  maxPriority : Int
  maxWaitTime : Int

def Scan.raise (key : Pcb → Int) (s : Scan) (p : Pid) : Scan :=
  if key (s.pcb p) > s.maxPriority then
    { s with
      selected := some p
      maxPriority := key (s.pcb p)
      maxWaitTime := (s.pcb p).waitTime }
  else s

def Scan.tie (key : Pcb → Int) (s : Scan) (p : Pid) : Scan :=
  if key (s.pcb p) = s.maxPriority ∧ (s.pcb p).waitTime ≥ s.maxWaitTime then
    { s with selected := some p, maxWaitTime := (s.pcb p).waitTime }
  else s

def Scan.age (s : Scan) (p : Pid) : Scan :=
  { s with
    pcb := Function.update s.pcb p
      { s.pcb p with waitTime := (s.pcb p).waitTime + 1 } }

/-- The loop body that `scheduler` and `do_unblock_one` share, up to the field compared. -/
def scanStep (key : Pcb → Int) (s : Scan) (p : Pid) : Scan :=
  ((s.raise key p).tie key p).age p

def scan (k : Kernel) (key : Pcb → Int) (queue : QueueId) (selected : Option Pid) :
    Except Fault Scan :=
  match k.heap.walk (scanStep key) maxTaskNum (k.heap.head queue) ⟨k.pcb, selected, 1, 0⟩ with
  | some s => .ok s
  | none => .error .endlessLoop

def saveCurrent (k : Kernel) : Kernel :=
  k.modifyPcb k.currentRunning fun p =>
    { p with
      cursorX := k.screenCursorX
      cursorY := k.screenCursorY
      status := if p.status = .running then .ready else p.status }

def switchTo (k : Kernel) (next : Pid) : Kernel :=
  let k := k.modifyPcb next fun p =>
    { p with
      schedulerPriority :=
        if p.schedulerPriority > 1 then p.schedulerPriority - 1 else p.schedulerPriority
      waitTime := 0
      status := .running }
  { k with
    currentRunning := next
    screenCursorX := (k.pcb next).cursorX
    screenCursorY := (k.pcb next).cursorY }

def scheduler (k : Kernel) : Except Fault Kernel :=
  if queueIsEmpty k.heap .ready then .error (.panic "no task to run.")
  else do
    let k := k.saveCurrent
    let s ← k.scan Pcb.schedulerPriority .ready (some k.currentRunning)
    return { k with pcb := s.pcb }.switchTo (s.selected.getD k.currentRunning)

/-- `do_scheduler`: the caller goes on with `kont` when it is chosen again. -/
def doScheduler (k : Kernel) (kont : Kont) : Except Fault Kernel :=
  scheduler { k with kont := Function.update k.kont k.currentRunning kont }

def doWait (k : Kernel) (p : Pid) (queue : QueueId) (status : TaskStatus) (kont : Kont) :
    Except Fault Kernel := do
  let k ← k.remove .ready p
  let k ← k.push queue p
  let k := k.modifyPcb p fun b => { b with queue := some queue, status }
  k.doScheduler kont

/-- The end of `do_unblock_one`, with the selected task in hand. -/
def wake (k : Kernel) (blockQueue : QueueId) (selected : Pid) : Except Fault Kernel := do
  let k := k.modifyPcb selected fun p =>
    { p with waitTime := 0, schedulerPriority := p.schedulerPriority + 1 }
  let k ← k.remove blockQueue selected
  let k ← k.push .ready selected
  return k.modifyPcb selected fun p => { p with queue := some .ready, status := .ready }

def doUnblockOne (k : Kernel) (blockQueue : QueueId) : Except Fault Kernel :=
  if queueIsEmpty k.heap blockQueue then .ok k
  else do
    let s ← k.scan Pcb.priority blockQueue none
    match s.selected with
    | none => .error .uninitialised
    | some selected => wake { k with pcb := s.pcb } blockQueue selected

def unblockAllLoop (blockQueue : QueueId) : Nat → Kernel → Except Fault Kernel
  | 0, k => if queueIsEmpty k.heap blockQueue then .ok k else .error .endlessLoop
  | fuel + 1, k =>
      if queueIsEmpty k.heap blockQueue then .ok k
      else do
        let (p, heap) ← queueDequeue k.heap blockQueue
        let k ← { k with heap }.push .ready p
        let k := k.modifyPcb p fun b =>
          { b with
            waitTime := 0
            schedulerPriority := b.schedulerPriority + 1
            queue := some .ready
            status := .ready }
        unblockAllLoop blockQueue fuel k

def doUnblockAll (k : Kernel) (blockQueue : QueueId) : Except Fault Kernel :=
  unblockAllLoop blockQueue maxTaskNum k

/-! ## Sleeping -/

def timeSlice : BitVec 32 := 10

def getTicks (k : Kernel) : BitVec 32 := k.timeElapsed

def doSleep (k : Kernel) (sleepTime : BitVec 32) : Except Fault Kernel :=
  let k := k.modifyPcb k.currentRunning fun p =>
    { p with awakenedTime := k.getTicks + sleepTime / timeSlice }
  k.doWait k.currentRunning .sleep .sleeping .ret

/--
The loop of `check_sleeping` from the item `p` on.  After an item has moved to
the ready queue its `next` link is followed there.
-/
def checkSleepingLoop : Nat → Option Pid → Kernel → Except Fault Kernel
  | _, none, k => .ok k
  | 0, some _, _ => .error .endlessLoop
  | fuel + 1, some p, k => do
      let k ←
        if (k.pcb p).awakenedTime ≤ k.getTicks then do
          let k ← k.remove .sleep p
          let k ← k.push .ready p
          let k := k.modifyPcb p fun b => { b with queue := some .ready }
          pure (k.modifyPcb k.currentRunning fun b => { b with status := .ready })
        else pure k
      checkSleepingLoop fuel (k.heap.next p) k

def checkSleeping (k : Kernel) : Except Fault Kernel :=
  checkSleepingLoop maxTaskNum (k.heap.head .sleep) k

/-! ## Processes -/

def setReg2 (k : Kernel) (value : BitVec 32) : Kernel :=
  k.modifyPcb k.currentRunning fun p => { p with reg2 := value }

def initPcb (k : Kernel) (task : TaskInfo) : Except Fault Kernel := do
  let (pid, pidList) := slistAlloc k.pidList
  let k := { k with pidList }
  if pid = 0 then
    return k.setReg2 0
  let k := k.modifyPcb pid fun p =>
    { p with
      pid
      lockNum := 0
      priority := task.priority
      schedulerPriority := task.priority
      waitTime := 0 }
  let k ← k.push .ready pid
  let k := k.modifyPcb pid fun p =>
    { p with
      queue := some .ready
      status := .ready
      cursorX := 0
      cursorY := 0 }
  return { k with
    heap := queueInit k.heap (.wait pid)
    kont := Function.update k.kont pid .ret }

def killLock (k : Kernel) (pid : Pid) (i : Nat) : Except Fault Kernel :=
  if (k.mutexes i).owner = pid then do
    let k ← k.doUnblockOne (.mutex i)
    let k := k.modifyPcb pid fun p => { p with lockNum := p.lockNum - 1 }
    return { k with mutexes := Function.update k.mutexes i ⟨.unlocked, 0⟩ }
  else .ok k

/-- The loop of `kill` that gives up the entries of `locks[]` owned by `pid`. -/
def killLocks (pid : Pid) : List Nat → Kernel → Except Fault Kernel
  | [], k => .ok k
  | i :: rest, k =>
      if (k.pcb pid).lockNum > 0 then do
        let k ← k.killLock pid i
        killLocks pid rest k
      else .ok k

def kill (k : Kernel) (pid : Int) : Except Fault Kernel :=
  if pid = 1 then .ok (k.setReg2 0)
  else
    match slistFree k.pidList pid maxTaskNum with
    | (false, _) => .ok (k.setReg2 0)
    | (true, pidList) => do
        let k := { k with pidList }
        let pid := pid.toNat
        let k ←
          match (k.pcb pid).queue with
          | none => throw .nullPointer
          | some queue => k.remove queue pid
        let k ← killLocks pid (List.range maxLocksNum) k
        let k ← k.doUnblockAll (.wait pid)
        if (k.pcb k.currentRunning).pid = pid then
          k.doScheduler .ret
        else
          return k.setReg2 1

def exit (k : Kernel) : Except Fault Kernel :=
  k.kill (k.pcb k.currentRunning).pid

def wait (k : Kernel) (pid : Int) : Except Fault Kernel :=
  if slistIsValid k.pidList pid maxTaskNum = false ∨ pid = (k.pcb k.currentRunning).pid then
    .ok (k.setReg2 0)
  else
    let k := k.setReg2 1
    k.doWait k.currentRunning (.wait pid.toNat) .waiting .ret

/-! ## Interrupts -/

def irqTimer (k : Kernel) : Except Fault Kernel := do
  let k := { k with timeElapsed := k.timeElapsed + 1 }
  let k ← k.checkSleeping
  k.doScheduler .ret

def irqMac (k : Kernel) : Except Fault Kernel :=
  if queueIsEmpty k.heap .recv then .ok k else k.doUnblockOne .recv

def doWaitRecvPackage (k : Kernel) : Except Fault Kernel :=
  k.doWait k.currentRunning .recv .blocked .ret

end Kernel

end UcasOs.Sched
