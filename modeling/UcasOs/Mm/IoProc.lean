import UcasOs.Mm.Memory
import UcasOs.Sched.Sync

/-!
# Swapping with the I/O task

`kernel/software/io_proc.c`, and `swap_out` and `swap_in` as the tasks run
them: a TLB exception stops where `do_semaphore_down(&io_done)` switches to
another task, and the loop of `sw_io_proc` can be interrupted between any two
of its accesses to `io_task`.
-/

namespace UcasOs.Mm

open UcasOs.Foundation UcasOs.Libs UcasOs.Sched

/-! ## TLB exceptions in pieces -/

/-- The locals of `TLB_exception_helper`. -/
structure TlbException where
  badvaddr : Nat
  entryHi : Nat
  isTlbRefill : Bool
  poolNum : Nat
  pageTableNum : Nat
  deriving DecidableEq

/--
Where a task is in a TLB exception.  In `swap_out`, `address` is that of the
`swap_in` that has called it.
-/
inductive SwapPc where
  | user
  | swapOut (pid : Pid) (address : Option Nat) (x : TlbException)
  | swapIn (address : Nat) (pmIndex : Int) (x : TlbException)
  deriving DecidableEq

/-- An exception runs to its end or to a request, with the task to take out of its queue. -/
inductive Progress where
  | done (m : Machine)
  | post (pid : Option Pid) (ioTask : IoTask) (pc : SwapPc) (m : Machine)

namespace Machine

def leaveException (m : Machine) (x : TlbException) (random : Nat) : Progress :=
  .done (m.fillTlb x.poolNum x.pageTableNum x.entryHi x.isTlbRefill random)

/-- The exception goes on with the frame `pmIndex`, of `swap_in` if there is an `address`. -/
def useFrame (m : Machine) (current : Pid) (x : TlbException) (address : Option Nat)
    (pmIndex : Int) (random : Nat) : Progress :=
  match address with
  | none =>
      (m.mapFrame current x.poolNum x.pageTableNum x.badvaddr pmIndex).leaveException x random
  | some address =>
      .post none (readRequest address pmIndex) (.swapIn address pmIndex x) m

def findFrame (m : Machine) (current : Pid) (x : TlbException) (address : Option Nat)
    (random : Nat) : Progress :=
  let (pmIndex, m) := m.pmAlloc
  if pmIndex = -1 then
    let (pid, ioTask, m) := m.evict
    .post (some pid) ioTask (.swapOut pid address x) m
  else m.useFrame current x address pmIndex random

def beginException (m : Machine) (current : Pid) (badvaddr random : Nat) :
    Except Fault Progress := do
  let entryHi := entryHiOf current badvaddr
  let isTlbRefill := (tlbp m.tlb entryHi).isNone
  let pageTableNum := (badvaddr >>> 13) &&& 0x1ff
  let (poolNum, m) ← m.pageTableOf current (badvaddr >>> 22)
  let x : TlbException := ⟨badvaddr, entryHi, isTlbRefill, poolNum, pageTableNum⟩
  let pte := m.pageTablePool poolNum pageTableNum
  if pte.valid then
    if pte.present then return m.leaveException x random
    else return m.findFrame current x (some pte.addr) random
  else return m.findFrame current x none random

/-- The exception after its request has been served. -/
def continueException (m : Machine) (current : Pid) (random : Nat) : SwapPc → Progress
  | .user => .done m
  | .swapOut _ address x =>
      let (pmIndex, m) := m.pmAlloc
      m.useFrame current x address pmIndex random
  | .swapIn address pmIndex x =>
      (m.swapInEnd current x.poolNum x.pageTableNum x.badvaddr address
        pmIndex).leaveException x random

/-- The exception, with each of its requests served at once. -/
def settle (current : Pid) (random : Nat) : Nat → Progress → Machine
  | _, .done m => m
  | 0, .post _ ioTask _ m => m.post ioTask
  | fuel + 1, .post _ ioTask pc m =>
      settle current random fuel ((m.post ioTask).continueException current random pc)

private theorem settle_findFrame (m : Machine) (current : Pid) (x : TlbException) (random : Nat) :
    settle current random 2 (m.findFrame current x none random) =
      (m.pmAllocSwapping.2.mapFrame current x.poolNum x.pageTableNum x.badvaddr
        m.pmAllocSwapping.1).fillTlb x.poolNum x.pageTableNum x.entryHi x.isTlbRefill random := by
  unfold findFrame pmAllocSwapping
  dsimp only
  split <;> rfl

private theorem settle_findFrame_some (m : Machine) (current : Pid) (x : TlbException) (random : Nat) :
    settle current random 2
        (m.findFrame current x (some (m.pageTablePool x.poolNum x.pageTableNum).addr) random) =
      (m.swapIn current x.poolNum x.pageTableNum x.badvaddr).fillTlb x.poolNum x.pageTableNum
        x.entryHi x.isTlbRefill random := by
  unfold findFrame swapIn pmAllocSwapping
  dsimp only
  split <;> rfl

/-- Served at once, the pieces are the exception of `Mm.Memory`. -/
theorem settle_beginException (m : Machine) (current : Pid) (va random : Nat) :
    (m.beginException current va random).map (settle current random 2) =
      m.fault current va random := by
  unfold beginException fault tlbExceptionHelper
  dsimp only
  cases m.pageTableOf current (va >>> 22) with
  | error fault => rfl
  | ok s =>
      obtain ⟨poolNum, m₁⟩ := s
      dsimp only [bind, Except.bind, pure, Except.pure]
      unfold pageIn
      cases hvalid : (m₁.pageTablePool poolNum ((va >>> 13) &&& 0x1ff)).valid with
      | false =>
          simp only [Bool.false_eq_true, if_false, Except.map, Except.ok.injEq]
          exact settle_findFrame m₁ current ⟨va, _, _, poolNum, _⟩ random
      | true =>
          cases hpresent : (m₁.pageTablePool poolNum ((va >>> 13) &&& 0x1ff)).present with
          | true =>
              simp only [if_true, Except.map]
              rfl
          | false =>
              simp only [Bool.false_eq_true, if_false, if_true, Except.map, Except.ok.injEq]
              exact settle_findFrame_some m₁ current ⟨va, _, _, poolNum, _⟩ random

end Machine

/-! ## The I/O task -/

def ioProc : Pid := 2

def ioTasks : Nat := 0

def ioDone : Nat := 1

def freeIoTasks : Nat := 2

/-- Where `sw_io_proc` is; the fields of `io_task` are loaded one after the other. -/
inductive IoPc where
  | initTasks
  | initDone
  | initFree
  | down
  | test
  | buffer (type : IoTaskType)
  | base (type : IoTaskType) (buffer : Nat)
  | n (type : IoTaskType) (buffer base : Nat)
  | transfer (ioTask : IoTask)
  | up

/-- `posted` and `executed` record the requests with their posters, and what was executed. -/
structure IoState where
  kernel : Kernel
  machine : Machine
  pc : Pid → SwapPc
  io : IoPc
  posted : List (Pid × IoTask)
  executed : List IoTask

inductive IoEvent where
  | timer
  | spawn (task : TaskInfo)
  | fault (va random : Nat)
  | resume (random : Nat)
  | io

namespace IoState

def current (s : IoState) : Pid := s.kernel.currentRunning

def setPc (s : IoState) (p : Pid) (pc : SwapPc) : IoState :=
  { s with pc := Function.update s.pc p pc }

/-- `queue_remove` of a task whose page is on its way out. -/
def takeOut (k : Kernel) (pid : Pid) : Except Fault Kernel :=
  if k.currentRunning ≠ pid then
    match (k.pcb pid).queue with
    | none => .error .nullPointer
    | some queue => k.remove queue pid
  else .ok k

def putBack (k : Kernel) (pid : Pid) : Except Fault Kernel :=
  if k.currentRunning ≠ pid then
    match (k.pcb pid).queue with
    | none => .error .nullPointer
    | some queue => k.push queue pid
  else .ok k

def postRequest (s : IoState) (ioTask : IoTask) (pc : SwapPc) (kernel : Kernel) :
    Except Fault IoState := do
  let s := { s with
    machine := { s.machine with ioTask }
    posted := s.posted ++ [(s.current, ioTask)] }.setPc s.current pc
  let kernel ← kernel.doSemaphoreUp ioTasks
  let kernel ← kernel.doSemaphoreDown ioDone
  return { s with kernel }

def proceed (s : IoState) : Progress → Except Fault IoState
  | .done machine => .ok ({ s with machine }.setPc s.current .user)
  | .post none ioTask pc machine => { s with machine }.postRequest ioTask pc s.kernel
  | .post (some pid) ioTask pc machine => do
      let kernel ← takeOut s.kernel pid
      { s with machine }.postRequest ioTask pc kernel

def fault (s : IoState) (va random : Nat) : Except Fault IoState := do
  let progress ← s.machine.beginException s.current va random
  s.proceed progress

/-- The end of `swap_out`. -/
def endSwapOut (s : IoState) : Except Fault Kernel :=
  match s.pc s.current with
  | .swapOut pid _ _ => putBack s.kernel pid
  | _ => .ok s.kernel

/-- `do_semaphore_down(&io_done)` returns in the current task. -/
def resume (s : IoState) (random : Nat) : Except Fault IoState := do
  let kernel ← s.endSwapOut
  { s with kernel }.proceed (s.machine.continueException s.current random (s.pc s.current))

def swIoProc (s : IoState) : Except Fault IoState :=
  match s.io with
  | .initTasks => .ok { s with kernel := s.kernel.doSemaphoreInit ioTasks 0, io := .initDone }
  | .initDone => .ok { s with kernel := s.kernel.doSemaphoreInit ioDone 0, io := .initFree }
  | .initFree => .ok { s with kernel := s.kernel.doSemaphoreInit freeIoTasks 1, io := .down }
  | .down => do
      let kernel ← s.kernel.doSemaphoreDown ioTasks
      return { s with kernel, io := .test }
  | .test => .ok { s with io := .buffer s.machine.ioTask.type }
  | .buffer type => .ok { s with io := .base type s.machine.ioTask.buffer }
  | .base type buffer => .ok { s with io := .n type buffer s.machine.ioTask.base }
  | .n type buffer base => .ok { s with io := .transfer ⟨type, buffer, base, s.machine.ioTask.n⟩ }
  | .transfer ioTask =>
      .ok { s with
        machine := s.machine.transfer ioTask
        executed := s.executed ++ [ioTask]
        io := .up }
  | .up => do
      let kernel ← s.kernel.doSemaphoreUp ioDone
      return { s with kernel, io := .down }

def irqTimer (s : IoState) : Except Fault IoState := do
  let kernel ← s.kernel.irqTimer
  return { s with kernel, machine := s.machine.tick }

def initPcb (s : IoState) (task : TaskInfo) : Except Fault IoState := do
  let kernel ← s.kernel.initPcb task
  return { s with kernel, machine := s.machine.initPcb }

def exec (s : IoState) : IoEvent → Except Fault IoState
  | .timer => s.irqTimer
  | .spawn task => s.initPcb task
  | .fault va random => s.fault va random
  | .resume random => s.resume random
  | .io => s.swIoProc

/-- `init_task` has made the shell and the I/O task. -/
def boot (kernel : Kernel) (memory sd : Nat → UInt8) : IoState where
  kernel := kernel
  machine := (Machine.boot memory sd).initPcb.initPcb
  pc _ := .user
  io := .initTasks
  posted := []
  executed := []

end IoState

/-- Interrupts come in user mode; the boot task does nothing but wait for them. -/
def IoEvent.Enabled (s : IoState) : IoEvent → Prop
  | .timer => s.pc s.current = .user
  | .spawn task => s.pc s.current = .user ∧ s.current ≠ 0 ∧ 1 ≤ task.priority
  | .fault va random =>
      s.pc s.current = .user ∧ s.current ≠ 0 ∧ va < 2 ^ 31 ∧ random < tlbEntryNumber
  | .resume random => s.pc s.current ≠ .user ∧ random < tlbEntryNumber
  | .io => s.pc s.current = .user ∧ s.current = ioProc

def ioSystem : Lts IoState IoEvent where
  step s event s' := event.Enabled s ∧ s.exec event = .ok s'

end UcasOs.Mm
