import UcasOs.Fs.Files
import UcasOs.Fs.Namespace
import UcasOs.Sched.Registers

/-!
# System calls that return a value

`system_call_helper` of `kernel/exception/syscall.c`.  There is no common
return path: each handler stores its answer in `regs[2]` of the running task on
each of its branches, `wait` before it blocks.  A call is complete when its
caller runs again.
-/

namespace UcasOs.Exception

open UcasOs.Foundation UcasOs.Libs UcasOs.Sched UcasOs.Fs

structure Machine where
  kernel : Kernel
  fs : FsState
  /-- what the serial port has received -/
  fifo : List (BitVec 8)
  /-- the address of `current_dir.name` -/
  dirName : BitVec 32

/-- Where a call does not come back. -/
inductive Stop where
  | kernel (fault : Sched.Fault)
  | fs (fault : Fs.Fault)

inductive Syscall where
  | spawn (task : TaskInfo)
  | kill (pid : Int)
  | wait (pid : Int)
  | getpid
  | read
  | getDirName
  | fopen (s : CString) (access : UInt32)
  | fclose (fd : Int)
  | fread (fd : Int) (size : UInt32)
  | fwrite (fd : Int) (buf : Nat → UInt8) (size : UInt32)

namespace Machine

def setReg2 (m : Machine) (value : BitVec 32) : Machine :=
  { m with kernel := m.kernel.setReg2 value }

def inKernel (m : Machine) (x : Except Sched.Fault Kernel) : Except Stop Machine :=
  match x with
  | .ok kernel => .ok { m with kernel }
  | .error fault => .error (.kernel fault)

def doGetpid (m : Machine) : Machine :=
  m.setReg2 (BitVec.ofNat 32 (m.kernel.pcb m.kernel.currentRunning).pid)

/-- The character is a signed one. -/
def readUartCh (m : Machine) : Machine :=
  match m.fifo with
  | [] => m.setReg2 0
  | ch :: fifo => { m with fifo }.setReg2 (ch.signExtend 32)

def getCurrDirName (m : Machine) : Machine := m.setReg2 m.dirName

/-- The functions on open files return here what the source stores on each of their branches. -/
def systemCallHelper (m : Machine) : Syscall → Except Stop Machine
  | .spawn task => m.inKernel (m.kernel.initPcb task)
  | .kill pid => m.inKernel (m.kernel.kill pid)
  | .wait pid => m.inKernel (m.kernel.wait pid)
  | .getpid => .ok m.doGetpid
  | .read => .ok m.readUartCh
  | .getDirName => .ok m.getCurrDirName
  | .fopen s access =>
      let (fs, fd) := fopen s access m.fs
      .ok ({ m with fs }.setReg2 (BitVec.ofInt 32 fd))
  | .fclose fd =>
      let (fs, ret) := fclose fd m.fs
      .ok ({ m with fs }.setReg2 (BitVec.ofNat 32 ret.toNat))
  | .fread fd size =>
      match fread fd size m.fs with
      | .ok (fs, _, totalSize) => .ok ({ m with fs }.setReg2 totalSize.toBitVec)
      | .error fault => .error (.fs fault)
  | .fwrite fd buf size =>
      match fwrite fd buf size m.fs with
      | .ok (fs, sizeWritten) => .ok ({ m with fs }.setReg2 sizeWritten.toBitVec)
      | .error fault => .error (.fs fault)

end Machine

/-- What goes on while a caller is blocked: the kernel is entered or a task goes on in it, a call
returns a value, or one of the calls on directories and the screen, and the serial port, change
what is not a task's. -/
inductive Action where
  | event (event : Event)
  | call (call : Syscall)
  | outside (fs : FsState) (fifo : List (BitVec 8)) (cursorX cursorY : Int)

namespace Machine

def exec (m : Machine) : Action → Except Stop Machine
  | .event event => m.inKernel (m.kernel.exec event)
  | .call call => m.systemCallHelper call
  | .outside fs fifo cursorX cursorY =>
      .ok { m with
        fs
        fifo
        kernel := { m.kernel with screenCursorX := cursorX, screenCursorY := cursorY } }

end Machine

def machineSystem : Lts Machine Action where
  step m action m' := m.exec action = .ok m'

/-- The steps of the machine while `p` does not run. -/
def others (p : Pid) : Lts Machine Action :=
  machineSystem.restrict fun m _ => m.kernel.currentRunning ≠ p

namespace Machine

/-- The call of the running task completes, with `result` in the register of its caller. -/
def Yields (m : Machine) (call : Syscall) (result : BitVec 32) : Prop :=
  ∃ m₁ actions m₂, m.systemCallHelper call = .ok m₁ ∧
    (others m.kernel.currentRunning).Run m₁ actions m₂ ∧
    m₂.kernel.currentRunning = m.kernel.currentRunning ∧
    (m₂.kernel.pcb m.kernel.currentRunning).reg2 = result

/-- The machine with `value` in the register of the running task. -/
def stale (m : Machine) (value : BitVec 32) : Machine :=
  { m with kernel := m.kernel.stale m.kernel.currentRunning value }

/-- Whatever two values the register holds before: when the call completes from one of them it
completes from the other, with the same result. -/
def Fresh (m : Machine) (call : Syscall) : Prop :=
  ∀ value value' result result', (m.stale value).Yields call result →
    ((m.stale value').Yields call result' ↔ result' = result)

end Machine

/-- A spawn that finds a pid, and a ready queue to put the task in. -/
def Syscall.Spawns (kernel : Kernel) : Syscall → Prop
  | .spawn _ => slistIsInsufficient kernel.pidList = false ∧
      (kernel.heap.head .ready ≠ none → kernel.heap.tail .ready ≠ none)
  | _ => False

/-- The caller does not kill itself. -/
def Syscall.SparesCaller (kernel : Kernel) : Syscall → Prop
  | .kill pid => pid ≠ (kernel.pcb kernel.currentRunning).pid
  | _ => True

/-! ## Results -/

variable {m m' : Machine} {p : Pid}

theorem inKernel_ok {x : Except Sched.Fault Kernel} (h : m.inKernel x = .ok m') :
    x = .ok m'.kernel := by
  cases x with
  | error fault => cases h
  | ok kernel => cases h; rfl

theorem exec_reg2_of_enter {k k' : Kernel} {e : Entry} (hp : k.currentRunning ≠ p)
    (h : k.enter e = .ok k') : (k'.pcb p).reg2 = (k.pcb p).reg2 :=
  Kernel.exec_reg2 hp (show k.exec (.entry e) = .ok k' from h)

theorem setReg2_other (hp : m.kernel.currentRunning ≠ p) (value : BitVec 32) :
    ((m.setReg2 value).kernel.pcb p).reg2 = (m.kernel.pcb p).reg2 := by
  simp [Machine.setReg2, Kernel.setReg2, Kernel.modifyPcb, Ne.symm hp]

theorem systemCallHelper_reg2 (hp : m.kernel.currentRunning ≠ p) {call : Syscall}
    (h : m.systemCallHelper call = .ok m') :
    (m'.kernel.pcb p).reg2 = (m.kernel.pcb p).reg2 := by
  cases call with
  | spawn task => exact exec_reg2_of_enter (e := .spawn task) hp (inKernel_ok h)
  | kill pid => exact exec_reg2_of_enter (e := .kill pid) hp (inKernel_ok h)
  | wait pid => exact exec_reg2_of_enter (e := .wait pid) hp (inKernel_ok h)
  | getpid => cases h; exact setReg2_other hp _
  | read =>
      cases h
      unfold Machine.readUartCh
      cases hfifo : m.fifo with
      | nil => exact setReg2_other hp _
      | cons ch fifo => exact setReg2_other (m := { m with fifo := fifo }) hp _
  | getDirName => cases h; exact setReg2_other hp _
  | fopen s access => cases h; exact setReg2_other (m := { m with fs := _ }) hp _
  | fclose fd => cases h; exact setReg2_other (m := { m with fs := _ }) hp _
  | fread fd size =>
      simp only [Machine.systemCallHelper] at h
      split at h
      · cases h; exact setReg2_other (m := { m with fs := _ }) hp _
      · cases h
  | fwrite fd buf size =>
      simp only [Machine.systemCallHelper] at h
      split at h
      · cases h; exact setReg2_other (m := { m with fs := _ }) hp _
      · cases h

/-- Other tasks leave the register of a blocked caller alone. -/
theorem others_reg2 {actions : List Action} (run : (others p).Run m actions m') :
    (m'.kernel.pcb p).reg2 = (m.kernel.pcb p).reg2 := by
  induction run with
  | nil => rfl
  | @snoc m₁ m₂ actions action _ hstep ih =>
      obtain ⟨hp, hexec⟩ := hstep
      refine Eq.trans ?_ ih
      cases action with
      | event event => exact Kernel.exec_reg2 hp (inKernel_ok hexec)
      | call call => exact systemCallHelper_reg2 hp hexec
      | outside fs fifo cursorX cursorY => cases hexec; rfl

theorem Machine.Yields.eq {call : Syscall} {result : BitVec 32} (h : m.Yields call result)
    (hcall : m.systemCallHelper call = .ok m') :
    result = (m'.kernel.pcb m.kernel.currentRunning).reg2 := by
  obtain ⟨m₁, actions, m₂, hm₁, run, -, rfl⟩ := h
  rw [hm₁] at hcall
  cases hcall
  exact others_reg2 run

theorem stale_setReg2 (m : Machine) (value result : BitVec 32) :
    (m.stale value).setReg2 result = m.setReg2 result :=
  congrArg (fun kernel => { m with kernel := kernel })
    (Kernel.setReg2_stale_self (k := m.kernel) value rfl result)

/-- `init_pcb` with a pid for the task: it all depends on the ready queue. -/
theorem initPcb_free {k : Kernel} (task : TaskInfo) (hfree : slistIsInsufficient k.pidList = false) :
    (k.heap.head .ready ≠ none ∧ k.heap.tail .ready = none ∧
      k.initPcb task = .error .nullPointer) ∨
    ((k.heap.head .ready ≠ none → k.heap.tail .ready ≠ none) ∧
      ∃ k', k.initPcb task = .ok k' ∧ k'.currentRunning = k.currentRunning) := by
  have hcursor : (slistAlloc k.pidList).1 ≠ 0 := by
    rw [slistIsInsufficient, decide_eq_false_iff_not] at hfree
    simp [slistAlloc, slistIsInsufficient, hfree]
  unfold Kernel.initPcb Kernel.push Kernel.modifyPcb queuePush
  simp only [if_neg hcursor]
  cases hhead : k.heap.head .ready with
  | none => exact .inr ⟨fun h => absurd rfl h, _, rfl, rfl⟩
  | some first =>
      cases htail : k.heap.tail .ready with
      | none => exact .inl ⟨by simp, rfl, rfl⟩
      | some last => exact .inr ⟨by simp, _, rfl, rfl⟩

theorem systemCallHelper_stale {call : Syscall} (hother : call.SparesCaller m.kernel)
    (hspawn : ¬ call.Spawns m.kernel) (value : BitVec 32) :
    (m.stale value).systemCallHelper call = m.systemCallHelper call := by
  have hset : ∀ fs result, Machine.setReg2 { m.stale value with fs } result =
      Machine.setReg2 { m with fs } result :=
    fun fs result => stale_setReg2 { m with fs } value result
  cases call with
  | spawn task =>
      have hinit : (m.stale value).kernel.initPcb task = m.kernel.initPcb task := by
        cases hfull : slistIsInsufficient m.kernel.pidList with
        | true =>
            rw [Kernel.initPcb_full m.kernel task hfull,
              Kernel.initPcb_full (m.stale value).kernel task hfull]
            exact congrArg Except.ok (Kernel.setReg2_stale_self value rfl 0)
        | false =>
            have hstale := Kernel.initPcb_stale m.kernel m.kernel.currentRunning value task hfull
            obtain ⟨-, -, herror⟩ | ⟨htail, -⟩ := initPcb_free task hfull
            · rw [herror] at hstale ⊢
              exact hstale
            · exact absurd ⟨hfull, htail⟩ hspawn
      exact congrArg m.inKernel hinit
  | kill pid => exact congrArg m.inKernel (Kernel.kill_stale_self value rfl hother)
  | wait pid => exact congrArg m.inKernel (Kernel.wait_stale_self value rfl pid)
  | getpid =>
      have hpid := m.kernel.stale_pcb m.kernel.currentRunning value (g := Pcb.pid) (fun _ => rfl)
        m.kernel.currentRunning
      refine congrArg Except.ok ((stale_setReg2 m value _).trans ?_)
      exact congrArg (fun pid => m.setReg2 (BitVec.ofNat 32 pid)) hpid
  | read =>
      refine congrArg Except.ok ?_
      have hfifo : (m.stale value).fifo = m.fifo := rfl
      unfold Machine.readUartCh
      rw [hfifo]
      cases m.fifo with
      | nil => exact stale_setReg2 m value 0
      | cons ch fifo => exact stale_setReg2 { m with fifo } value _
  | getDirName => exact congrArg Except.ok (stale_setReg2 m value _)
  | fopen s access => exact congrArg Except.ok (hset _ _)
  | fclose fd => exact congrArg Except.ok (hset _ _)
  | fread fd size =>
      have hfs : (m.stale value).fs = m.fs := rfl
      simp only [Machine.systemCallHelper, hfs, hset]
  | fwrite fd buf size =>
      have hfs : (m.stale value).fs = m.fs := rfl
      simp only [Machine.systemCallHelper, hfs, hset]

theorem yields_of_spawns {task : TaskInfo} (h : (Syscall.spawn task).Spawns m.kernel)
    (value result : BitVec 32) : (m.stale value).Yields (.spawn task) result ↔ result = value := by
  obtain ⟨hfree, htail⟩ := h
  obtain ⟨hhead, hnone, -⟩ | ⟨-, k', hinit, hcur⟩ := initPcb_free task hfree
  · exact absurd hnone (htail hhead)
  have hstale := Kernel.initPcb_stale m.kernel m.kernel.currentRunning value task hfree
  rw [hinit] at hstale
  have hcall : (m.stale value).systemCallHelper (.spawn task) =
      .ok { m with kernel := k'.stale m.kernel.currentRunning value } :=
    congrArg m.inKernel hstale
  constructor
  · intro hyields
    rw [hyields.eq hcall]
    exact Kernel.stale_reg2 _ _ _
  · rintro rfl
    exact ⟨_, [], _, hcall, .nil _, hcur, Kernel.stale_reg2 _ _ _⟩

theorem fresh_of_not_spawns {call : Syscall} (hother : call.SparesCaller m.kernel)
    (hspawn : ¬ call.Spawns m.kernel) : m.Fresh call := by
  have hyields : ∀ value result, (m.stale value).Yields call result ↔ m.Yields call result := by
    intro value result
    unfold Machine.Yields
    rw [systemCallHelper_stale hother hspawn value]
    rfl
  intro value value' result result' hresult
  rw [hyields] at hresult ⊢
  obtain ⟨m₁, actions, m₂, hm₁, run, hback, hreg⟩ := hresult
  have heq := Machine.Yields.eq ⟨m₁, actions, m₂, hm₁, run, hback, hreg⟩ hm₁
  constructor
  · intro hresult'
    exact (hresult'.eq hm₁).trans heq.symm
  · rintro rfl
    exact ⟨m₁, actions, m₂, hm₁, run, hback, hreg⟩

theorem not_fresh_of_spawns {call : Syscall} (hspawn : call.Spawns m.kernel) :
    ¬ m.Fresh call := by
  cases call with
  | spawn task =>
      intro hfresh
      have h0 := (yields_of_spawns hspawn 0 0).mpr rfl
      have h1 := (yields_of_spawns hspawn 1 1).mpr rfl
      have heq : (1 : BitVec 32) = 0 := (hfresh 0 1 0 1 h0).mp h1
      exact absurd heq (by decide)
  | _ => exact hspawn.elim

theorem spawn_zero {task : TaskInfo} {value result : BitVec 32}
    (hspawn : ¬ (Syscall.spawn task).Spawns m.kernel)
    (h : (m.stale value).Yields (.spawn task) result) :
    result = 0 ∧ slistIsInsufficient m.kernel.pidList = true := by
  have hother : (Syscall.spawn task).SparesCaller m.kernel := trivial
  unfold Machine.Yields at h
  rw [systemCallHelper_stale hother hspawn value] at h
  have hyields : m.Yields (.spawn task) result := h
  obtain ⟨m₁, -, -, hm₁, -⟩ := h
  have hinit := inKernel_ok hm₁
  cases hfull : slistIsInsufficient m.kernel.pidList with
  | true =>
      rw [Kernel.initPcb_full m.kernel task hfull] at hinit
      have hkernel := Except.ok.inj hinit
      rw [hyields.eq hm₁, ← hkernel, Kernel.setReg2_eq, Kernel.stale_reg2]
      exact ⟨rfl, rfl⟩
  | false =>
      obtain ⟨-, -, herror⟩ | ⟨htail, -⟩ := initPcb_free task hfull
      · rw [herror] at hinit
        cases hinit
      · exact absurd ⟨hfull, htail⟩ hspawn

/-- The result of a call shows what was in the register before exactly when it is a spawn that
gets a pid; and then 0, which is to say that there was no pid, if 0 was there. -/
theorem results_fresh_iff (m : Machine) (call : Syscall) (hother : call.SparesCaller m.kernel) :
    (m.Fresh call ↔ ¬ call.Spawns m.kernel) ∧
    ∀ task value,
      (∀ result, (m.stale value).Yields (.spawn task) result →
        (result = 0 ↔ slistIsInsufficient m.kernel.pidList = true)) ↔
      ((Syscall.spawn task).Spawns m.kernel → value ≠ 0) := by
  refine ⟨⟨fun hfresh hspawn => not_fresh_of_spawns hspawn hfresh,
    fresh_of_not_spawns hother⟩, fun task value => ?_⟩
  by_cases hspawn : (Syscall.spawn task).Spawns m.kernel
  · simp only [yields_of_spawns hspawn, forall_eq, hspawn, hspawn.1, true_imp_iff,
      Bool.false_eq_true, iff_false, ne_eq]
  · refine ⟨fun _ h => absurd h hspawn, fun _ result hresult => ?_⟩
    obtain ⟨hzero, hfull⟩ := spawn_zero hspawn hresult
    exact iff_of_true hzero hfull

/-- The shell runs for the first time. -/
def shellMachine : Machine := ⟨ticked.after .timer, blankFs, [], 0⟩

theorem shellMachine_spawns : (Syscall.spawn ⟨1⟩).Spawns shellMachine.kernel := by
  refine ⟨?_, fun _ => ?_⟩
  · decide +kernel
  · decide +kernel

/-- The shell kills the second task of the kernel. -/
theorem results_fresh_kill :
    (Syscall.kill 2).SparesCaller shellMachine.kernel ∧
      (shellMachine.Fresh (.kill 2) ↔ ¬ (Syscall.kill 2).Spawns shellMachine.kernel) := by
  have hother : (Syscall.kill 2).SparesCaller shellMachine.kernel := by
    change (2 : Int) ≠ (shellMachine.kernel.pcb shellMachine.kernel.currentRunning).pid
    decide +kernel
  exact ⟨hother, (results_fresh_iff shellMachine (.kill 2) hother).1⟩

/-- The shell spawns a task, and is told whatever was in its register. -/
theorem spawn_result_stale :
    ¬ ∀ (m : Machine) (call : Syscall), call.SparesCaller m.kernel → m.Fresh call := by
  intro h
  exact not_fresh_of_spawns shellMachine_spawns (h shellMachine (.spawn ⟨1⟩) trivial)

end UcasOs.Exception
