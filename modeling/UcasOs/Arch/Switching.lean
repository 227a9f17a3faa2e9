import UcasOs.Arch.Context
import UcasOs.Foundation.Run
import UcasOs.Foundation.Word

/-!
# Switching between tasks

`do_scheduler` and the way into and out of an exception.  Between them runs any
code at all that keeps off the register contexts; the kernel itself raises no
exception.
-/

namespace UcasOs.Arch

open UcasOs.Foundation UcasOs.Foundation.Mips

def sp : Reg := 29

def ra : Reg := 31

def kernelOffset : UInt32 := 0

def userOffset : UInt32 := 152

def kernelStackTopAddress : UInt32 := 0xa1000000

def kernelStackSize : UInt32 := 0x2000

def userStackTopAddress : UInt32 := 0x80000000

/-- Where the variable `current_running` and the array `pcb` are. -/
structure PcbTable where
  currentRunning : UInt32
  pcb : UInt32
  /-- `sizeof(pcb_t)` -/
  size : Nat
  /-- the address of `exception_handler_exit` -/
  exceptionHandlerExit : UInt32
  large : 304 ≤ size
  fits : pcb.toNat + 16 * size ≤ 2 ^ 32
  apart : currentRunning.toNat < pcb.toNat ∨ pcb.toNat + 16 * size ≤ currentRunning.toNat

/-- The PCB begins with the two contexts. -/
def PcbTable.context (T : PcbTable) (t : Nat) (offset : UInt32) : UInt32 :=
  T.pcb + UInt32.ofNat (t * T.size) + offset

def PcbTable.Context (T : PcbTable) (t : Nat) (a : UInt32) : Prop :=
  InContext (T.context t kernelOffset) a ∨ InContext (T.context t userOffset) a

/-- What only the code modelled here may write. -/
def PcbTable.Kept (T : PcbTable) (a : UInt32) : Prop :=
  a = T.currentRunning ∨ ∃ t < 16, T.Context t a

def stackTop (t : Nat) : UInt32 := kernelStackTopAddress - UInt32.ofNat t * kernelStackSize

structure Machine where
  cpu : State
  /-- the pid of `current_running` -/
  running : Nat
  /-- between an exception and `eret` -/
  handling : Bool
  /-- for the statements: the stack pointer with which each task entered the kernel -/
  entered : Nat → UInt32

/-! ## The code -/

variable (T : PcbTable)

/-- The begin of `exception_handler`. -/
def exceptionHandler : List Instr :=
  saveRegsContext T.currentRunning userOffset ++
  [.lwSymbol sp T.currentRunning, .addiu sp sp kernelOffset, .addiu sp sp (offsetReg sp),
    .lw sp 0 sp]

def exceptionHandlerExit : List Instr :=
  [.lwSymbol k0 T.currentRunning, .sw sp (offsetReg sp) k0] ++
  restoreRegsContext T.currentRunning userOffset

/-- What `init_pcb` writes into the contexts. -/
def initContext (pid : Nat) (entryPoint : UInt32) (mem : UInt32 → UInt32) : UInt32 → UInt32 :=
  storeAll (T.context pid kernelOffset)
    [(offsetReg ra, T.exceptionHandlerExit), (userOffset + offsetEpc, entryPoint),
      (userOffset + offsetReg sp, userStackTopAddress), (offsetReg sp, stackTop pid)] mem

inductive Happening where
  /-- the task runs, until it is in the state `after` -/
  | user (after : State)
  | exception (cp0 : Cp0 → UInt32)
  /-- a part of the kernel runs, which may answer a system call -/
  | kernel (after : State) (answers : Bool)
  | spawn (pid : Nat) (entryPoint : UInt32)
  /-- `do_scheduler`, where `scheduler` chooses `next` and returns in the state `after` -/
  | schedule (next : Nat) (after : State)
  | leave

def Machine.entering (m : Machine) (cp0 : Cp0 → UInt32) : Machine :=
  let cpu := State.run (exceptionHandler T) (m.cpu.setCp0 cp0)
  { m with cpu, handling := true, entered := Function.update m.entered m.running (cpu.reg sp) }

/-- The kernel answers a call in `v0` and makes the task go on behind it. -/
def Machine.Answer (m : Machine) (a : UInt32) : Prop :=
  a = T.context m.running userOffset + offsetReg v0 ∨
    a = T.context m.running userOffset + offsetEpc

def Machine.Step (m m' : Machine) : Happening → Prop
  | .user after =>
      m.handling = false ∧ (∀ a, T.Kept a → after.mem a = m.cpu.mem a) ∧
        m' = { m with cpu := after }
  | .exception cp0 => m.handling = false ∧ m' = m.entering T cp0
  | .kernel after answers =>
      m.handling = true ∧
        (∀ a, T.Kept a → ¬ (answers = true ∧ m.Answer T a) → after.mem a = m.cpu.mem a) ∧
        m' = { m with cpu := after }
  | .spawn pid entryPoint =>
      m.handling = true ∧ pid < 16 ∧ pid ≠ m.running ∧
        m' = { m with
          cpu := { m.cpu with mem := initContext T pid entryPoint m.cpu.mem }
          entered := Function.update m.entered pid (stackTop pid) }
  | .schedule next after =>
      m.handling = true ∧ next < 16 ∧
        (∀ a, T.Kept a → after.mem a =
          Function.update (State.run (saveRegsContext T.currentRunning kernelOffset) m.cpu).mem
            T.currentRunning (T.context next kernelOffset) a) ∧
        m' = { m with
          cpu := State.run (restoreRegsContext T.currentRunning kernelOffset) after
          running := next }
  | .leave =>
      -- what was pushed on the stack of the task has been popped
      m.handling = true ∧ m.cpu.reg sp = m.entered m.running ∧
        m' = { m with
          cpu := State.run (exceptionHandlerExit T) m.cpu
          handling := false }

def switching : Lts Machine Happening where
  step m happening m' := m.Step T m' happening

/-! ## Addresses -/

variable {T} {t t' : Nat} {a : UInt32}

theorem toNat_context (ht : t < 16) {offset i : Nat} (h : offset + i < 304) :
    (T.context t (UInt32.ofNat offset) + UInt32.ofNat i).toNat =
      T.pcb.toNat + t * T.size + offset + i := by
  have hlarge := T.large
  have hfits := T.fits
  have hrow : t * T.size + T.size ≤ 16 * T.size := by
    rw [← Nat.succ_mul]
    exact Nat.mul_le_mul_right _ ht
  have h1 : (T.pcb + UInt32.ofNat (t * T.size)).toNat = T.pcb.toNat + t * T.size :=
    Word.toNat_add_ofNat (by omega)
  have h2 : (T.context t (UInt32.ofNat offset)).toNat = T.pcb.toNat + t * T.size + offset := by
    rw [PcbTable.context, Word.toNat_add_ofNat (by omega), h1]
  rw [Word.toNat_add_ofNat (by omega), h2]

theorem InContext.place (ht : t < 16) (offset : Nat) (hoffset : offset ≤ 152)
    (h : InContext (T.context t (UInt32.ofNat offset)) a) :
    ∃ i < 152, a.toNat = T.pcb.toNat + t * T.size + offset + i := by
  obtain ⟨i, hi, rfl⟩ := h
  exact ⟨i, hi, toNat_context ht (by omega)⟩

theorem PcbTable.Context.place (ht : t < 16) (h : T.Context t a) :
    ∃ i < 304, a.toNat = T.pcb.toNat + t * T.size + i := by
  obtain h | h := h
  · obtain ⟨i, hi, heq⟩ := InContext.place ht 0 (by decide) h
    exact ⟨i, by omega, by omega⟩
  · obtain ⟨i, hi, heq⟩ := InContext.place ht 152 (by decide) h
    exact ⟨152 + i, by omega, by omega⟩

/-- The contexts of different tasks are apart. -/
theorem PcbTable.Context.inj (ht : t < 16) (ht' : t' < 16) (h : T.Context t a)
    (h' : T.Context t' a) : t = t' := by
  obtain ⟨i, hi, heq⟩ := h.place ht
  obtain ⟨j, hj, heq'⟩ := h'.place ht'
  have hlarge := T.large
  rcases Nat.lt_trichotomy t t' with hlt | rfl | hlt
  · have hle := Nat.mul_le_mul_right T.size hlt
    rw [Nat.succ_mul] at hle
    omega
  · rfl
  · have hle := Nat.mul_le_mul_right T.size hlt
    rw [Nat.succ_mul] at hle
    omega

theorem PcbTable.Context.ne_currentRunning (ht : t < 16) (h : T.Context t a) :
    a ≠ T.currentRunning := by
  rintro rfl
  obtain ⟨i, hi, heq⟩ := h.place ht
  have hlarge := T.large
  have happart := T.apart
  have hrow : t * T.size + T.size ≤ 16 * T.size := by
    rw [← Nat.succ_mul]
    exact Nat.mul_le_mul_right _ ht
  omega

/-- The two contexts of a task are apart. -/
theorem not_inContext_both (ht : t < 16) (h : InContext (T.context t kernelOffset) a) :
    ¬ InContext (T.context t userOffset) a := by
  intro h'
  obtain ⟨i, hi, heq⟩ := InContext.place ht 0 (by decide) h
  obtain ⟨j, hj, heq'⟩ := InContext.place ht 152 (by decide) h'
  omega

theorem context_add (t : Nat) (offset : UInt32) :
    T.context t kernelOffset + offset = T.context t offset := by
  simp [PcbTable.context, kernelOffset]

theorem kernel_word (t : Nat) (r : Reg) :
    InContext (T.context t kernelOffset) (T.context t kernelOffset + offsetReg r) :=
  inContext_offsetReg _ r

/-! ## What the code does to the contexts -/

/-- `current_running` points to the PCB of the running task, and every task enters the kernel with
an empty stack. -/
structure Machine.Orderly (T : PcbTable) (m : Machine) : Prop where
  running : m.running < 16
  pointer : m.cpu.mem T.currentRunning = T.context m.running kernelOffset
  entered : ∀ t < 16, m.entered t = stackTop t
  stack : m.handling = false →
    m.cpu.mem (T.context m.running kernelOffset + offsetReg sp) = stackTop m.running

variable {m m' : Machine} {happening : Happening}

theorem run_save (h : m.Orderly T) (cp0 : Cp0 → UInt32) (offset : UInt32) :
    SavedAt false (m.cpu.setCp0 cp0)
        (State.run (saveRegsContext T.currentRunning offset) (m.cpu.setCp0 cp0)).mem
        (T.context m.running offset) ∧
      ∀ a, ¬ InContext (T.context m.running offset) a →
        (State.run (saveRegsContext T.currentRunning offset) (m.cpu.setCp0 cp0)).mem a =
          m.cpu.mem a := by
  have hrun := run_saveRegsContext (m.cpu.setCp0 cp0) T.currentRunning offset
  have hpointer : (m.cpu.setCp0 cp0).mem T.currentRunning = T.context m.running kernelOffset :=
    h.pointer
  rwa [hpointer, context_add] at hrun

theorem entering_entered (T : PcbTable) (m : Machine) (cp0 : Cp0 → UInt32) :
    (m.entering T cp0).entered m.running = (m.entering T cp0).cpu.reg sp :=
  Function.update_self _ _ _

theorem entering_spec (h : m.Orderly T) (cp0 : Cp0 → UInt32) :
    SavedAt false (m.cpu.setCp0 cp0) (m.entering T cp0).cpu.mem (T.context m.running userOffset) ∧
      (∀ a, ¬ InContext (T.context m.running userOffset) a →
        (m.entering T cp0).cpu.mem a = m.cpu.mem a) ∧
      (m.entering T cp0).cpu.reg sp =
        m.cpu.mem (T.context m.running kernelOffset + offsetReg sp) := by
  obtain ⟨hsaved, hframe⟩ := run_save h cp0 userOffset
  generalize hs :
    State.run (saveRegsContext T.currentRunning userOffset) (m.cpu.setCp0 cp0) = s at *
  have hcpu : (m.entering T cp0).cpu =
      State.run [.lwSymbol sp T.currentRunning, .addiu sp sp kernelOffset,
        .addiu sp sp (offsetReg sp), .lw sp 0 sp] s := by
    simp only [Machine.entering, exceptionHandler, State.run_append, hs]
  have hpointer : s.mem T.currentRunning = T.context m.running kernelOffset := by
    rw [hframe _ fun hin => PcbTable.Context.ne_currentRunning h.running (.inr hin) rfl, h.pointer]
  have hsp : sp ≠ 0 := by decide
  have hsame := hframe _ (not_inContext_both h.running (kernel_word _ sp))
  have hoffset : T.context m.running kernelOffset + kernelOffset =
      T.context m.running kernelOffset := add_zero _
  rw [hcpu]
  refine ⟨hsaved, hframe, ?_⟩
  simp only [State.run_cons, State.run_nil, State.exec, State.setReg, hsp, if_false, hpointer,
    Function.update_self, hoffset, add_zero, hsame]

theorem exit_spec (h : m.Orderly T) :
    LoadedFrom (State.run (exceptionHandlerExit T) m.cpu) m.cpu.mem
        (T.context m.running userOffset) ∧
      (State.run (exceptionHandlerExit T) m.cpu).mem =
        Function.update m.cpu.mem (T.context m.running kernelOffset + offsetReg sp)
          (m.cpu.reg sp) := by
  have hword : T.Context m.running (T.context m.running kernelOffset + offsetReg sp) :=
    .inl (kernel_word _ sp)
  have hne := hword.ne_currentRunning h.running
  have hsp : sp ≠ k0 := by decide
  have hbegin : State.run [.lwSymbol k0 T.currentRunning, .sw sp (offsetReg sp) k0] m.cpu =
      { m.cpu with
        reg := Function.update m.cpu.reg k0 (T.context m.running kernelOffset)
        mem := Function.update m.cpu.mem (T.context m.running kernelOffset + offsetReg sp)
          (m.cpu.reg sp) } := by
    simp [State.exec, State.setReg, State.store, k0_ne_zero, hsp, h.pointer]
  rw [exceptionHandlerExit, State.run_append, hbegin]
  obtain ⟨hloaded, hmem⟩ := run_restoreRegsContext
    { m.cpu with
      reg := Function.update m.cpu.reg k0 (T.context m.running kernelOffset)
      mem := Function.update m.cpu.mem (T.context m.running kernelOffset + offsetReg sp)
        (m.cpu.reg sp) } T.currentRunning userOffset
  refine ⟨?_, hmem⟩
  dsimp only at hloaded
  rw [Function.update_of_ne hne.symm, h.pointer, context_add _ userOffset] at hloaded
  refine hloaded.congr fun a ha => Function.update_of_ne ?_ _ _
  rintro rfl
  exact not_inContext_both h.running (kernel_word _ sp) ha

/-- What is restored when `next` has been chosen, and what was saved before. -/
theorem schedule_spec (h : m.Orderly T) {next : Nat} {after : State}
    (hstep : m.Step T m' (.schedule next after)) :
    SavedAt false m.cpu
        (State.run (saveRegsContext T.currentRunning kernelOffset) m.cpu).mem
        (T.context m.running kernelOffset) ∧
      LoadedFrom m'.cpu m'.cpu.mem (T.context next kernelOffset) ∧
      m'.cpu.mem T.currentRunning = T.context next kernelOffset ∧
      ∀ t < 16, ∀ a, T.Context t a → m'.cpu.mem a =
        (State.run (saveRegsContext T.currentRunning kernelOffset) m.cpu).mem a := by
  obtain ⟨-, hnext, hafter, rfl⟩ := hstep
  obtain ⟨hsaved, hframe⟩ := run_save h m.cpu.cp0 kernelOffset
  obtain ⟨hloaded, hmem⟩ := run_restoreRegsContext after T.currentRunning kernelOffset
  have hpointer : after.mem T.currentRunning = T.context next kernelOffset := by
    rw [hafter _ (.inl rfl), Function.update_self]
  rw [hpointer, context_add] at hloaded
  rw [← hmem] at hloaded
  refine ⟨hsaved, hloaded, by rw [hmem, hpointer], fun t ht a ha => ?_⟩
  rw [hmem, hafter a (.inr ⟨t, ht, ha⟩), Function.update_of_ne (ha.ne_currentRunning ht)]

/-! ## Steps -/

/-- A task whose context another one cannot have written. -/
def Happening.Spawns (t : Nat) : Happening → Prop
  | .spawn pid _ => pid = t
  | _ => False

theorem Machine.Answer.context {a : UInt32} (h : m.Answer T a) : T.Context m.running a := by
  obtain rfl | rfl := h
  · exact .inr (inContext_offsetReg _ v0)
  · exact .inr (inContext_offsetEpc _)

theorem initContext_frame {pid : Nat} {entryPoint : UInt32} (mem : UInt32 → UInt32)
    (h : ¬ T.Context pid a) : initContext T pid entryPoint mem a = mem a := by
  refine storeAll_frame mem ?_
  have hkernel : ∀ r, a ≠ T.context pid kernelOffset + offsetReg r := by
    rintro r rfl
    exact h (.inl (inContext_offsetReg _ r))
  have huser : ∀ i < 152, a ≠ T.context pid kernelOffset + (userOffset + UInt32.ofNat i) := by
    rintro i hi rfl
    rw [← add_assoc, context_add] at h
    exact h (.inr ⟨i, hi, rfl⟩)
  simp only [List.forall_mem_cons]
  exact ⟨hkernel ra, huser 136 (by decide), huser 116 (by decide), hkernel sp,
    fun _ h => absurd h List.not_mem_nil⟩

/-- The contexts of the tasks that do not run stay as they are. -/
theorem Machine.Orderly.frame (h : m.Orderly T) (hstep : m.Step T m' happening) (ht : t < 16)
    (hother : t ≠ m.running) (hspawn : ¬ happening.Spawns t) (ha : T.Context t a) :
    m'.cpu.mem a = m.cpu.mem a := by
  have happart : ¬ T.Context m.running a := fun hrunning => hother (ha.inj ht h.running hrunning)
  have hkept : T.Kept a := .inr ⟨t, ht, ha⟩
  cases happening with
  | user after =>
      obtain ⟨-, hsame, rfl⟩ := hstep
      exact hsame a hkept
  | exception cp0 =>
      obtain ⟨-, rfl⟩ := hstep
      exact (entering_spec h cp0).2.1 a fun hin => happart (.inr hin)
  | kernel after answers =>
      obtain ⟨-, hsame, rfl⟩ := hstep
      exact hsame a hkept fun hanswer => happart hanswer.2.context
  | spawn pid entryPoint =>
      obtain ⟨-, hpid, -, rfl⟩ := hstep
      exact initContext_frame _ fun hin => hspawn (ha.inj ht hpid hin).symm
  | schedule next after =>
      rw [(schedule_spec h hstep).2.2.2 t ht a ha]
      exact (run_save h m.cpu.cp0 kernelOffset).2 a fun hin => happart (.inl hin)
  | leave =>
      obtain ⟨-, -, rfl⟩ := hstep
      rw [(exit_spec h).2]
      refine Function.update_of_ne ?_ _ _
      rintro rfl
      exact happart (.inl (kernel_word _ sp))

/-- What a step does to the variable `current_running`. -/
theorem Machine.Orderly.pointer_step (h : m.Orderly T) (hstep : m.Step T m' happening) :
    m'.cpu.mem T.currentRunning = T.context m'.running kernelOffset := by
  have happart : ∀ t < 16, ¬ T.Context t T.currentRunning := fun t ht hin =>
    hin.ne_currentRunning ht rfl
  cases happening with
  | user after =>
      obtain ⟨-, hsame, rfl⟩ := hstep
      rw [← h.pointer]
      exact hsame _ (.inl rfl)
  | exception cp0 =>
      obtain ⟨-, rfl⟩ := hstep
      refine ((entering_spec h cp0).2.1 _ fun hin => ?_).trans h.pointer
      exact happart _ h.running (.inr hin)
  | kernel after answers =>
      obtain ⟨-, hsame, rfl⟩ := hstep
      rw [← h.pointer]
      exact hsame _ (.inl rfl) fun hanswer => happart _ h.running hanswer.2.context
  | spawn pid entryPoint =>
      obtain ⟨-, hpid, -, rfl⟩ := hstep
      rw [← h.pointer]
      exact initContext_frame _ (happart pid hpid)
  | schedule next after =>
      have hpointer := (schedule_spec h hstep).2.2.1
      obtain ⟨-, -, -, rfl⟩ := hstep
      exact hpointer
  | leave =>
      obtain ⟨-, -, rfl⟩ := hstep
      have hword : T.Context m.running (T.context m.running kernelOffset + offsetReg sp) :=
        .inl (kernel_word _ sp)
      refine Eq.trans ?_ h.pointer
      rw [(exit_spec h).2, Function.update_of_ne (hword.ne_currentRunning h.running).symm]

theorem Machine.Orderly.step (h : m.Orderly T) (hstep : m.Step T m' happening) : m'.Orderly T := by
  have hpointer := h.pointer_step hstep
  cases happening with
  | user after =>
      obtain ⟨-, hsame, rfl⟩ := hstep
      refine ⟨h.running, hpointer, h.entered, fun hout => ?_⟩
      exact (hsame _ (.inr ⟨_, h.running, .inl (kernel_word _ sp)⟩)).trans (h.stack hout)
  | exception cp0 =>
      obtain ⟨hout, rfl⟩ := hstep
      refine ⟨h.running, hpointer, fun t ht => ?_, fun hin => Bool.noConfusion hin⟩
      rcases eq_or_ne t m.running with rfl | hne
      · refine (Function.update_self m.running _ _).trans ?_
        exact (entering_spec h cp0).2.2.trans (h.stack hout)
      · exact (Function.update_of_ne hne _ _).trans (h.entered t ht)
  | kernel after answers =>
      obtain ⟨hin, -, rfl⟩ := hstep
      exact ⟨h.running, hpointer, h.entered, fun hout => absurd (hin.symm.trans hout) (by decide)⟩
  | spawn pid entryPoint =>
      obtain ⟨hin, -, -, rfl⟩ := hstep
      refine ⟨h.running, hpointer, fun t ht => ?_,
        fun hout => absurd (hin.symm.trans hout) (by decide)⟩
      rcases eq_or_ne t pid with rfl | hne
      · exact Function.update_self _ _ _
      · exact (Function.update_of_ne hne _ _).trans (h.entered t ht)
  | schedule next after =>
      obtain ⟨hin, hnext, -, rfl⟩ := hstep
      exact ⟨hnext, hpointer, h.entered, fun hout => absurd (hin.symm.trans hout) (by decide)⟩
  | leave =>
      obtain ⟨-, hsp, rfl⟩ := hstep
      refine ⟨h.running, hpointer, h.entered, fun _ => ?_⟩
      rw [(exit_spec h).2]
      refine (Function.update_self _ _ _).trans ?_
      rw [hsp, h.entered _ h.running]

/-! ## Runs -/

/-- `_start` waits for the first interrupt, `init_task` has been run. -/
structure Machine.Booted (T : PcbTable) (m : Machine) : Prop where
  running : m.running = 0
  handling : m.handling = false
  pointer : m.cpu.mem T.currentRunning = T.context 0 kernelOffset
  stack : m.cpu.mem (T.context 0 kernelOffset + offsetReg sp) = stackTop 0
  entered : ∀ t, m.entered t = stackTop t

variable {m₀ m₁ m₂ : Machine} {path path' : List Happening}

theorem Machine.Booted.orderly (hboot : m₀.Booted T) (hrun : (switching T).Run m₀ path m) :
    m.Orderly T := by
  refine hrun.invariant (fun s label s' h hstep => h.step hstep) ⟨?_, ?_, ?_, fun _ => ?_⟩
  · rw [hboot.running]
    decide
  · rw [hboot.running, hboot.pointer]
  · exact fun t _ => hboot.entered t
  · rw [hboot.running, hboot.stack]

/-- An example of the addresses. -/
def somewhere : PcbTable where
  currentRunning := 0xa0900000
  pcb := 0xa0910000
  size := 4472
  exceptionHandlerExit := 0xa0800400
  large := by decide
  fits := by decide
  apart := by decide

def bootMachine : Machine where
  cpu :=
    { reg := fun r => UInt32.ofNat r
      cp0 := fun _ => 0
      hi := 5
      lo := 7
      mem := fun a =>
        if a = somewhere.currentRunning then somewhere.pcb
        else if a = somewhere.pcb + offsetReg sp then stackTop 0
        else 0 }
  running := 0
  handling := false
  entered := stackTop

theorem bootMachine_booted : bootMachine.Booted somewhere :=
  ⟨rfl, rfl, by decide, by decide, fun _ => rfl⟩

/-- `main` is interrupted. -/
def interruptedMachine : Machine := bootMachine.entering somewhere fun _ => 0

theorem step_interruptedMachine :
    bootMachine.Step somewhere interruptedMachine (.exception fun _ => 0) :=
  ⟨rfl, rfl⟩

theorem run_interruptedMachine :
    (switching somewhere).Run bootMachine [.exception fun _ => 0] interruptedMachine :=
  .single step_interruptedMachine

/-- `scheduler` does nothing but to choose. -/
def Machine.chosen (T : PcbTable) (m : Machine) (next : Nat) : State :=
  (State.run (saveRegsContext T.currentRunning kernelOffset) m.cpu).store T.currentRunning
    (T.context next kernelOffset)

def Machine.choose (T : PcbTable) (m : Machine) (next : Nat) : Machine :=
  { m with
    cpu := State.run (restoreRegsContext T.currentRunning kernelOffset) (m.chosen T next)
    running := next }

theorem Machine.step_choose (m : Machine) {next : Nat} (hin : m.handling = true)
    (hnext : next < 16) : m.Step T (m.choose T next) (.schedule next (m.chosen T next)) :=
  ⟨hin, hnext, fun _ _ => rfl, rfl⟩

/-- Every exception is handled on an empty stack, the one of the task that it interrupts. -/
theorem exception_on_own_stack {cp0 : Cp0 → UInt32} (hboot : m₀.Booted T)
    (hrun : (switching T).Run m₀ path m) (hstep : m.Step T m' (.exception cp0)) :
    m'.cpu.reg sp = stackTop m.running := by
  have h := hboot.orderly hrun
  obtain ⟨hout, rfl⟩ := hstep
  exact (entering_spec h cp0).2.2.trans (h.stack hout)

theorem exception_on_own_stack_boot :
    interruptedMachine.cpu.reg sp = stackTop bootMachine.running :=
  exception_on_own_stack bootMachine_booted (.nil _) step_interruptedMachine

/-- Steps of other tasks, which do not take the PCB of `t`. -/
def Away (t : Nat) (m : Machine) (happening : Happening) : Prop :=
  m.running ≠ t ∧ ¬ happening.Spawns t

/-- Only `do_scheduler` changes the running task. -/
theorem Machine.Step.chooses (hstep : m.Step T m' happening) {t : Nat} (hother : m.running ≠ t)
    (hrunning : m'.running = t) :
    m.handling = true ∧ m'.handling = true ∧ ∃ after, happening = .schedule t after := by
  cases happening with
  | schedule next after =>
      obtain ⟨hin, -, -, rfl⟩ := hstep
      exact ⟨hin, hin, after, by rw [← hrunning]⟩
  | user after =>
      obtain ⟨-, -, rfl⟩ := hstep
      exact absurd hrunning hother
  | exception cp0 =>
      obtain ⟨-, rfl⟩ := hstep
      exact absurd hrunning hother
  | kernel after answers =>
      obtain ⟨-, -, rfl⟩ := hstep
      exact absurd hrunning hother
  | spawn pid entryPoint =>
      obtain ⟨-, -, -, rfl⟩ := hstep
      exact absurd hrunning hother
  | leave =>
      obtain ⟨-, -, rfl⟩ := hstep
      exact absurd hrunning hother

/-- While `t` is away its contexts stay, and it comes back with the registers of its kernel
context. -/
structure Returning (T : PcbTable) (t : Nat) (mem : UInt32 → UInt32) (m : Machine) : Prop where
  orderly : m.Orderly T
  context : ∀ a, T.Context t a → m.cpu.mem a = mem a
  back : m.running = t →
    m.handling = true ∧ LoadedFrom m.cpu m.cpu.mem (T.context t kernelOffset)

theorem Returning.step {t : Nat} {mem : UInt32 → UInt32} (h : Returning T t mem m) (ht : t < 16)
    (haway : Away t m happening) (hstep : m.Step T m' happening) : Returning T t mem m' := by
  obtain ⟨hother, hspawn⟩ := haway
  refine ⟨h.orderly.step hstep, fun a ha => ?_, fun hrunning => ?_⟩
  · exact (h.orderly.frame hstep ht (Ne.symm hother) hspawn ha).trans (h.context a ha)
  · obtain ⟨-, hin, after, rfl⟩ := Machine.Step.chooses hstep hother hrunning
    exact ⟨hin, (schedule_spec h.orderly hstep).2.1⟩

theorem Returning.run {t : Nat} {mem : UInt32 → UInt32} (h : Returning T t mem m) (ht : t < 16)
    (hrun : ((switching T).restrict (Away t)).Run m path m') : Returning T t mem m' := by
  refine hrun.invariant (fun s label s' hreturning hstep => ?_) h
  exact hreturning.step ht hstep.1 hstep.2

/-- A task that has called `do_scheduler` finds its registers as they were when it runs again. -/
theorem returns_from_scheduler {next : Nat} {after : State} (hboot : m₀.Booted T)
    (hrun : (switching T).Run m₀ path m) (hcall : m.Step T m₁ (.schedule next after))
    (haway : ((switching T).restrict (Away m.running)).Run m₁ path' m')
    (hback : m'.running = m.running) : SameRegs false m.cpu m'.cpu := by
  have h := hboot.orderly hrun
  obtain ⟨hsaved, hloaded, -, hkept⟩ := schedule_spec h hcall
  have hreturning : Returning T m.running m₁.cpu.mem m₁ := by
    refine ⟨h.step hcall, fun _ _ => rfl, fun hrunning => ?_⟩
    obtain ⟨hin, -, -, rfl⟩ := hcall
    obtain rfl := hrunning
    exact ⟨hin, hloaded⟩
  have hreturned := hreturning.run h.running haway
  refine SavedAt.loaded ?_ (hreturned.back hback).2
  exact hsaved.congr fun a ha _ =>
    (hreturned.context a (.inl ha)).trans (hkept _ h.running a (.inl ha))

theorem returns_from_scheduler_pair :
    SameRegs false interruptedMachine.cpu
      ((interruptedMachine.choose somewhere 1).choose somewhere 0).cpu := by
  have hcall := interruptedMachine.step_choose (T := somewhere) rfl (by decide : 1 < 16)
  have hback := (interruptedMachine.choose somewhere 1).step_choose (T := somewhere) rfl
    (by decide : 0 < 16)
  have haway : Away 0 (interruptedMachine.choose somewhere 1)
      (.schedule 0 ((interruptedMachine.choose somewhere 1).chosen somewhere 0)) :=
    ⟨by decide, fun h => h⟩
  exact returns_from_scheduler bootMachine_booted run_interruptedMachine hcall
    (.single ⟨haway, hback⟩) rfl

/-! ## From an exception back to the task -/

def Happening.Answers : Happening → Prop
  | .kernel _ answers => answers = true
  | _ => False

/-- Steps before `t` leaves the kernel, with an answer or without one. -/
def Handling (answered : Bool) (t : Nat) (m : Machine) (happening : Happening) : Prop :=
  ¬ happening.Spawns t ∧
    (m.running = t → happening ≠ .leave ∧ (answered = false → ¬ happening.Answers))

/-- What the user context of `t` holds, and that `t` is in the kernel. -/
structure Interrupted (T : PcbTable) (answered : Bool) (t : Nat) (s : State) (m : Machine) :
    Prop where
  orderly : m.Orderly T
  inKernel : m.running = t → m.handling = true
  saved : SavedAt answered s m.cpu.mem (T.context t userOffset)

theorem Interrupted.step {answered : Bool} {t : Nat} {s : State} (h : Interrupted T answered t s m)
    (ht : t < 16) (hhandling : Handling answered t m happening)
    (hstep : m.Step T m' happening) : Interrupted T answered t s m' := by
  obtain ⟨hspawn, hmine⟩ := hhandling
  refine ⟨h.orderly.step hstep, fun hrunning => ?_, ?_⟩
  · rcases eq_or_ne m.running t with hown | hother
    · have hin := h.inKernel hown
      cases happening with
      | user after => exact absurd (hin.symm.trans hstep.1) (by decide)
      | exception cp0 => exact absurd (hin.symm.trans hstep.1) (by decide)
      | kernel after answers =>
          obtain ⟨-, -, rfl⟩ := hstep
          exact hin
      | spawn pid entryPoint =>
          obtain ⟨-, -, -, rfl⟩ := hstep
          exact hin
      | schedule next after =>
          obtain ⟨-, -, -, rfl⟩ := hstep
          exact hin
      | leave => exact absurd rfl (hmine hown).1
    · exact (Machine.Step.chooses hstep hother hrunning).2.1
  · refine h.saved.congr fun a ha hanswer => ?_
    have hcontext : T.Context t a := .inr ha
    rcases eq_or_ne m.running t with hown | hother
    · have hin := h.inKernel hown
      cases happening with
      | user after => exact absurd (hin.symm.trans hstep.1) (by decide)
      | exception cp0 => exact absurd (hin.symm.trans hstep.1) (by decide)
      | kernel after answers =>
          obtain ⟨-, hsame, rfl⟩ := hstep
          refine hsame a (.inr ⟨t, ht, hcontext⟩) ?_
          rintro ⟨hanswers, hplace⟩
          rw [Machine.Answer, hown] at hplace
          refine hanswer ⟨?_, hplace⟩
          by_contra hnot
          exact (hmine hown).2 (Bool.not_eq_true _ ▸ hnot) hanswers
      | spawn pid entryPoint =>
          obtain ⟨-, hpid, hne, rfl⟩ := hstep
          refine initContext_frame _ fun hin => hne ?_
          rw [hown, hcontext.inj ht hpid hin]
      | schedule next after =>
          rw [(schedule_spec h.orderly hstep).2.2.2 t ht a hcontext]
          refine (run_save h.orderly m.cpu.cp0 kernelOffset).2 a ?_
          rw [hown]
          exact fun hkernel => not_inContext_both ht hkernel ha
      | leave => exact absurd rfl (hmine hown).1
    · exact h.orderly.frame hstep ht (Ne.symm hother) hspawn hcontext

/-- A task goes on after an exception with the registers that it had, up to what the kernel
answers. -/
theorem returns_from_exception {answered : Bool} {cp0 : Cp0 → UInt32} (hboot : m₀.Booted T)
    (hrun : (switching T).Run m₀ path m) (hstep : m.Step T m₁ (.exception cp0))
    (hhandled : ((switching T).restrict (Handling answered m.running)).Run m₁ path' m₂)
    (hback : m₂.running = m.running) (hleave : m₂.Step T m' .leave) :
    SameRegs answered (m.cpu.setCp0 cp0) m'.cpu := by
  have h := hboot.orderly hrun
  have h₁ : Interrupted T answered m.running (m.cpu.setCp0 cp0) m₁ := by
    refine ⟨h.step hstep, fun _ => ?_, ?_⟩
    · obtain ⟨-, rfl⟩ := hstep
      rfl
    · obtain ⟨-, rfl⟩ := hstep
      exact (entering_spec h cp0).1.weaken answered
  have h₂ : Interrupted T answered m.running (m.cpu.setCp0 cp0) m₂ := by
    refine hhandled.invariant (fun s label s' hinterrupted hstep => ?_) h₁
    exact hinterrupted.step h.running hstep.1 hstep.2
  obtain ⟨-, -, rfl⟩ := hleave
  have hloaded := (exit_spec h₂.orderly).1
  rw [hback] at hloaded
  exact h₂.saved.loaded hloaded

/-- A system call that returns `value`. -/
def Machine.answer (T : PcbTable) (m : Machine) (value : UInt32) : Machine :=
  { m with cpu := m.cpu.store (T.context m.running userOffset + offsetReg v0) value }

theorem Machine.step_answer (m : Machine) (value : UInt32) (hin : m.handling = true) :
    m.Step T (m.answer T value) (.kernel (m.answer T value).cpu true) :=
  ⟨hin, fun _ _ hnot => Function.update_of_ne (fun heq => hnot ⟨rfl, .inl heq⟩) _ _, rfl⟩

theorem Machine.step_leave_answer (m : Machine) (value : UInt32) (hin : m.handling = true)
    (hempty : m.cpu.reg sp = m.entered m.running) :
    (m.answer T value).Step T
      { m.answer T value with
        cpu := State.run (exceptionHandlerExit T) (m.answer T value).cpu
        handling := false } .leave :=
  ⟨hin, hempty, rfl⟩

theorem returns_from_exception_answered :
    SameRegs true (bootMachine.cpu.setCp0 fun _ => 0)
      (State.run (exceptionHandlerExit somewhere)
        (interruptedMachine.answer somewhere 42).cpu) := by
  have hanswer := interruptedMachine.step_answer (T := somewhere) 42 rfl
  have hhandling : Handling true 0 interruptedMachine
      (.kernel (interruptedMachine.answer somewhere 42).cpu true) :=
    ⟨fun h => h, fun _ => ⟨Happening.noConfusion, fun h => Bool.noConfusion h⟩⟩
  have hempty := (entering_entered somewhere bootMachine fun _ => 0).symm
  have hleave := interruptedMachine.step_leave_answer (T := somewhere) 42 rfl hempty
  exact returns_from_exception bootMachine_booted (.nil _) step_interruptedMachine
    (.single ⟨hhandling, hanswer⟩) rfl hleave

/-! ## A new task -/

theorem initContext_words (pid : Nat) (entryPoint : UInt32)
    (mem : UInt32 → UInt32) :
    initContext T pid entryPoint mem (T.context pid kernelOffset + offsetReg ra) =
        T.exceptionHandlerExit ∧
      initContext T pid entryPoint mem (T.context pid kernelOffset + offsetReg sp) =
        stackTop pid ∧
      initContext T pid entryPoint mem (T.context pid userOffset + offsetEpc) = entryPoint ∧
      initContext T pid entryPoint mem (T.context pid userOffset + offsetReg sp) =
        userStackTopAddress := by
  have hnodup : ([(offsetReg ra, T.exceptionHandlerExit), (userOffset + offsetEpc, entryPoint),
      (userOffset + offsetReg sp, userStackTopAddress),
      (offsetReg sp, stackTop pid)].map Prod.fst).Nodup :=
    (by decide : [offsetReg ra, userOffset + offsetEpc, userOffset + offsetReg sp,
      offsetReg sp].Nodup)
  rw [← context_add pid userOffset, add_assoc, add_assoc]
  exact ⟨storeAll_mem mem hnodup (by simp), storeAll_mem mem hnodup (by simp),
    storeAll_mem mem hnodup (by simp), storeAll_mem mem hnodup (by simp)⟩

/-- A new task is chosen with an empty stack and goes from `do_scheduler` to
`exception_handler_exit`, and from there to its entry point. -/
theorem spawned_starts {pid : Nat} {entryPoint : UInt32} (hboot : m₀.Booted T)
    (hrun : (switching T).Run m₀ path m) (hspawn : m.Step T m₁ (.spawn pid entryPoint))
    (haway : ((switching T).restrict (Away pid)).Run m₁ path' m₂) (hchosen : m₂.running = pid) :
    m₂.cpu.reg ra = T.exceptionHandlerExit ∧ m₂.cpu.reg sp = stackTop pid ∧
      ∃ m', m₂.Step T m' .leave ∧ m'.cpu.cp0 .epc = entryPoint ∧
        m'.cpu.reg sp = userStackTopAddress := by
  have h := hboot.orderly hrun
  have h₁ := h.step hspawn
  obtain ⟨hin, hpid, hne, rfl⟩ := hspawn
  obtain ⟨hra, hsp, hepc, husp⟩ := initContext_words (T := T) pid entryPoint m.cpu.mem
  have hstart : Returning T pid (initContext T pid entryPoint m.cpu.mem) _ :=
    ⟨h₁, fun _ _ => rfl, fun hrunning => absurd hrunning.symm hne⟩
  have h₂ := hstart.run hpid haway
  obtain ⟨hin₂, hloaded⟩ := h₂.back hchosen
  have hra₂ : m₂.cpu.reg ra = T.exceptionHandlerExit := by
    rw [hloaded.regs ra (by decide), h₂.context _ (.inl (kernel_word pid ra)), hra]
  have hsp₂ : m₂.cpu.reg sp = stackTop pid := by
    rw [hloaded.regs sp (by decide), h₂.context _ (.inl (kernel_word pid sp)), hsp]
  have hexit := (exit_spec h₂.orderly).1
  rw [hchosen] at hexit
  refine ⟨hra₂, hsp₂, _, ⟨hin₂, ?_, rfl⟩, ?_, ?_⟩
  · rw [hsp₂, hchosen, h₂.orderly.entered pid hpid]
  · exact hexit.epc.trans ((h₂.context _ (.inr (inContext_offsetEpc _))).trans hepc)
  · refine (hexit.regs sp (by decide)).trans ((h₂.context _ (.inr ?_)).trans husp)
    exact inContext_offsetReg _ sp

def spawnedMachine : Machine :=
  { interruptedMachine with
    cpu :=
      { interruptedMachine.cpu with
        mem := initContext somewhere 1 0x10000 interruptedMachine.cpu.mem }
    entered := Function.update interruptedMachine.entered 1 (stackTop 1) }

theorem spawned_starts_first :
    (spawnedMachine.choose somewhere 1).cpu.reg ra = somewhere.exceptionHandlerExit ∧
      (spawnedMachine.choose somewhere 1).cpu.reg sp = stackTop 1 ∧
      ∃ m', (spawnedMachine.choose somewhere 1).Step somewhere m' .leave ∧
        m'.cpu.cp0 .epc = 0x10000 ∧ m'.cpu.reg sp = userStackTopAddress := by
  have hspawn : interruptedMachine.Step somewhere spawnedMachine (.spawn 1 0x10000) :=
    ⟨rfl, by decide, by decide, rfl⟩
  have hchosen := spawnedMachine.step_choose (T := somewhere) rfl (by decide : 1 < 16)
  have haway : Away 1 spawnedMachine (.schedule 1 (spawnedMachine.chosen somewhere 1)) :=
    ⟨by decide, fun h => h⟩
  exact spawned_starts bootMachine_booted run_interruptedMachine hspawn
    (.single ⟨haway, hchosen⟩) rfl

end UcasOs.Arch
