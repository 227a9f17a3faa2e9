import UcasOs.Foundation.Ring
import UcasOs.Sched.Entries

/-!
# The mailbox library

`libs/mailbox.c` runs in the tasks, on top of the mutex and condition system
calls.  One mutex guards all mailboxes.  A task inside a library function goes
on with `advance`, one turn of the function's loop at a time; between turns it
loses the processor where a system call blocks or an interrupt comes.
-/

namespace UcasOs.Libs

open UcasOs.Foundation UcasOs.Sched

def maxBoxNum : Nat := 8

def maxBufferSize : Nat := 256

structure Mailbox where
  valid : Bool
  name : String
  userNum : Int
  dataBuffer : Nat → UInt8
  head : Nat
  tail : Nat

namespace Mailbox

/-- Static storage: all bytes zero. -/
def zero : Mailbox := ⟨false, "", 0, fun _ => 0, 0, 0⟩

/-- The test `head == tail + 1` of `mbox_send`. -/
def isFull (m : Mailbox) : Bool := m.head == m.tail + 1

def isEmpty (m : Mailbox) : Bool := m.head == m.tail

def put (m : Mailbox) (byte : UInt8) : Mailbox :=
  { m with
    dataBuffer := Function.update m.dataBuffer m.tail byte
    tail := (m.tail + 1) % maxBufferSize }

def take (m : Mailbox) : UInt8 × Mailbox :=
  (m.dataBuffer m.head, { m with head := (m.head + 1) % maxBufferSize })

/-- The occupied part of `data_buffer`, between `head` and `tail`. -/
def content (m : Mailbox) : List UInt8 :=
  Ring.occupied maxBufferSize m.dataBuffer m.head m.tail

end Mailbox

/-- The library's `lock`; it is not one of `locks[]`. -/
def mboxLock : Nat := maxLocksNum

def emptyCondition (box : Nat) : Nat := 2 * box

def fullCondition (box : Nat) : Nat := 2 * box + 1

/-! ## Tasks inside the library -/

inductive MboxCall where
  | mboxOpen (name : String)
  | mboxClose (box : Nat)
  | mboxSend (box : Nat) (msg : List UInt8)
  | mboxRecv (box : Nat) (msgLength : Nat)

/-- Where a task is in the library, with the part of its message still to go or received. -/
inductive MboxPc where
  | idle
  | opening (name : String)
  | closing (box : Nat)
  | sending (box : Nat) (msg : List UInt8)
  | receiving (box : Nat) (remaining : Nat) (msg : List UInt8)
  deriving DecidableEq

def MboxCall.start : MboxCall → MboxPc
  | .mboxOpen name => .opening name
  | .mboxClose box => .closing box
  | .mboxSend box msg => .sending box msg
  | .mboxRecv box msgLength => .receiving box msgLength []

/-- `put` and `taken` record, for each mailbox, the bytes since it was opened. -/
structure MboxState where
  kernel : Kernel
  mboxs : Nat → Mailbox
  pc : Pid → MboxPc
  put : Nat → List UInt8
  taken : Nat → List UInt8

namespace MboxState

def mboxInit (kernel : Kernel) (mboxs : Nat → Mailbox) : Kernel × (Nat → Mailbox) :=
  (kernel.doMutexLockInit mboxLock,
    fun i => if i < maxBoxNum then { mboxs i with valid := false } else mboxs i)

/-- A kernel whose tasks begin to use the library. -/
def boot (kernel : Kernel) : MboxState :=
  let (kernel, mboxs) := mboxInit kernel fun _ => Mailbox.zero
  ⟨kernel, mboxs, fun _ => .idle, fun _ => [], fun _ => []⟩

def setPc (s : MboxState) (kernel : Kernel) (pc : MboxPc) : MboxState :=
  { s with kernel, pc := Function.update s.pc s.kernel.currentRunning pc }

def modifyBox (s : MboxState) (box : Nat) (f : Mailbox → Mailbox) : MboxState :=
  { s with mboxs := Function.update s.mboxs box (f (s.mboxs box)) }

/-- `mutex_lock_release(&lock)` and the return from the library. -/
def leave (s : MboxState) : Except Fault MboxState := do
  let kernel ← s.kernel.enter (.mutexRelease mboxLock)
  return s.setPc kernel .idle

def findName (s : MboxState) (name : String) : Option Nat :=
  (List.range maxBoxNum).find? fun i => (s.mboxs i).valid && (s.mboxs i).name == name

def findInvalid (s : MboxState) : Option Nat :=
  (List.range maxBoxNum).find? fun i => !(s.mboxs i).valid

def mboxOpen (s : MboxState) (name : String) : Except Fault MboxState :=
  match s.findName name with
  | some i => (s.modifyBox i fun m => { m with userNum := m.userNum + 1 }).leave
  | none =>
      match s.findInvalid with
      | none => s.leave
      | some i => do
          let kernel ← s.kernel.enter (.conditionInit (emptyCondition i))
          let kernel ← kernel.enter (.conditionInit (fullCondition i))
          let s := s.modifyBox i fun m =>
            { m with valid := true, name, userNum := 1, head := 0, tail := 0 }
          { s with
            kernel
            put := Function.update s.put i []
            taken := Function.update s.taken i [] }.leave

def mboxClose (s : MboxState) (box : Nat) : Except Fault MboxState :=
  (s.modifyBox box fun m =>
    { m with userNum := m.userNum - 1, valid := m.valid && m.userNum - 1 != 0 }).leave

/-- One turn of the loop of `mbox_send`, or its end. -/
def mboxSend (s : MboxState) (box : Nat) : List UInt8 → Except Fault MboxState
  | [] => s.leave
  | byte :: msg =>
      if (s.mboxs box).isFull then do
        let kernel ← s.kernel.enter (.conditionWait (fullCondition box) mboxLock)
        return s.setPc kernel (.sending box (byte :: msg))
      else do
        let kernel ← s.kernel.enter (.conditionSignal (emptyCondition box))
        return { (s.modifyBox box fun m => m.put byte).setPc kernel (.sending box msg) with
          put := Function.update s.put box (s.put box ++ [byte]) }

/-- One turn of the loop of `mbox_recv`, or its end. -/
def mboxRecv (s : MboxState) (box : Nat) : Nat → List UInt8 → Except Fault MboxState
  | 0, _ => s.leave
  | remaining + 1, msg =>
      if (s.mboxs box).isEmpty then do
        let kernel ← s.kernel.enter (.conditionWait (emptyCondition box) mboxLock)
        return s.setPc kernel (.receiving box (remaining + 1) msg)
      else do
        let kernel ← s.kernel.enter (.conditionSignal (fullCondition box))
        let byte := (s.mboxs box).take.1
        return { (s.modifyBox box fun m => m.take.2).setPc kernel
            (.receiving box remaining (msg ++ [byte])) with
          taken := Function.update s.taken box (s.taken box ++ [byte]) }

def advance (s : MboxState) : Except Fault MboxState :=
  match s.pc s.kernel.currentRunning with
  | .idle => .ok s
  | .opening name => s.mboxOpen name
  | .closing box => s.mboxClose box
  | .sending box msg => s.mboxSend box msg
  | .receiving box remaining msg => s.mboxRecv box remaining msg

def call (s : MboxState) (c : MboxCall) : Except Fault MboxState := do
  let kernel ← s.kernel.enter (.mutexAcquire mboxLock)
  return s.setPc kernel c.start

end MboxState

inductive MboxEvent where
  | call (c : MboxCall)
  | advance
  | resume
  | entry (e : Entry)

def MboxEvent.Enabled (s : MboxState) : MboxEvent → Prop
  | .call _ =>
      s.kernel.currentRunning ≠ 0 ∧ s.kernel.kont s.kernel.currentRunning = .ret ∧
        s.pc s.kernel.currentRunning = .idle
  | .advance => s.kernel.kont s.kernel.currentRunning = .ret
  | .resume => Event.resume.Enabled s.kernel
  | .entry e =>
      (Event.entry e).Enabled s.kernel ∧ (s.pc s.kernel.currentRunning = .idle ∨ e.IsInterrupt)

/-- A task that is new or dead after an entry is not inside the library. -/
def mboxSystem : Lts MboxState MboxEvent where
  step s event s' :=
    event.Enabled s ∧
      match event with
      | .call c => s.call c = .ok s'
      | .advance => s.advance = .ok s'
      | .resume => ∃ kernel, s.kernel.resume = .ok kernel ∧ s' = { s with kernel }
      | .entry e =>
          ∃ kernel pc, s.kernel.enter e = .ok kernel ∧ s' = { s with kernel, pc } ∧
            ∀ p, (s.kernel.Live p ∧ kernel.Live p ∧ pc p = s.pc p) ∨
              (¬ (s.kernel.Live p ∧ kernel.Live p) ∧ pc p = .idle)

/-! ## First in, first out -/

/-- The bytes put in and not yet taken out are the occupied part of the buffer. -/
structure Fifo (s : MboxState) (box : Nat) : Prop where
  taken_prefix : s.taken box <+: s.put box
  put_eq : s.put box = s.taken box ++ (s.mboxs box).content

/-- A byte goes into a box that holds 255 bytes from slot 0 on, where `isFull` misses it. -/
def MboxEvent.Overruns (box : Nat) (s : MboxState) : MboxEvent → Prop
  | .advance =>
      (∃ byte msg, s.pc s.kernel.currentRunning = .sending box (byte :: msg)) ∧
        (s.mboxs box).head = 0 ∧ (s.mboxs box).tail = maxBufferSize - 1
  | _ => False

/-- The ring of a mailbox, with the record of its bytes. -/
structure Stream (m : Mailbox) (put taken : List UInt8) : Prop where
  head_lt : m.head < maxBufferSize
  tail_lt : m.tail < maxBufferSize
  put_eq : put = taken ++ m.content

section

variable {m : Mailbox} {sent got : List UInt8}

theorem Stream.put (h : Stream m sent got) (byte : UInt8) (hfull : m.isFull = false)
    (hroom : ¬ (m.head = 0 ∧ m.tail = maxBufferSize - 1)) :
    Stream (m.put byte) (sent ++ [byte]) got := by
  obtain ⟨hhead, htail, hput⟩ := h
  have hmod : (m.tail + 1) % maxBufferSize ≠ m.head := by
    unfold maxBufferSize at *
    simp only [Mailbox.isFull, beq_eq_false_iff_ne] at hfull
    omega
  refine ⟨hhead, Nat.mod_lt _ (by decide), ?_⟩
  calc sent ++ [byte] = got ++ (m.content ++ [byte]) := by rw [hput, List.append_assoc]
    _ = got ++ (m.put byte).content := by
        rw [Mailbox.content, ← Ring.occupied_push m.dataBuffer byte hhead htail hmod]
        rfl

theorem Stream.take (h : Stream m sent got) (hempty : m.isEmpty = false) :
    Stream m.take.2 sent (got ++ [m.take.1]) := by
  obtain ⟨hhead, htail, hput⟩ := h
  simp only [Mailbox.isEmpty, beq_eq_false_iff_ne] at hempty
  refine ⟨Nat.mod_lt _ (by decide), htail, ?_⟩
  calc sent = got ++ m.content := hput
    _ = got ++ (m.take.1 :: m.take.2.content) := by
        rw [Mailbox.content, Ring.occupied_pop m.dataBuffer hhead htail hempty]
        rfl
    _ = got ++ [m.take.1] ++ m.take.2.content := by simp

end

/-- The ring and the record of `box` in a state. -/
def MboxState.Streams (s : MboxState) (box : Nat) : Prop :=
  Stream (s.mboxs box) (s.put box) (s.taken box)

namespace MboxState

variable {s s' : MboxState} {box i : Nat}

theorem leave_streams (h : s.Streams box) (hleave : s.leave = .ok s') : s'.Streams box := by
  obtain ⟨kernel, -, hs'⟩ := bind_eq_ok.mp hleave
  cases hs'
  exact h

theorem modifyBox_streams (h : s.Streams box) {f : Mailbox → Mailbox}
    (hring : ∀ m, (f m).dataBuffer = m.dataBuffer ∧ (f m).head = m.head ∧
      (f m).tail = m.tail) : (s.modifyBox i f).Streams box := by
  by_cases hi : box = i
  · subst hi
    obtain ⟨hdata, hhead, htail⟩ := hring (s.mboxs box)
    unfold Streams modifyBox
    simp only [Function.update_self]
    obtain ⟨h₁, h₂, h₃⟩ := h
    refine ⟨by rwa [hhead], by rwa [htail], ?_⟩
    rw [h₃, Mailbox.content, Mailbox.content, hdata, hhead, htail]
  · simpa only [Streams, modifyBox, Function.update_of_ne hi] using h

theorem mboxOpen_streams (h : s.Streams box) {name : String}
    (hopen : s.mboxOpen name = .ok s') : s'.Streams box := by
  unfold mboxOpen at hopen
  split at hopen
  · refine leave_streams (modifyBox_streams h ?_) hopen
    exact fun m => ⟨rfl, rfl, rfl⟩
  · split at hopen
    · exact leave_streams h hopen
    · rename_i i _
      obtain ⟨k₁, -, hopen⟩ := bind_eq_ok.mp hopen
      obtain ⟨k₂, -, hopen⟩ := bind_eq_ok.mp hopen
      refine leave_streams ?_ hopen
      -- A new box is empty, and so is its record.
      by_cases hi : box = i
      · subst hi
        simp only [Streams, modifyBox, Function.update_self]
        exact ⟨Nat.zero_lt_succ _, Nat.zero_lt_succ _, by simp [Mailbox.content]⟩
      · simpa only [Streams, modifyBox, Function.update_of_ne hi] using h

theorem mboxClose_streams (h : s.Streams box) (hclose : s.mboxClose i = .ok s') :
    s'.Streams box := by
  refine leave_streams (modifyBox_streams h ?_) hclose
  exact fun m => ⟨rfl, rfl, rfl⟩

theorem mboxSend_streams (h : s.Streams box) {msg : List UInt8}
    (hroom : i = box → msg ≠ [] →
      ¬ ((s.mboxs box).head = 0 ∧ (s.mboxs box).tail = maxBufferSize - 1))
    (hsend : s.mboxSend i msg = .ok s') : s'.Streams box := by
  cases msg with
  | nil => exact leave_streams h hsend
  | cons byte msg =>
      rw [mboxSend] at hsend
      by_cases hfull : (s.mboxs i).isFull = true
      · rw [if_pos hfull] at hsend
        obtain ⟨kernel, -, hs'⟩ := bind_eq_ok.mp hsend
        cases hs'
        exact h
      · rw [if_neg hfull] at hsend
        obtain ⟨kernel, -, hs'⟩ := bind_eq_ok.mp hsend
        cases hs'
        by_cases hi : box = i
        · subst hi
          simp only [Streams, setPc, modifyBox, Function.update_self]
          exact Stream.put h byte (by simpa using hfull) (hroom rfl (by simp))
        · simpa only [Streams, setPc, modifyBox, Function.update_of_ne hi] using h

theorem mboxRecv_streams (h : s.Streams box) {remaining : Nat} {msg : List UInt8}
    (hrecv : s.mboxRecv i remaining msg = .ok s') : s'.Streams box := by
  cases remaining with
  | zero => exact leave_streams h hrecv
  | succ remaining =>
      rw [mboxRecv] at hrecv
      by_cases hempty : (s.mboxs i).isEmpty = true
      · rw [if_pos hempty] at hrecv
        obtain ⟨kernel, -, hs'⟩ := bind_eq_ok.mp hrecv
        cases hs'
        exact h
      · rw [if_neg hempty] at hrecv
        obtain ⟨kernel, -, hs'⟩ := bind_eq_ok.mp hrecv
        cases hs'
        by_cases hi : box = i
        · subst hi
          simp only [Streams, setPc, modifyBox, Function.update_self]
          exact Stream.take h (by simpa using hempty)
        · simpa only [Streams, setPc, modifyBox, Function.update_of_ne hi] using h

theorem advance_streams (h : s.Streams box) (hroom : ¬ MboxEvent.advance.Overruns box s)
    (hadvance : s.advance = .ok s') : s'.Streams box := by
  unfold advance at hadvance
  cases hpc : s.pc s.kernel.currentRunning with
  | idle =>
      simp only [hpc] at hadvance
      cases hadvance
      exact h
  | opening name =>
      simp only [hpc] at hadvance
      exact mboxOpen_streams h hadvance
  | closing i =>
      simp only [hpc] at hadvance
      exact mboxClose_streams h hadvance
  | sending i msg =>
      simp only [hpc] at hadvance
      refine mboxSend_streams h ?_ hadvance
      rintro rfl hmsg hfull
      obtain ⟨byte, rest, rfl⟩ := List.exists_cons_of_ne_nil hmsg
      exact hroom ⟨⟨byte, rest, hpc⟩, hfull⟩
  | receiving i remaining msg =>
      simp only [hpc] at hadvance
      exact mboxRecv_streams h hadvance

theorem step_streams {event : MboxEvent} (h : s.Streams box)
    (hroom : ¬ event.Overruns box s) (hstep : mboxSystem.step s event s') :
    s'.Streams box := by
  obtain ⟨-, hstep⟩ := hstep
  cases event with
  | call c =>
      obtain ⟨kernel, -, hs'⟩ := bind_eq_ok.mp hstep
      cases hs'
      exact h
  | advance => exact advance_streams h hroom hstep
  | resume =>
      obtain ⟨kernel, -, rfl⟩ := hstep
      exact h
  | entry e =>
      obtain ⟨kernel, pc, -, rfl, -⟩ := hstep
      exact h

theorem boot_streams (kernel : Kernel) : (boot kernel).Streams box := by
  unfold Streams boot mboxInit
  by_cases hbox : box < maxBoxNum
  · simp only [hbox, if_true]
    exact ⟨by decide, by decide, by simp [Mailbox.content, Mailbox.zero]⟩
  · simp only [hbox, if_false]
    exact ⟨by decide, by decide, by simp [Mailbox.content, Mailbox.zero]⟩

end MboxState

theorem fifo_of_run {kernel : Kernel} {s : MboxState} {events : List MboxEvent} {box : Nat}
    (run : (mboxSystem.restrict fun s event => ¬ event.Overruns box s).Run
      (MboxState.boot kernel) events s) : Fifo s box := by
  have h : s.Streams box := by
    refine run.invariant (I := fun s => s.Streams box) ?_ (MboxState.boot_streams kernel)
    rintro s₁ event s₂ h ⟨hroom, hstep⟩
    exact MboxState.step_streams h hroom hstep
  exact ⟨⟨_, h.put_eq.symm⟩, h.put_eq⟩

/-- The spawned task has called `mbox_open`, has returned from it, and begins to send. -/
private def opening : MboxState :=
  ((MboxState.boot spawned).call (.mboxOpen "box")).toOption.getD (MboxState.boot spawned)

private def opened : MboxState := opening.advance.toOption.getD opening

private def bytes : List UInt8 := List.replicate 255 1

private def started : MboxState :=
  (opened.call (.mboxSend 0 (bytes ++ [1]))).toOption.getD opened

private theorem run_started : ∃ events,
    (mboxSystem.restrict fun s event => ¬ event.Overruns 0 s).Run (MboxState.boot spawned)
      events started := by
  have h₁ : mboxSystem.step (MboxState.boot spawned) (.call (.mboxOpen "box")) opening :=
    ⟨⟨by decide +kernel, by decide +kernel, rfl⟩, eq_ok_getD (by decide +kernel) _⟩
  have h₂ : mboxSystem.step opening .advance opened :=
    ⟨show opening.kernel.kont _ = _ by decide +kernel, eq_ok_getD (by decide +kernel) _⟩
  have h₃ : mboxSystem.step opened (.call (.mboxSend 0 (bytes ++ [1]))) started :=
    ⟨⟨by decide +kernel, by decide +kernel, by decide +kernel⟩,
      eq_ok_getD (by decide +kernel) _⟩
  have hroom : ¬ MboxEvent.advance.Overruns 0 opening :=
    fun h => absurd h.2.2 (by decide +kernel)
  exact ⟨_, .snoc (.snoc (.single ⟨id, h₁⟩) ⟨hroom, h₂⟩) ⟨id, h₃⟩⟩

/-- The first byte of the message. -/
theorem fifo_first_byte : ∃ events s,
    (mboxSystem.restrict fun s event => ¬ event.Overruns 0 s).Run (MboxState.boot spawned)
      events s ∧ s.put 0 = [1] ∧ Fifo s 0 := by
  obtain ⟨events, run⟩ := run_started
  have hstep : mboxSystem.step started .advance (started.advance.toOption.getD started) :=
    ⟨show started.kernel.kont _ = _ by decide +kernel, eq_ok_getD (by decide +kernel) _⟩
  have hroom : ¬ MboxEvent.advance.Overruns 0 started :=
    fun h => absurd h.2.2 (by decide +kernel)
  have run' := run.snoc ⟨hroom, hstep⟩
  exact ⟨_, _, run', by decide +kernel, fifo_of_run run'⟩

/-! ## The lost message -/

/-- The running task goes on sending as long as the box has not wrapped around. -/
theorem sending_run (box : Nat) (rest msg : List UInt8) :
    ∀ {s : MboxState}, s.kernel.kont s.kernel.currentRunning = .ret →
      (s.kernel.conditions (emptyCondition box)).waitingNum = 0 →
      s.pc s.kernel.currentRunning = .sending box (msg ++ rest) →
      (s.mboxs box).head = 0 → (s.mboxs box).tail + msg.length < maxBufferSize →
      ∃ events s', mboxSystem.Run s events s' ∧ s'.kernel = s.kernel ∧
        s'.pc s.kernel.currentRunning = .sending box rest ∧ (s'.mboxs box).head = 0 ∧
        (s'.mboxs box).tail = (s.mboxs box).tail + msg.length ∧
        s'.put box = s.put box ++ msg ∧ s'.taken box = s.taken box := by
  induction msg with
  | nil =>
      intro s _ _ hpc hhead _
      exact ⟨[], s, .nil s, rfl, hpc, hhead, rfl, by simp, rfl⟩
  | cons byte msg ih =>
      intro s hkont hwaiting hpc hhead hlt
      have hlt' : (s.mboxs box).tail + msg.length + 1 < maxBufferSize := by
        simpa [Nat.add_assoc] using hlt
      let s₁ : MboxState :=
        { (s.modifyBox box fun m => m.put byte).setPc s.kernel (.sending box (msg ++ rest)) with
          put := Function.update s.put box (s.put box ++ [byte]) }
      have hfull : (s.mboxs box).isFull = false := by simp [Mailbox.isFull, hhead]
      have hsignal : s.kernel.enter (.conditionSignal (emptyCondition box)) = .ok s.kernel := by
        simp [Kernel.enter, Kernel.doConditionSignal, hwaiting]
      have hstep : mboxSystem.step s .advance s₁ := by
        refine ⟨hkont, ?_⟩
        simp only [MboxState.advance, hpc, List.cons_append, MboxState.mboxSend, hfull,
          Bool.false_eq_true, if_false, hsignal, ok_bind]
        rfl
      have htail₁ : (s₁.mboxs box).tail = (s.mboxs box).tail + 1 := by
        simp only [s₁, MboxState.setPc, MboxState.modifyBox, Function.update_self, Mailbox.put]
        exact Nat.mod_eq_of_lt (by omega)
      have hhead₁ : (s₁.mboxs box).head = 0 := by
        simpa [s₁, MboxState.setPc, MboxState.modifyBox, Mailbox.put] using hhead
      obtain ⟨events, s', run, hkernel, hpc', hhead', htail', hput', htaken'⟩ :=
        ih (s := s₁) hkont hwaiting (Function.update_self _ _ _) hhead₁
          (by rw [htail₁]; omega)
      refine ⟨_, s', (Lts.Run.single hstep).append run, hkernel, hpc', hhead', ?_, ?_, htaken'⟩
      · rw [htail', htail₁, List.length_cons]
        omega
      · rw [hput']
        simp [s₁]

/-- A task that the shell spawned sends 256 bytes with no receiver: all of them are lost. -/
theorem fifo_lost : ∃ kernel events, initTask Kernel.zero = .ok booted ∧
    kernelSystem.Run booted events kernel ∧ ∃ events s,
      mboxSystem.Run (MboxState.boot kernel) events s ∧ ¬ Fifo s 0 := by
  refine ⟨spawned, _, initTask_zero, run_spawned, ?_⟩
  obtain ⟨events, run⟩ := run_started
  have hkont : started.kernel.kont started.kernel.currentRunning = .ret := by decide +kernel
  have hwaiting : (started.kernel.conditions (emptyCondition 0)).waitingNum = 0 := by
    decide +kernel
  obtain ⟨events', s, run', hkernel, hpc, hhead, htail, hput, htaken⟩ :=
    sending_run (s := started) 0 [1] bytes hkont hwaiting
      (by decide +kernel) (by decide +kernel) (by decide +kernel)
  have htail₂ : (s.mboxs 0).tail = 255 := htail.trans (by decide +kernel)
  rw [← hkernel] at hkont hwaiting hpc
  let s' : MboxState :=
    { (s.modifyBox 0 fun m => m.put 1).setPc s.kernel (.sending 0 []) with
      put := Function.update s.put 0 (s.put 0 ++ [1]) }
  have hfull : (s.mboxs 0).isFull = false := by simp [Mailbox.isFull, hhead]
  have hstep : mboxSystem.step s .advance s' := by
    refine ⟨hkont, ?_⟩
    simp only [MboxState.advance, hpc, MboxState.mboxSend, hfull, Bool.false_eq_true, if_false,
      Kernel.enter, Kernel.doConditionSignal, hwaiting, gt_iff_lt, lt_irrefl, ok_bind]
    rfl
  refine ⟨_, s', .snoc (run.unrestrict.append run') hstep, fun hfifo => ?_⟩
  -- The tail has come round to the head, so the box counts as empty.
  have hcontent : (s'.mboxs 0).content = [] := by
    simp [s', MboxState.setPc, MboxState.modifyBox, Mailbox.put, Mailbox.content, hhead, htail₂,
      maxBufferSize]
  have hnone : s'.taken 0 = [] := htaken.trans (by decide +kernel)
  have hput' := hfifo.put_eq
  rw [hcontent, hnone] at hput'
  simp [s'] at hput'

end UcasOs.Libs
