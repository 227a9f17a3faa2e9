import UcasOs.Sched.Entries

/-!
# The result registers

The kernel never reads `user_regs_context.regs[2]`.  Putting another value in
the register of a task before a kernel function runs is therefore the same as
putting it there afterwards, for every function that does not itself write it.
-/

namespace UcasOs.Sched

open UcasOs.Foundation UcasOs.Libs

theorem walk_comm {α : Type} {h : LinkHeap Pid QueueId} {f : α → Pid → α} {g : α → α}
    (hg : ∀ a x, f (g a) x = g (f a x)) (fuel : Nat) (x : Option Pid) (a : α) :
    h.walk f fuel x (g a) = (h.walk f fuel x a).map g := by
  induction fuel generalizing x a with
  | zero => cases x <;> rfl
  | succ fuel ih =>
      cases x with
      | none => rfl
      | some x => rw [LinkHeap.walk, LinkHeap.walk, hg, ih]

/-- `f` neither reads nor writes the register. -/
def Pcb.Blind (value : BitVec 32) (f : Pcb → Pcb) : Prop :=
  ∀ b : Pcb, f { b with reg2 := value } = { f b with reg2 := value }

namespace Kernel

/-- The kernel with `value` in the register of `p`. -/
def stale (k : Kernel) (p : Pid) (value : BitVec 32) : Kernel :=
  k.modifyPcb p fun b => { b with reg2 := value }

variable (k : Kernel) (p : Pid) (value : BitVec 32)

theorem setReg2_eq : k.setReg2 value = k.stale k.currentRunning value := rfl

@[simp] theorem stale_reg2 : ((k.stale p value).pcb p).reg2 = value := by
  simp [stale, modifyPcb]

theorem stale_self : k.stale p (k.pcb p).reg2 = k := by
  simp [stale, modifyPcb]

@[simp] theorem stale_stale (value' : BitVec 32) :
    (k.stale p value).stale p value' = k.stale p value' := by
  simp [stale, modifyPcb]

theorem stale_comm {q : Pid} (hq : q ≠ p) (value' : BitVec 32) :
    (k.stale p value).stale q value' = (k.stale q value').stale p value := by
  simp [stale, modifyPcb, hq, Ne.symm hq, Function.update_comm hq]

theorem stale_modifyPcb (q : Pid) {f : Pcb → Pcb} (hf : Pcb.Blind value f) :
    (k.stale p value).modifyPcb q f = (k.modifyPcb q f).stale p value := by
  by_cases hq : q = p
  · subst hq
    have hself := hf (k.pcb q)
    simp [stale, modifyPcb, hself]
  · simp [stale, modifyPcb, hq, Ne.symm hq, Function.update_comm hq]

/-- The other fields of the table. -/
theorem stale_pcb {γ : Type} {g : Pcb → γ}
    (hg : ∀ b : Pcb, g { b with reg2 := value } = g b) (q : Pid) :
    g ((k.stale p value).pcb q) = g (k.pcb q) := by
  by_cases hq : q = p
  · subst hq
    simp [stale, modifyPcb, hg]
  · simp [stale, modifyPcb, hq]

/-! ## Queues and choices -/

theorem stale_push (q : QueueId) (item : Pid) :
    (k.stale p value).push q item = (k.push q item).map (·.stale p value) := by
  unfold push
  rw [bind_map]
  rfl

theorem stale_remove (q : QueueId) (item : Pid) :
    (k.stale p value).remove q item = (k.remove q item).map (·.stale p value) := by
  unfold remove
  rw [bind_map]
  rfl

def Scan.stale (s : Scan) (p : Pid) (value : BitVec 32) : Scan :=
  { s with pcb := Function.update s.pcb p { s.pcb p with reg2 := value } }

variable {f : Pcb → Int}

theorem Scan.stale_pcb {γ : Type} {g : Pcb → γ}
    (hg : ∀ b : Pcb, g { b with reg2 := value } = g b) (s : Scan) (q : Pid) :
    g ((s.stale p value).pcb q) = g (s.pcb q) := by
  by_cases hq : q = p
  · subst hq
    simp [Scan.stale, hg]
  · simp [Scan.stale, hq]

theorem raise_stale (hf : ∀ b : Pcb, f { b with reg2 := value } = f b) (s : Scan) (q : Pid) :
    (s.stale p value).raise f q = (s.raise f q).stale p value := by
  have hwait := s.stale_pcb p value (g := Pcb.waitTime) (fun _ => rfl) q
  have hmax : (s.stale p value).maxPriority = s.maxPriority := rfl
  unfold Scan.raise
  rw [s.stale_pcb p value hf q, hwait, hmax]
  split
  · rfl
  · rfl

theorem tie_stale (hf : ∀ b : Pcb, f { b with reg2 := value } = f b) (s : Scan) (q : Pid) :
    (s.stale p value).tie f q = (s.tie f q).stale p value := by
  have hwait := s.stale_pcb p value (g := Pcb.waitTime) (fun _ => rfl) q
  have hmax : (s.stale p value).maxPriority = s.maxPriority := rfl
  have hmaxWait : (s.stale p value).maxWaitTime = s.maxWaitTime := rfl
  unfold Scan.tie
  rw [s.stale_pcb p value hf q, hwait, hmax, hmaxWait]
  split
  · rfl
  · rfl

theorem age_stale (s : Scan) (q : Pid) :
    (s.stale p value).age q = (s.age q).stale p value := by
  by_cases hq : q = p
  · subst hq
    simp [Scan.age, Scan.stale]
  · simp [Scan.age, Scan.stale, hq, Ne.symm hq, Function.update_comm hq]

theorem scan_stale (hf : ∀ b : Pcb, f { b with reg2 := value } = f b) (q : QueueId)
    (selected : Option Pid) :
    (k.stale p value).scan f q selected = (k.scan f q selected).map (·.stale p value) := by
  have hstep : ∀ (s : Scan) (x : Pid),
      scanStep f (s.stale p value) x = (scanStep f s x).stale p value := by
    intro s x
    unfold scanStep
    rw [raise_stale p value hf, tie_stale p value hf, age_stale]
  have hwalk := walk_comm (h := k.heap) hstep maxTaskNum (k.heap.head q) ⟨k.pcb, selected, 1, 0⟩
  have hstart : (k.stale p value).heap.walk (scanStep f) maxTaskNum
      ((k.stale p value).heap.head q) ⟨(k.stale p value).pcb, selected, 1, 0⟩ = _ := hwalk
  unfold scan
  rw [hstart]
  cases k.heap.walk (scanStep f) maxTaskNum (k.heap.head q) ⟨k.pcb, selected, 1, 0⟩ with
  | none => rfl
  | some s => rfl

theorem saveCurrent_stale : (k.stale p value).saveCurrent = k.saveCurrent.stale p value :=
  k.stale_modifyPcb p value k.currentRunning fun _ => rfl

theorem switchTo_stale (next : Pid) :
    (k.stale p value).switchTo next = (k.switchTo next).stale p value := by
  have hmodify := k.stale_modifyPcb p value next (f := fun b =>
    { b with
      schedulerPriority :=
        if b.schedulerPriority > 1 then b.schedulerPriority - 1 else b.schedulerPriority
      waitTime := 0
      status := .running }) fun _ => rfl
  unfold switchTo
  simp only [hmodify]
  simp only [stale_pcb (g := Pcb.cursorX) _ _ _ (fun _ => rfl),
    stale_pcb (g := Pcb.cursorY) _ _ _ (fun _ => rfl)]
  rfl

theorem scheduler_stale :
    (k.stale p value).scheduler = k.scheduler.map (·.stale p value) := by
  unfold scheduler
  rw [apply_ite (Except.map _)]
  refine ite_congr rfl (fun _ => rfl) fun _ => ?_
  simp only [saveCurrent_stale, scan_stale (f := Pcb.schedulerPriority) _ p value (fun _ => rfl),
    map_bind, bind_map]
  refine congrArg _ (funext fun s => ?_)
  exact congrArg Except.ok (switchTo_stale { k.saveCurrent with pcb := s.pcb } p value _)

theorem doScheduler_stale (kont : Kont) :
    (k.stale p value).doScheduler kont = (k.doScheduler kont).map (·.stale p value) :=
  scheduler_stale { k with kont := Function.update k.kont k.currentRunning kont } p value

theorem doWait_stale (q : Pid) (queue : QueueId) (status : TaskStatus) (kont : Kont) :
    (k.stale p value).doWait q queue status kont =
      (k.doWait q queue status kont).map (·.stale p value) := by
  unfold doWait
  simp only [stale_remove, stale_push, map_bind, bind_map]
  refine congrArg _ (funext fun k₁ => congrArg _ (funext fun k₂ => ?_))
  rw [k₂.stale_modifyPcb p value q fun _ => rfl, doScheduler_stale]

theorem wake_stale (blockQueue : QueueId) (selected : Pid) :
    (k.stale p value).wake blockQueue selected =
      (k.wake blockQueue selected).map (·.stale p value) := by
  unfold wake
  rw [k.stale_modifyPcb p value selected fun _ => rfl]
  simp only [stale_remove, stale_push, map_bind, bind_map]
  refine congrArg _ (funext fun k₁ => congrArg _ (funext fun k₂ => ?_))
  rw [k₂.stale_modifyPcb p value selected fun _ => rfl]
  rfl

theorem doUnblockOne_stale (blockQueue : QueueId) :
    (k.stale p value).doUnblockOne blockQueue =
      (k.doUnblockOne blockQueue).map (·.stale p value) := by
  unfold doUnblockOne
  rw [apply_ite (Except.map _)]
  refine ite_congr rfl (fun _ => rfl) fun _ => ?_
  rw [scan_stale (f := Pcb.priority) k p value (fun _ => rfl), map_bind, bind_map]
  refine congrArg _ (funext fun s => ?_)
  have hselected : (s.stale p value).selected = s.selected := rfl
  rw [hselected]
  cases s.selected with
  | none => rfl
  | some selected => exact wake_stale { k with pcb := s.pcb } p value blockQueue selected

theorem unblockAllLoop_stale (blockQueue : QueueId) (fuel : Nat) :
    unblockAllLoop blockQueue fuel (k.stale p value) =
      (unblockAllLoop blockQueue fuel k).map (·.stale p value) := by
  induction fuel generalizing k with
  | zero =>
      unfold unblockAllLoop
      rw [apply_ite (Except.map _)]
      exact ite_congr rfl (fun _ => rfl) fun _ => rfl
  | succ fuel ih =>
      unfold unblockAllLoop
      rw [apply_ite (Except.map _)]
      refine ite_congr rfl (fun _ => rfl) fun _ => ?_
      rw [bind_map]
      refine congrArg _ (funext fun x => ?_)
      have hpush := stale_push { k with heap := x.2 } p value .ready x.1
      rw [bind_map]
      refine (congrArg (· >>= _) hpush).trans ?_
      rw [map_bind]
      refine congrArg _ (funext fun k₁ => ?_)
      rw [k₁.stale_modifyPcb p value x.1 fun _ => rfl]
      exact ih _

theorem doUnblockAll_stale (blockQueue : QueueId) :
    (k.stale p value).doUnblockAll blockQueue =
      (k.doUnblockAll blockQueue).map (·.stale p value) :=
  unblockAllLoop_stale k p value blockQueue maxTaskNum

/-! ## Entries -/

theorem doSleep_stale (time : BitVec 32) :
    (k.stale p value).doSleep time = (k.doSleep time).map (·.stale p value) := by
  unfold doSleep
  have hmodify := k.stale_modifyPcb p value k.currentRunning
    (f := fun b => { b with awakenedTime := k.getTicks + time / timeSlice }) fun _ => rfl
  exact (congrArg (fun k => doWait k _ _ _ _) hmodify).trans (doWait_stale _ p value _ _ _ _)

theorem checkSleepingLoop_stale (fuel : Nat) (next : Option Pid) :
    checkSleepingLoop fuel next (k.stale p value) =
      (checkSleepingLoop fuel next k).map (·.stale p value) := by
  induction fuel generalizing k next with
  | zero => cases next <;> rfl
  | succ fuel ih =>
      cases next with
      | none => rfl
      | some x =>
          have hround : ∀ k₁ : Kernel,
              checkSleepingLoop fuel ((k₁.stale p value).heap.next x) (k₁.stale p value) =
                (checkSleepingLoop fuel (k₁.heap.next x) k₁).map (·.stale p value) :=
            fun k₁ => ih k₁ _
          have hawake := k.stale_pcb p value (g := Pcb.awakenedTime) (fun _ => rfl) x
          have hticks : (k.stale p value).getTicks = k.getTicks := rfl
          unfold checkSleepingLoop
          rw [hawake, hticks, apply_ite (Except.map _)]
          refine ite_congr rfl (fun _ => ?_) fun _ => ?_
          · simp only [stale_remove, stale_push, map_bind, bind_map, pure_bind]
            refine congrArg _ (funext fun k₁ => congrArg _ (funext fun k₂ => ?_))
            rw [k₂.stale_modifyPcb p value x fun _ => rfl]
            rw [stale_modifyPcb _ p value _ fun _ => rfl]
            exact hround _
          · exact hround k

theorem irqTimer_stale : (k.stale p value).irqTimer = k.irqTimer.map (·.stale p value) := by
  have hcheck := checkSleepingLoop_stale { k with timeElapsed := k.timeElapsed + 1 } p value
    maxTaskNum (k.heap.head .sleep)
  unfold irqTimer
  rw [bind_map]
  refine (congrArg (· >>= _) hcheck).trans ?_
  rw [map_bind]
  exact congrArg _ (funext fun k₁ => doScheduler_stale k₁ p value .ret)

theorem irqMac_stale : (k.stale p value).irqMac = k.irqMac.map (·.stale p value) := by
  unfold irqMac
  rw [apply_ite (Except.map _)]
  exact ite_congr rfl (fun _ => rfl) fun _ => doUnblockOne_stale k p value .recv

/-- `init_pcb` when there is a pid for the task. -/
theorem initPcb_stale (task : TaskInfo) (hfree : slistIsInsufficient k.pidList = false) :
    (k.stale p value).initPcb task = (k.initPcb task).map (·.stale p value) := by
  have hcursor : (slistAlloc k.pidList).1 ≠ 0 := by
    rw [slistIsInsufficient, decide_eq_false_iff_not] at hfree
    simp [slistAlloc, slistIsInsufficient, hfree]
  have hpids : (k.stale p value).pidList = k.pidList := rfl
  unfold initPcb
  simp only [hpids, if_neg hcursor]
  simp only [bind_map]
  have hpush := stale_push
    ({ k with pidList := (slistAlloc k.pidList).2 }.modifyPcb (slistAlloc k.pidList).1 fun b =>
      { b with
        pid := (slistAlloc k.pidList).1
        lockNum := 0
        priority := task.priority
        schedulerPriority := task.priority
        waitTime := 0 }) p value .ready (slistAlloc k.pidList).1
  rw [← stale_modifyPcb _ p value _ fun _ => rfl] at hpush
  refine (congrArg (· >>= _) hpush).trans ?_
  rw [map_bind]
  refine congrArg _ (funext fun k₁ => ?_)
  rw [k₁.stale_modifyPcb p value (slistAlloc k.pidList).1 fun _ => rfl]
  rfl

theorem killLock_stale (pid : Pid) (i : Nat) :
    (k.stale p value).killLock pid i = (k.killLock pid i).map (·.stale p value) := by
  unfold killLock
  rw [apply_ite (Except.map _)]
  refine ite_congr rfl (fun _ => ?_) fun _ => rfl
  simp only [doUnblockOne_stale, map_bind, bind_map]
  refine congrArg _ (funext fun k₁ => ?_)
  rw [k₁.stale_modifyPcb p value pid fun _ => rfl]
  rfl

theorem killLocks_stale (pid : Pid) (locks : List Nat) :
    killLocks pid locks (k.stale p value) =
      (killLocks pid locks k).map (·.stale p value) := by
  induction locks generalizing k with
  | nil => rfl
  | cons i rest ih =>
      have hnum := k.stale_pcb p value (g := Pcb.lockNum) (fun _ => rfl) pid
      unfold killLocks
      rw [hnum, apply_ite (Except.map _)]
      refine ite_congr rfl (fun _ => ?_) fun _ => rfl
      rw [killLock_stale, map_bind, bind_map]
      exact congrArg _ (funext fun k₁ => ih k₁)

/-- The same task runs, and no task has changed its pid. -/
def Stays (k k' : Kernel) : Prop :=
  k'.currentRunning = k.currentRunning ∧ ∀ p, (k'.pcb p).pid = (k.pcb p).pid

variable {k} in
theorem Stays.trans {k₁ k₂ : Kernel} (h : k.Stays k₁) (h' : k₁.Stays k₂) : k.Stays k₂ :=
  ⟨h'.1.trans h.1, fun p => (h'.2 p).trans (h.2 p)⟩

theorem modifyPcb_stays (q : Pid) {f : Pcb → Pcb} (hf : ∀ b, (f b).pid = b.pid) :
    k.Stays (k.modifyPcb q f) := by
  refine ⟨rfl, fun x => ?_⟩
  by_cases hx : x = q
  · subst hx
    simp [modifyPcb, hf]
  · simp [modifyPcb, hx]

theorem remove_stays (q : QueueId) (x : Pid) :
    Meets (fun _ => True) k.Stays (k.remove q x) := by
  refine (remove_heap k q x).mono ?_
  rintro k' ⟨heap, rfl⟩
  exact ⟨rfl, fun _ => rfl⟩

theorem push_stays (q : QueueId) (x : Pid) :
    Meets (fun _ => True) k.Stays (k.push q x) := by
  refine (push_heap k q x).mono ?_
  rintro k' ⟨heap, rfl⟩
  exact ⟨rfl, fun _ => rfl⟩

theorem wake_stays (blockQueue : QueueId) (selected : Pid) :
    Meets (fun _ => True) k.Stays (k.wake blockQueue selected) := by
  unfold wake
  have hfirst := k.modifyPcb_stays selected
    (f := fun b => { b with waitTime := 0, schedulerPriority := b.schedulerPriority + 1 })
    fun _ => rfl
  refine (remove_stays _ blockQueue selected).bind fun k₁ h₁ => ?_
  refine (push_stays k₁ .ready selected).bind fun k₂ h₂ => ?_
  exact ((hfirst.trans h₁).trans h₂).trans (k₂.modifyPcb_stays selected fun _ => rfl)

theorem doUnblockOne_stays (blockQueue : QueueId) :
    Meets (fun _ => True) k.Stays (k.doUnblockOne blockQueue) := by
  unfold doUnblockOne
  split
  · exact ⟨rfl, fun _ => rfl⟩
  · refine (scan_pcb k Pcb.priority blockQueue none).bind fun s hs => ?_
    have hpids : k.Stays { k with pcb := s.pcb } := by
      refine ⟨rfl, fun x => ?_⟩
      obtain ⟨w, -, hx⟩ := hs x
      exact (congrArg Pcb.pid hx).trans rfl
    cases s.selected with
    | none => trivial
    | some selected => exact (wake_stays _ blockQueue selected).mono fun _ h => hpids.trans h

theorem unblockAllLoop_stays (blockQueue : QueueId) (fuel : Nat) :
    Meets (fun _ => True) k.Stays (unblockAllLoop blockQueue fuel k) := by
  induction fuel generalizing k with
  | zero =>
      unfold unblockAllLoop
      split
      · exact ⟨rfl, fun _ => rfl⟩
      · trivial
  | succ fuel ih =>
      unfold unblockAllLoop
      split
      · exact ⟨rfl, fun _ => rfl⟩
      · cases queueDequeue k.heap blockQueue with
        | error fault => trivial
        | ok x =>
            refine (push_stays { k with heap := x.2 } .ready x.1).bind fun k₁ h₁ => ?_
            have h₂ := Stays.trans h₁ (k₁.modifyPcb_stays x.1 (f := fun b =>
              { b with
                waitTime := 0
                schedulerPriority := b.schedulerPriority + 1
                queue := some .ready
                status := .ready }) fun _ => rfl)
            exact (ih _).mono fun _ h => Stays.trans h₂ h

theorem killLock_stays (pid : Pid) (i : Nat) :
    Meets (fun _ => True) k.Stays (k.killLock pid i) := by
  unfold killLock
  split
  · refine (doUnblockOne_stays k (.mutex i)).bind fun k₁ h₁ => ?_
    have h₂ := h₁.trans (k₁.modifyPcb_stays pid
      (f := fun b => { b with lockNum := b.lockNum - 1 }) fun _ => rfl)
    exact h₂
  · exact ⟨rfl, fun _ => rfl⟩

theorem killLocks_stays (pid : Pid) (locks : List Nat) :
    Meets (fun _ => True) k.Stays (killLocks pid locks k) := by
  induction locks generalizing k with
  | nil => exact ⟨rfl, fun _ => rfl⟩
  | cons i rest ih =>
      unfold killLocks
      split
      · exact (killLock_stays k pid i).bind fun k₁ h₁ => (ih k₁).mono fun _ h => h₁.trans h
      · exact ⟨rfl, fun _ => rfl⟩

variable {k p}

theorem setReg2_stale_self (hp : k.currentRunning = p) (result : BitVec 32) :
    (k.stale p value).setReg2 result = k.setReg2 result := by
  subst hp
  exact stale_stale k k.currentRunning value result

theorem setReg2_stale (hp : k.currentRunning ≠ p) (result : BitVec 32) :
    (k.stale p value).setReg2 result = (k.setReg2 result).stale p value :=
  stale_comm k p value hp result

/-- `kill` up to the test for the current task. -/
def killed (pid : Pid) (k : Kernel) : Except Fault Kernel := do
  let k ←
    match (k.pcb pid).queue with
    | none => throw .nullPointer
    | some queue => k.remove queue pid
  let k ← killLocks pid (List.range maxLocksNum) k
  k.doUnblockAll (.wait pid)

/-- The end of `kill`. -/
def killReturn (pid : Pid) (k : Kernel) : Except Fault Kernel :=
  if (k.pcb k.currentRunning).pid = pid then k.doScheduler .ret else .ok (k.setReg2 1)

theorem kill_eq (k : Kernel) (pid : Int) :
    k.kill pid =
      if pid = 1 ∨ slistIsValid k.pidList pid maxTaskNum = false then .ok (k.setReg2 0)
      else killed pid.toNat { k with pidList := (slistFree k.pidList pid maxTaskNum).2 } >>=
        killReturn pid.toNat := by
  unfold kill
  by_cases h1 : pid = 1
  · rw [if_pos h1, if_pos (.inl h1)]
  · cases hvalid : slistIsValid k.pidList pid maxTaskNum with
    | false => simp [h1, slistFree, hvalid]
    | true =>
        simp only [h1, if_false, slistFree, hvalid, if_true, killed, false_or,
          Bool.true_eq_false]
        cases (k.pcb pid.toNat).queue with
        | none => rfl
        | some queue =>
            simp only [bind_assoc]
            rfl

theorem killed_stale (k : Kernel) (p : Pid) (pid : Pid) :
    killed pid (k.stale p value) = (killed pid k).map (·.stale p value) := by
  have hqueue := k.stale_pcb p value (g := Pcb.queue) (fun _ => rfl) pid
  unfold killed
  rw [hqueue]
  cases (k.pcb pid).queue with
  | none => rfl
  | some queue =>
      simp only [stale_remove, map_bind, bind_map, killLocks_stale, doUnblockAll_stale]

theorem killed_stays (k : Kernel) (pid : Pid) :
    Meets (fun _ => True) k.Stays (killed pid k) := by
  unfold killed
  cases (k.pcb pid).queue with
  | none => trivial
  | some queue =>
      refine (remove_stays k queue pid).bind fun k₁ h₁ => ?_
      refine (killLocks_stays k₁ pid _).bind fun k₂ h₂ => ?_
      exact (unblockAllLoop_stays k₂ _ _).mono fun _ h₃ => (h₁.trans h₂).trans h₃

theorem bind_congr_ok {x : Except Fault Kernel} {f g : Kernel → Except Fault Kernel}
    (h : ∀ k, x = .ok k → f k = g k) : x >>= f = x >>= g := by
  cases x with
  | error fault => rfl
  | ok k => exact h k rfl

theorem kill_stale (hp : k.currentRunning ≠ p) (pid : Int) :
    (k.stale p value).kill pid = (k.kill pid).map (·.stale p value) := by
  have hpids : (k.stale p value).pidList = k.pidList := rfl
  rw [kill_eq, kill_eq, hpids, apply_ite (Except.map _)]
  refine ite_congr rfl (fun _ => ?_) fun _ => ?_
  · exact congrArg Except.ok (setReg2_stale value hp 0)
  · have hkilled := killed_stale value
      { k with pidList := (slistFree k.pidList pid maxTaskNum).2 } p pid.toNat
    refine (congrArg (· >>= _) hkilled).trans ?_
    rw [map_bind, bind_map]
    refine bind_congr_ok fun k₁ hk₁ => ?_
    have hstays := (killed_stays _ pid.toNat).of_ok hk₁
    have hcur : k₁.currentRunning ≠ p := hstays.1.symm ▸ hp
    have hown := k₁.stale_pcb p value (g := Pcb.pid) (fun _ => rfl) k₁.currentRunning
    unfold killReturn
    rw [apply_ite (Except.map _)]
    refine ite_congr (congrArg (· = pid.toNat) hown) (fun _ => ?_) fun _ => ?_
    · exact doScheduler_stale k₁ p value .ret
    · exact congrArg Except.ok (setReg2_stale value hcur 1)

/-- A task that kills another finds the answer in its register, whatever was there. -/
theorem kill_stale_self (hp : k.currentRunning = p) {pid : Int} (hpid : pid ≠ (k.pcb p).pid) :
    (k.stale p value).kill pid = k.kill pid := by
  have hpids : (k.stale p value).pidList = k.pidList := rfl
  rw [kill_eq, kill_eq, hpids]
  refine ite_congr rfl (fun _ => ?_) fun hvalid => ?_
  · exact congrArg Except.ok (setReg2_stale_self value hp 0)
  · rw [not_or, Bool.not_eq_false] at hvalid
    obtain ⟨i, rfl, -⟩ := slistIsValid_iff.mp hvalid.2
    have hkilled := killed_stale value
      { k with pidList := (slistFree k.pidList i maxTaskNum).2 } p i
    refine (congrArg (· >>= _) hkilled).trans ?_
    rw [map_bind]
    refine bind_congr_ok fun k₁ hk₁ => ?_
    have hstays := (killed_stays _ i).of_ok hk₁
    have hcur : k₁.currentRunning = p := hstays.1.trans hp
    have hpid₁ : (k₁.pcb p).pid ≠ i := by
      rw [hstays.2 p]
      exact fun h => hpid (congrArg Nat.cast h.symm)
    have hown := k₁.stale_pcb p value (g := Pcb.pid) (fun _ => rfl) k₁.currentRunning
    have hother : (k₁.pcb k₁.currentRunning).pid ≠ i := hcur.symm ▸ hpid₁
    unfold killReturn
    refine ite_congr (congrArg (· = i) hown) (fun h => absurd h hother) fun _ => ?_
    exact congrArg Except.ok (setReg2_stale_self value hcur 1)

theorem wait_stale (hp : k.currentRunning ≠ p) (pid : Int) :
    (k.stale p value).wait pid = (k.wait pid).map (·.stale p value) := by
  have hown := k.stale_pcb p value (g := fun b => (b.pid : Int)) (fun _ => rfl) k.currentRunning
  unfold wait
  rw [apply_ite (Except.map _)]
  refine ite_congr (congrArg (fun i : Int => _ ∨ pid = i) hown) (fun _ => ?_) fun _ => ?_
  · exact congrArg Except.ok (setReg2_stale value hp 0)
  · refine (congrArg (fun k => doWait k _ _ _ _) (setReg2_stale value hp 1)).trans ?_
    exact doWait_stale _ p value _ _ _ _

theorem wait_stale_self (hp : k.currentRunning = p) (pid : Int) :
    (k.stale p value).wait pid = k.wait pid := by
  have hown := k.stale_pcb p value (g := fun b => (b.pid : Int)) (fun _ => rfl) k.currentRunning
  unfold wait
  refine ite_congr (congrArg (fun i : Int => _ ∨ pid = i) hown) (fun _ => ?_) fun _ => ?_
  · exact congrArg Except.ok (setReg2_stale_self value hp 0)
  · exact congrArg (fun k => doWait k _ _ _ _) (setReg2_stale_self value hp 1)

/-! ## Synchronisation -/

theorem acquireLoop_stale (k : Kernel) (lock : Nat) :
    (k.stale p value).acquireLoop lock = (k.acquireLoop lock).map (·.stale p value) := by
  unfold acquireLoop
  rw [apply_ite (Except.map _)]
  refine ite_congr rfl (fun _ => doWait_stale k p value _ _ _ _) fun _ => ?_
  have hown := k.stale_pcb p value (g := Pcb.pid) (fun _ => rfl) k.currentRunning
  have hmodify := k.stale_modifyPcb p value k.currentRunning
    (f := fun b => { b with lockNum := b.lockNum + 1 }) fun _ => rfl
  have hpid : ∀ k₁ : Kernel, ((k₁.modifyPcb k₁.currentRunning fun b =>
      { b with lockNum := b.lockNum + 1 }).pcb k₁.currentRunning).pid =
        (k₁.pcb k₁.currentRunning).pid := fun k₁ => (k₁.modifyPcb_stays _
          (f := fun b => { b with lockNum := b.lockNum + 1 }) fun _ => rfl).2 _
  refine congrArg Except.ok ?_
  refine (congrArg (fun owner => setMutex _ lock ⟨.locked, owner⟩)
    ((hpid (k.stale p value)).trans (hown.trans (hpid k).symm))).trans ?_
  exact congrArg (fun k₁ : Kernel => k₁.setMutex lock ⟨.locked, _⟩) hmodify

theorem doMutexLockAcquire_stale (k : Kernel) (lock : Nat) :
    (k.stale p value).doMutexLockAcquire lock =
      (k.doMutexLockAcquire lock).map (·.stale p value) := by
  have hown := k.stale_pcb p value (g := Pcb.pid) (fun _ => rfl) k.currentRunning
  unfold doMutexLockAcquire
  rw [apply_ite (Except.map _)]
  refine ite_congr (congrArg (_ = ·) hown) (fun _ => rfl) fun _ => ?_
  exact acquireLoop_stale value k lock

theorem doMutexLockRelease_stale (k : Kernel) (lock : Nat) :
    (k.stale p value).doMutexLockRelease lock =
      (k.doMutexLockRelease lock).map (·.stale p value) := by
  have hown := k.stale_pcb p value (g := Pcb.pid) (fun _ => rfl) k.currentRunning
  unfold doMutexLockRelease
  rw [apply_ite (Except.map _)]
  refine ite_congr (congrArg (_ ≠ ·) hown) (fun _ => rfl) fun _ => ?_
  rw [doUnblockOne_stale, map_bind, bind_map]
  refine congrArg _ (funext fun k₁ => ?_)
  have hmodify := k₁.stale_modifyPcb p value k₁.currentRunning
    (f := fun b => { b with lockNum := b.lockNum - 1 }) fun _ => rfl
  exact congrArg (fun k₂ : Kernel => Except.ok (k₂.setMutex lock ⟨.unlocked, 0⟩)) hmodify

theorem doSemaphoreUp_stale (k : Kernel) (s : Nat) :
    (k.stale p value).doSemaphoreUp s = (k.doSemaphoreUp s).map (·.stale p value) := by
  unfold doSemaphoreUp
  dsimp only
  rw [apply_ite (Except.map _)]
  exact ite_congr rfl (fun _ => doUnblockOne_stale (k.setSemaphore _ _) p value _) fun _ => rfl

theorem doSemaphoreDown_stale (k : Kernel) (s : Nat) :
    (k.stale p value).doSemaphoreDown s = (k.doSemaphoreDown s).map (·.stale p value) := by
  unfold doSemaphoreDown
  dsimp only
  rw [apply_ite (Except.map _)]
  exact ite_congr rfl (fun _ => doWait_stale (k.setSemaphore _ _) p value _ _ _ _) fun _ => rfl

theorem doConditionWait_stale (k : Kernel) (condition lock : Nat) :
    (k.stale p value).doConditionWait condition lock =
      (k.doConditionWait condition lock).map (·.stale p value) := by
  have hrelease := doMutexLockRelease_stale (p := p) value
    (k.setCondition condition ((k.conditions condition).waitingNum + 1)) lock
  unfold doConditionWait
  rw [bind_map]
  refine (congrArg (· >>= _) hrelease).trans ?_
  rw [map_bind]
  exact congrArg _ (funext fun k₁ => doWait_stale k₁ p value _ _ _ _)

theorem doConditionSignal_stale (k : Kernel) (condition : Nat) :
    (k.stale p value).doConditionSignal condition =
      (k.doConditionSignal condition).map (·.stale p value) := by
  unfold doConditionSignal
  rw [apply_ite (Except.map _)]
  exact ite_congr rfl (fun _ => doUnblockOne_stale (k.setCondition _ _) p value _) fun _ => rfl

theorem doConditionBroadcast_stale (k : Kernel) (condition : Nat) :
    (k.stale p value).doConditionBroadcast condition =
      (k.doConditionBroadcast condition).map (·.stale p value) := by
  unfold doConditionBroadcast
  rw [apply_ite (Except.map _)]
  exact ite_congr rfl (fun _ => doUnblockAll_stale (k.setCondition _ _) p value _) fun _ => rfl

theorem doBarrierWait_stale (k : Kernel) (barrier : Nat) :
    (k.stale p value).doBarrierWait barrier =
      (k.doBarrierWait barrier).map (·.stale p value) := by
  unfold doBarrierWait
  dsimp only
  rw [apply_ite (Except.map _)]
  exact ite_congr rfl (fun _ => doUnblockAll_stale ((k.setBarrier _ _).setBarrier _ _) p value _)
    fun _ => doWait_stale (k.setBarrier _ _) p value _ _ _ _

theorem resume_stale (k : Kernel) :
    (k.stale p value).resume = k.resume.map (·.stale p value) := by
  unfold resume
  have hkont : (k.stale p value).kont (k.stale p value).currentRunning =
      k.kont k.currentRunning := rfl
  dsimp only
  rw [hkont]
  cases k.kont k.currentRunning with
  | ret => rfl
  | acquire lock => exact acquireLoop_stale value (k.park .ret) lock
  | reacquire lock => exact doMutexLockAcquire_stale value (k.park .ret) lock

theorem initPcb_full (k : Kernel) (task : TaskInfo)
    (hfull : slistIsInsufficient k.pidList = true) : k.initPcb task = .ok (k.setReg2 0) := by
  simp [initPcb, slistAlloc, hfull]
  rfl

/-- What another task does in the kernel. -/
theorem enter_stale (hp : k.currentRunning ≠ p) (e : Entry) :
    (k.stale p value).enter e = (k.enter e).map (·.stale p value) := by
  cases e with
  | spawn task =>
      cases hfull : slistIsInsufficient k.pidList with
      | false => exact initPcb_stale k p value task hfull
      | true =>
          simp only [enter]
          rw [initPcb_full k task hfull, initPcb_full (k.stale p value) task hfull,
            setReg2_stale value hp]
          rfl
  | kill pid => exact kill_stale value hp pid
  | exit =>
      have hown := k.stale_pcb p value (g := fun b => (b.pid : Int)) (fun _ => rfl)
        k.currentRunning
      simp only [enter, exit]
      exact (congrArg (kill _) hown).trans (kill_stale value hp _)
  | wait pid => exact wait_stale value hp pid
  | sleep time => exact doSleep_stale k p value time
  | mutexInit lock => rfl
  | mutexAcquire lock => exact doMutexLockAcquire_stale value k lock
  | mutexRelease lock => exact doMutexLockRelease_stale value k lock
  | semaphoreInit s n => rfl
  | semaphoreUp s => exact doSemaphoreUp_stale value k s
  | semaphoreDown s => exact doSemaphoreDown_stale value k s
  | conditionInit condition => rfl
  | conditionWait condition lock => exact doConditionWait_stale value k condition lock
  | conditionSignal condition => exact doConditionSignal_stale value k condition
  | conditionBroadcast condition => exact doConditionBroadcast_stale value k condition
  | barrierInit barrier goal => rfl
  | barrierWait barrier => exact doBarrierWait_stale value k barrier
  | waitRecv => exact doWait_stale k p value _ _ _ _
  | timer => exact irqTimer_stale k p value
  | mac => exact irqMac_stale k p value

/-- The register of a task keeps its value while others run. -/
theorem exec_reg2 (hp : k.currentRunning ≠ p) {event : Event} {k' : Kernel}
    (h : k.exec event = .ok k') : (k'.pcb p).reg2 = (k.pcb p).reg2 := by
  have hstale : (k.stale p (k.pcb p).reg2).exec event =
      (k.exec event).map (·.stale p (k.pcb p).reg2) := by
    cases event with
    | entry e => exact enter_stale _ hp e
    | resume => exact resume_stale _ k
  rw [stale_self, h] at hstale
  have hk' : k' = k'.stale p (k.pcb p).reg2 := Except.ok.inj hstale
  rw [hk', stale_reg2]

end Kernel

end UcasOs.Sched
