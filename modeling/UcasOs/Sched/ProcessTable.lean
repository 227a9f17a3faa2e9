import UcasOs.Sched.Verified

/-!
# The process table over whole runs

Every kernel entry, and every continuation of a task inside the kernel, keeps
the process table; so it holds in every state that any sequence of them
reaches from the state of `init_task`.
-/

namespace UcasOs.Sched

open UcasOs.Foundation UcasOs.Libs

/--
The process table with its two global clauses, for tasks `S` taken out of their
queues; `boot` says whether the boot task may still be the running one.
-/
def Inv (k : Kernel) (S : Pid → Prop) (boot : Prop) : Prop :=
  ∃ L, Table k L S ∧ WaitNil k L ∧ CurrentReady boot k L

variable {k k' : Kernel} {L L' : QueueId → List Pid} {S : Pid → Prop} {boot : Prop}

theorem WaitNil.congr (h : WaitNil k L) (hpids : k'.pidList = k.pidList)
    (hL : ∀ p, L' (.wait p) ⊆ L (.wait p)) : WaitNil k' L' := by
  intro p hp
  have hlive : ¬ k.Live p := by rwa [Kernel.Live, hpids] at hp
  exact List.subset_nil.mp (h p hlive ▸ hL p)

/-- Making tasks ready keeps the invariant. -/
theorem Woken.inv (hwoken : Woken k L S k' L') (hwait : WaitNil k L)
    (hcur : CurrentReady boot k L) : Inv k' S boot := by
  obtain ⟨htable, hwakes, hframe, hsame⟩ := hwoken
  refine ⟨L', htable, ?_, ?_⟩
  · exact hwait.congr hframe.pidList fun p => hwakes.other _ (by simp)
  · rw [CurrentReady, hsame]
    exact hcur.imp_right (fun h => hwakes.ready h)

theorem Inv.congr (h : Inv k S boot) (hheap : k'.heap = k.heap) (hpids : k'.pidList = k.pidList)
    (hcur : k'.currentRunning = k.currentRunning)
    (hpcb : ∀ p, (k.pcb p).Keeps (k'.pcb p)) : Inv k' S boot := by
  obtain ⟨L, htable, hwait, hready⟩ := h
  refine ⟨L, htable.congr hheap hpids hpcb, hwait.congr hpids fun p => List.Subset.refl _, ?_⟩
  rwa [CurrentReady, hcur]

theorem Inv.queueInit (h : Inv k S boot) {q : QueueId} (hq : queueIsEmpty k.heap q = true) :
    Inv { k with heap := queueInit k.heap q } S boot := by
  obtain ⟨L, ht, hwait, hready⟩ := h
  have hholds := queueInit_holds ht.holds ((queueIsEmpty_iff ht.holds).mp hq)
  exact ⟨L, ⟨hholds, ht.free, ht.queue_eq, ht.live, ht.covered, ht.outside,
    ht.live_of_outside, ht.pid_eq, ht.eligible⟩, hwait, hready⟩

theorem Inv.modifyPcb (h : Inv k S boot) {p : Pid} {f : Pcb → Pcb}
    (hf : (k.pcb p).Keeps (f (k.pcb p))) : Inv (k.modifyPcb p f) S boot := by
  obtain ⟨L, ht, hwait, hready⟩ := h
  exact ⟨L, ht.modifyPcb hf, hwait, hready⟩

theorem Inv.setReg2 (h : Inv k S boot) (value : BitVec 32) : Inv (k.setReg2 value) S boot :=
  h.modifyPcb ⟨rfl, rfl, fun he => ⟨he.priority, he.schedulerPriority, he.waitTime⟩⟩

theorem doUnblockOne_inv (h : Inv k S boot) (q : QueueId) :
    Meets IsPanic (fun k' => Inv k' S boot ∧ Frame k k' ∧ k'.currentRunning = k.currentRunning)
      (k.doUnblockOne q) := by
  obtain ⟨L, ht, hwait, hready⟩ := h
  refine (doUnblockOne_woken ht q).mono fun k' hk' => ?_
  obtain ⟨L', hwoken⟩ := hk'
  exact ⟨hwoken.inv hwait hready, hwoken.2.2.1, hwoken.2.2.2⟩

theorem doUnblockAll_inv (h : Inv k S boot) {q : QueueId} (hq : q ≠ .ready) :
    Meets IsPanic (fun k' => Inv k' S boot ∧ Frame k k' ∧ k'.currentRunning = k.currentRunning)
      (k.doUnblockAll q) := by
  obtain ⟨L, ht, hwait, hready⟩ := h
  refine (doUnblockAll_spec ht hq).mono fun k' hk' => ?_
  obtain ⟨L', hwoken, -⟩ := hk'
  exact ⟨hwoken.inv hwait hready, hwoken.2.2.1, hwoken.2.2.2⟩

theorem checkSleeping_inv (h : Inv k S boot) :
    Meets IsPanic (fun k' => Inv k' S boot ∧ Frame k k' ∧ k'.currentRunning = k.currentRunning)
      k.checkSleeping := by
  obtain ⟨L, ht, hwait, hready⟩ := h
  refine (checkSleeping_spec ht).mono fun k' hk' => ?_
  obtain ⟨L', hwoken⟩ := hk'
  exact ⟨hwoken.inv hwait hready, hwoken.2.2.1, hwoken.2.2.2⟩

theorem doScheduler_inv (h : Inv k S boot) (kont : Kont) :
    Meets IsPanic (fun k' => Inv k' S boot ∧ Frame (k.park kont) k') (k.doScheduler kont) := by
  obtain ⟨L, ht, hwait, -⟩ := h
  refine (doScheduler_spec ht kont).mono fun k' hk' => ?_
  obtain ⟨ht', hframe, hcur⟩ := hk'
  exact ⟨⟨L, ht', hwait.congr hframe.pidList fun p => List.Subset.refl _, .inr hcur⟩, hframe⟩

/-- A task that waits leaves the processor to a ready one. -/
theorem doWait_inv (h : Inv k S boot) (hboot : k.currentRunning ≠ 0) {q : QueueId}
    (hq : ∀ p, q = .wait p → k.Live p) (status : TaskStatus) (kont : Kont) :
    Meets IsPanic (fun k' => Inv k' S boot ∧ Frame (k.park kont) k')
      (k.doWait k.currentRunning q status kont) := by
  obtain ⟨L, ht, hwait, hready⟩ := h
  have hcur : k.currentRunning ∈ L .ready := hready.resolve_left fun h0 => hboot h0.2
  refine (doWait_spec ht hcur q status kont).mono fun k' hk' => ?_
  obtain ⟨ht', hframe, hcur'⟩ := hk'
  refine ⟨⟨_, ht', ?_, .inr hcur'⟩, hframe⟩
  intro p hp
  have hlive : ¬ k.Live p := fun hl => hp (by rw [Kernel.Live, hframe.pidList]; exact hl)
  have hne : QueueId.wait p ≠ q := fun he => hlive (hq p he.symm)
  rw [join, Function.update_of_ne hne, leave, Function.update_of_ne (by simp)]
  exact hwait p hlive

/-! ## Spawning -/

/-- What `init_pcb` leaves: no pid was free, or `pid` is new and in the user mode. -/
def Spawned (k k' : Kernel) : Prop :=
  k'.mutexes = k.mutexes ∧ k'.currentRunning = k.currentRunning ∧
    k'.pidList = (slistAlloc k.pidList).2 ∧
    ((k'.pidList = k.pidList ∧ k'.kont = k.kont) ∨
      ∃ pid, ¬ k.Live pid ∧ pid ≠ 0 ∧ (∀ p, k'.Live p ↔ p = pid ∨ k.Live p) ∧
        k'.kont = Function.update k.kont pid .ret)

/-- A new task joins the ready queue, if a pid is free. -/
theorem initPcb_view (ht : Table k L S) (hwait : WaitNil k L) {task : TaskInfo}
    (htask : 1 ≤ task.priority) :
    Meets IsPanic
      (fun k' => Spawned k k' ∧ k'.semaphores = k.semaphores ∧
        (∀ p, k.Live p → (k'.pcb p).queue = (k.pcb p).queue) ∧
        ((Table k' L S ∧ k'.view L = k.view L) ∨
          ∃ pid, ¬ k.Live pid ∧ pid ≠ 0 ∧ Table k' (join L .ready pid) S ∧
            k'.view (join L .ready pid) = (k.view L).spawn pid))
      (k.initPcb task) := by
  obtain ⟨free, hfree⟩ := ht.free
  unfold Kernel.initPcb
  cases free with
  | nil =>
      have halloc := slistAlloc_nil hfree
      rw [halloc]
      simp only [if_true]
      refine ⟨⟨rfl, rfl, by rw [halloc]; rfl, .inl ⟨rfl, rfl⟩⟩, rfl, ?_, .inl ?_⟩
      · intro p _
        by_cases hp : p = k.currentRunning <;> simp [Kernel.setReg2, Kernel.modifyPcb, hp]
      · exact ⟨ht.modifyPcb ⟨rfl, rfl, fun he =>
          ⟨he.priority, he.schedulerPriority, he.waitTime⟩⟩, setReg2_view k L 0⟩
  | cons pid free =>
      obtain ⟨hpid, himpl, hone, hlt, hlive⟩ := slistAlloc_cons hfree
      have hdead : ¬ k.Live pid := by
        intro hl
        have := (hfree.mem_iff pid).mp (by simp)
        simp [hl.2.2] at this
      have hnew : pid ≠ 0 := by omega
      have hnotin : ∀ q, pid ∉ L q := fun q hq => hdead (ht.live hq)
      obtain ⟨alloc, hsplit⟩ : ∃ alloc, slistAlloc k.pidList = (pid, alloc) :=
        ⟨_, Prod.ext hpid rfl⟩
      rw [hsplit] at himpl hlive ⊢
      simp only [hnew, if_false]
      generalize hk₁ : Kernel.modifyPcb { k with pidList := alloc } pid _ = k₁
      have hself : k₁.pcb pid = { k.pcb pid with
          pid, lockNum := 0, priority := task.priority,
          schedulerPriority := task.priority, waitTime := 0 } := by
        simp [← hk₁, Kernel.modifyPcb]
      have hother : ∀ x, x ≠ pid → k₁.pcb x = k.pcb x := by
        intro x hx
        simp [← hk₁, Kernel.modifyPcb, hx]
      have hlive₁ : ∀ p, k₁.Live p ↔ p = pid ∨ k.Live p := by
        rw [← hk₁]
        exact hlive
      -- The new task is allocated and not yet in any queue.
      have ht₁ : Table k₁ L (fun x => S x ∨ x = pid) := by
        refine ⟨by rw [← hk₁]; exact ht.holds, ⟨free, by rw [← hk₁]; exact himpl⟩,
          ?_, ?_, ?_, ?_, ?_, ?_, ?_⟩
        · intro q p hp
          rw [hother p fun he => hnotin q (he ▸ hp)]
          exact ht.queue_eq hp
        · exact fun hp => (hlive₁ _).mpr (.inr (ht.live hp))
        · intro p hp hS
          rw [not_or] at hS
          exact ht.covered (((hlive₁ p).mp hp).resolve_left hS.2) hS.1
        · rintro q p (hp | rfl)
          · exact ht.outside hp
          · exact hnotin q
        · rintro p (hp | rfl)
          · exact (hlive₁ p).mpr (.inr (ht.live_of_outside hp))
          · exact (hlive₁ p).mpr (.inl rfl)
        · intro p hp
          by_cases hpp : p = pid
          · rw [hpp, hself]
          · rw [hother p hpp]
            exact ht.pid_eq (hp.imp_left fun hl => ((hlive₁ p).mp hl).resolve_left hpp)
        · intro p hp
          by_cases hpp : p = pid
          · rw [hpp, hself]
            exact ⟨htask, htask, le_refl _⟩
          · rw [hother p hpp]
            exact ht.eligible (((hlive₁ p).mp hp).resolve_left hpp)
      obtain ⟨heap, hpush, htable⟩ := ht₁.push (.inr rfl) .ready
      simp only [hpush, ok_bind]
      generalize hk₂ : Kernel.modifyPcb { k₁ with heap } pid _ = k₂
      have hself₂ : k₂.pcb pid = { k₁.pcb pid with
          queue := some .ready, status := .ready, cursorX := 0, cursorY := 0 } := by
        simp [← hk₂, Kernel.modifyPcb]
      have hS : (fun x => (S x ∨ x = pid) ∧ x ≠ pid) = S := by
        funext x
        apply propext
        constructor
        · rintro ⟨hx | hx, hne⟩
          · exact hx
          · exact absurd hx hne
        · intro hx
          refine ⟨.inl hx, ?_⟩
          rintro rfl
          exact hdead (ht.live_of_outside hx)
      have ht₂ : Table k₂ (join L .ready pid) S := by
        rw [← hS]
        refine htable k₂ (by rw [← hk₂]; rfl) (by rw [← hk₂]; rfl) ?_ ?_ ?_ ?_
        · intro x hx
          simpa [← hk₂, Kernel.modifyPcb, hx] using Pcb.Keeps.refl _
        · rw [hself₂]
        · rw [hself₂, hself]
        · rw [hself₂, hself]
          exact ⟨htask, htask, le_refl _⟩
      have hlive₂ : ∀ p, k₂.Live p ↔ p = pid ∨ k.Live p := by
        rw [← hk₂]
        exact hlive₁
      have hwaitL : ∀ p, join L .ready pid (.wait p) = L (.wait p) := fun p => by simp [join]
      have hempty : queueIsEmpty k₂.heap (.wait pid) = true := by
        rw [queueIsEmpty_iff ht₂.holds, hwaitL]
        exact hwait pid hdead
      have hholds := queueInit_holds ht₂.holds ((queueIsEmpty_iff ht₂.holds).mp hempty)
      refine ⟨⟨?_, ?_, ?_, .inr ⟨pid, hdead, hnew, hlive₂, ?_⟩⟩, ?_, ?_,
        .inr ⟨pid, hdead, hnew, ?_, ?_⟩⟩
      · rw [← hk₂, ← hk₁]; rfl
      · rw [← hk₂, ← hk₁]; rfl
      · rw [hsplit, ← hk₂, ← hk₁]; rfl
      · rw [← hk₂, ← hk₁]; rfl
      · rw [← hk₂, ← hk₁]; rfl
      · intro p hp
        have hne : p ≠ pid := fun he => hdead (he ▸ hp)
        rw [← hother p hne, ← hk₂]
        simp [Kernel.modifyPcb, hne]
      · exact ⟨hholds, ht₂.free, ht₂.queue_eq, ht₂.live, ht₂.covered, ht₂.outside,
          ht₂.live_of_outside, ht₂.pid_eq, ht₂.eligible⟩
      · have hother₂ : ∀ x, x ≠ pid → k₂.pcb x = k.pcb x := by
          intro x hx
          rw [← hother x hx, ← hk₂]
          simp [Kernel.modifyPcb, hx]
        ext1
        case status | awakened | lockNum | cursor =>
            funext x
            by_cases hx : x = pid
            · subst hx
              simp [Kernel.view, View.spawn, hself₂, hself]
            · simp [Kernel.view, View.spawn, hx, hother₂ x hx]
        case live => exact funext fun p => propext (hlive₂ p)
        case current | time | mutexes | semaphores | conditions | barriers | kont | screen =>
            rw [← hk₂, ← hk₁]
            rfl
        all_goals rfl

theorem initPcb_spec (ht : Table k L S) (hwait : WaitNil k L) {task : TaskInfo}
    (htask : 1 ≤ task.priority) :
    Meets IsPanic
      (fun k' => Spawned k k' ∧ k'.semaphores = k.semaphores ∧
        (∀ p, k.Live p → (k'.pcb p).queue = (k.pcb p).queue) ∧
        (Table k' L S ∨ ∃ pid, ¬ k.Live pid ∧ Table k' (join L .ready pid) S))
      (k.initPcb task) := by
  refine (initPcb_view ht hwait htask).mono fun k' hk' => ?_
  obtain ⟨hspawned, hsem, hqueue, ⟨htable, -⟩ | ⟨pid, hdead, -, htable, -⟩⟩ := hk'
  · exact ⟨hspawned, hsem, hqueue, .inl htable⟩
  · exact ⟨hspawned, hsem, hqueue, .inr ⟨pid, hdead, htable⟩⟩

theorem initPcb_inv (h : Inv k S boot) {task : TaskInfo} (htask : 1 ≤ task.priority) :
    Meets IsPanic (fun k' => Inv k' S boot ∧ Spawned k k') (k.initPcb task) := by
  obtain ⟨L, ht, hwait, hready⟩ := h
  refine (initPcb_spec ht hwait htask).mono fun k' hk' => ?_
  obtain ⟨hspawned, -, -, htable⟩ := hk'
  have hlive : ∀ p, ¬ k'.Live p → ¬ k.Live p := by
    intro p hp hl
    obtain ⟨-, -, -, ⟨hpids, -⟩ | ⟨pid, -, -, hlive, -⟩⟩ := hspawned
    · exact hp (by rwa [Kernel.Live, hpids])
    · exact hp ((hlive p).mpr (.inr hl))
  have hcur : k'.currentRunning = k.currentRunning := hspawned.2.1
  refine ⟨?_, hspawned⟩
  obtain htable | ⟨pid, -, htable⟩ := htable
  · refine ⟨L, htable, fun p hp => hwait p (hlive p hp), ?_⟩
    rwa [CurrentReady, hcur]
  · refine ⟨_, htable, fun p hp => ?_, ?_⟩
    · rw [join, Function.update_of_ne (by simp)]
      exact hwait p (hlive p hp)
    · rw [CurrentReady, hcur]
      exact hready.imp_right fun hm => mem_join.mpr (.inl hm)

/-! ## Killing -/

/-- The locks that the death of `pid` may open. -/
def Opened (pid : Pid) (k k' : Kernel) : Prop :=
  ∀ m, k'.mutexes m = k.mutexes m ∨
    ((k.mutexes m).owner = pid ∧ k'.mutexes m = ⟨.unlocked, 0⟩)

theorem Opened.trans {pid : Pid} {k k' k'' : Kernel} (h : Opened pid k k')
    (h' : Opened pid k' k'') : Opened pid k k'' := by
  intro m
  rcases h m with h₁ | ⟨h₁, h₂⟩ <;> rcases h' m with h₃ | ⟨h₃, h₄⟩
  · exact .inl (h₃.trans h₁)
  · exact .inr ⟨h₁ ▸ h₃, h₄⟩
  · exact .inr ⟨h₁, h₃.trans h₂⟩
  · exact .inr ⟨h₁, h₄⟩

/-- The part of `Frame` that `kill` keeps. -/
structure KillFrame (k k' : Kernel) : Prop where
  pidList : k'.pidList = k.pidList
  kont : k'.kont = k.kont
  pid : ∀ p, (k'.pcb p).pid = (k.pcb p).pid
  currentRunning : k'.currentRunning = k.currentRunning

theorem KillFrame.trans {k k' k'' : Kernel} (h : KillFrame k k') (h' : KillFrame k' k'') :
    KillFrame k k'' :=
  ⟨h'.pidList.trans h.pidList, h'.kont.trans h.kont, fun p => (h'.pid p).trans (h.pid p),
    h'.currentRunning.trans h.currentRunning⟩

theorem Woken.killFrame (h : Woken k L S k' L') : KillFrame k k' :=
  ⟨h.2.2.1.pidList, h.2.2.1.kont, h.2.2.1.pid, h.2.2.2⟩

theorem killLock_spec {pid : Pid} {i : Nat} (ht : Table k L S) :
    Meets IsPanic
      (fun k' => ∃ L', Table k' L' S ∧ Wakes L L' ∧ KillFrame k k' ∧ Opened pid k k' ∧
        (k.view L).KillLock pid i (k'.view L'))
      (k.killLock pid i) := by
  unfold Kernel.killLock View.KillLock
  by_cases howner : (k.mutexes i).owner = pid
  · rw [if_pos howner]
    refine (doUnblockOne_wakesOne ht (.mutex i)).bind fun k₁ hk₁ => ?_
    obtain ⟨L', hwoken, hwakes⟩ := hk₁
    have hmutexes := hwoken.2.2.1.mutexes
    have ht' : Table (k₁.modifyPcb pid fun p => { p with lockNum := p.lockNum - 1 }) L' S :=
      hwoken.1.modifyPcb ⟨rfl, rfl, fun he =>
        ⟨he.priority, he.schedulerPriority, he.waitTime⟩⟩
    refine ⟨L', ht'.congr rfl rfl fun _ => Pcb.Keeps.refl _, hwoken.2.1,
      hwoken.killFrame.trans ⟨rfl, rfl, ?_, rfl⟩, ?_, ?_⟩
    · intro p
      by_cases hp : p = pid <;> simp [Kernel.modifyPcb, hp]
    · intro m
      by_cases hm : m = i
      · subst hm
        exact .inr ⟨howner, by simp⟩
      · exact .inl (by simp [Kernel.modifyPcb, hm, hmutexes])
    · have howner' : ((k.view L).mutexes i).owner = pid := howner
      rw [if_pos howner']
      refine ⟨_, hwakes, ?_⟩
      rw [← addLocks_view]
      rfl
  · rw [if_neg howner]
    have howner' : ((k.view L).mutexes i).owner ≠ pid := howner
    refine ⟨L, ht, Wakes.refl L, ⟨rfl, rfl, fun _ => rfl, rfl⟩, fun m => .inl rfl, ?_⟩
    rw [if_neg howner']

theorem killLocks_spec {pid : Pid} (locks : List Nat) :
    ∀ {k : Kernel} {L : QueueId → List Pid}, Table k L S →
      Meets IsPanic
        (fun k' => ∃ L', Table k' L' S ∧ Wakes L L' ∧ KillFrame k k' ∧ Opened pid k k' ∧
          View.KillLocks pid locks (k.view L) (k'.view L'))
        (Kernel.killLocks pid locks k) := by
  induction locks with
  | nil =>
      intro k L ht
      exact ⟨L, ht, Wakes.refl L, ⟨rfl, rfl, fun _ => rfl, rfl⟩, fun m => .inl rfl, rfl⟩
  | cons i rest ih =>
      intro k L ht
      rw [Kernel.killLocks]
      by_cases hnum : (k.pcb pid).lockNum > 0
      · rw [if_pos hnum]
        refine (killLock_spec ht).bind fun k₁ hk₁ => ?_
        obtain ⟨L₁, ht₁, hwakes₁, hframe₁, hopened₁, hview₁⟩ := hk₁
        refine (ih ht₁).mono fun k₂ hk₂ => ?_
        obtain ⟨L₂, ht₂, hwakes₂, hframe₂, hopened₂, hview₂⟩ := hk₂
        refine ⟨L₂, ht₂, hwakes₁.trans hwakes₂, hframe₁.trans hframe₂,
          hopened₁.trans hopened₂, ?_⟩
        have hnum' : (k.view L).lockNum pid > 0 := hnum
        rw [View.KillLocks, if_pos hnum']
        exact ⟨_, hview₁, hview₂⟩
      · rw [if_neg hnum]
        refine ⟨L, ht, Wakes.refl L, ⟨rfl, rfl, fun _ => rfl, rfl⟩, fun m => .inl rfl, ?_⟩
        have hnum' : ¬ (k.view L).lockNum pid > 0 := hnum
        rw [View.KillLocks, if_neg hnum']

/-- What `kill` leaves: nothing happened, or the live task `pid` is gone. -/
def Killed (k k' : Kernel) : Prop :=
  (k'.pidList = k.pidList ∧ k'.mutexes = k.mutexes ∧ k'.kont = k.kont) ∨
    ∃ pid, k.Live pid ∧ (∀ p, k'.Live p ↔ p ≠ pid ∧ k.Live p) ∧ Opened pid k k' ∧
      ∀ p, p ≠ pid → k'.kont p = k.kont p

/-- The pid list after `kill(pid)`. -/
def killPids (l : Slist) (pid : Int) : Slist :=
  if pid = 1 then l else (slistFree l pid maxTaskNum).2

/-- Freeing a pid and unlinking its PCB. -/
private theorem Table.killed {pid : Pid} {q : QueueId} {pidList : Slist}
    {heap : LinkHeap Pid QueueId} (ht : Table k L S) (hp : pid ∈ L q)
    (hholds : heap.Holds (leave L q pid))
    (hfree : ∃ free, Implements pidList maxTaskNum free)
    (hlive : ∀ p, Allocated pidList maxTaskNum p ↔ p ≠ pid ∧ k.Live p) :
    Table { k with pidList, heap } (leave L q pid) S := by
  refine ⟨hholds, hfree, ?_, ?_, ?_, ?_, ?_, ?_, ?_⟩
  · exact fun hx => ht.queue_eq ((ht.mem_leave hp).mp hx).1
  · intro q' x hx
    have := (ht.mem_leave hp).mp hx
    exact (hlive x).mpr ⟨this.2, ht.live this.1⟩
  · intro x hx hS
    obtain ⟨hne, hl⟩ := (hlive x).mp hx
    obtain ⟨q', hq'⟩ := ht.covered hl hS
    exact ⟨q', (ht.mem_leave hp).mpr ⟨hq', hne⟩⟩
  · intro q' x hS hx
    exact ht.outside hS ((ht.mem_leave hp).mp hx).1
  · intro x hS
    refine (hlive x).mpr ⟨?_, ht.live_of_outside hS⟩
    rintro rfl
    exact ht.outside hS hp
  · intro x hx
    exact ht.pid_eq (hx.imp_left fun hl => ((hlive x).mp hl).2)
  · intro x hx
    exact ht.eligible ((hlive x).mp hx).2

/-- `kill` of a live task, from the state in which its pid and its PCB are free. -/
theorem kill_live (ht : Table k L S) (hS : ∀ p, ¬ S p) {i : Pid} (hone : (i : Int) ≠ 1)
    (hi : k.Live i) :
    ∃ q pidList heap, i ∈ L q ∧ slistFree k.pidList i maxTaskNum = (true, pidList) ∧
      Table { k with pidList, heap } (leave L q i) S ∧
      (∀ p, Kernel.Live { k with pidList, heap } p ↔ p ≠ i ∧ k.Live p) ∧
      k.kill i =
        (Kernel.killLocks i (List.range maxLocksNum) { k with pidList, heap } >>= fun k =>
          k.doUnblockAll (.wait i) >>= fun k =>
            if (k.pcb k.currentRunning).pid = i then k.doScheduler .ret
            else .ok (k.setReg2 1)) := by
  obtain ⟨free, hfree⟩ := ht.free
  obtain ⟨htrue, himpl, hlive⟩ := slistFree_allocated hfree hi
  obtain ⟨pidList, hsplit⟩ : ∃ pidList, slistFree k.pidList i maxTaskNum = (true, pidList) :=
    ⟨_, Prod.ext htrue rfl⟩
  rw [hsplit] at himpl hlive
  obtain ⟨q, hq⟩ := ht.covered hi (hS i)
  obtain ⟨heap, hremove, hholds⟩ := ht.remove hq
  have hremove' : { k with pidList }.remove q i = .ok { k with pidList, heap } := by
    unfold Kernel.remove at hremove ⊢
    obtain ⟨x, hx, hy⟩ := bind_eq_ok.mp hremove
    simp only [hx, ok_bind]
    cases hy
    rfl
  refine ⟨q, pidList, heap, hq, hsplit, ht.killed hq hholds ⟨_, himpl⟩ hlive, hlive, ?_⟩
  unfold Kernel.kill
  rw [if_neg hone, hsplit]
  simp only [Int.toNat_natCast, ht.queue_eq hq, hremove', ok_bind]
  rfl

theorem kill_view (ht : Table k L S) (hwait : WaitNil k L) (hready : CurrentReady boot k L)
    (hS : ∀ p, ¬ S p) (pid : Int) :
    Meets IsPanic
      (fun k' => ∃ L', Table k' L' S ∧ WaitNil k' L' ∧ CurrentReady boot k' L' ∧
        Killed k k' ∧ k'.pidList = killPids k.pidList pid ∧
        (k.view L).KillStep pid (k'.view L'))
      (k.kill pid) := by
  unfold killPids
  have hrefused : Table (k.setReg2 0) L S :=
    ht.modifyPcb ⟨rfl, rfl, fun he => ⟨he.priority, he.schedulerPriority, he.waitTime⟩⟩
  by_cases hone : pid = 1
  · rw [Kernel.kill, if_pos hone, if_pos hone]
    exact ⟨L, hrefused, hwait, hready, .inl ⟨rfl, rfl, rfl⟩, rfl,
      .inl ⟨.inl hone, setReg2_view k L 0⟩⟩
  rw [if_neg hone]
  by_cases hvalid : slistIsValid k.pidList pid maxTaskNum = true
  · obtain ⟨i, rfl, hi⟩ := slistIsValid_iff.mp hvalid
    obtain ⟨q, pidList, heap, hq, hsplit, ht₁, hlive, hkill⟩ := kill_live ht hS hone hi
    rw [hsplit, hkill]
    refine (killLocks_spec _ ht₁).bind fun k₂ hk₂ => ?_
    obtain ⟨L₂, ht₂, hwakes₂, hframe₂, hopened, hlocks⟩ := hk₂
    refine (doUnblockAll_view ht₂ (by simp)).bind fun k₃ hk₃ => ?_
    obtain ⟨L₃, hwoken₃, hnil, hview₃⟩ := hk₃
    have hremoved : Kernel.view { k with pidList, heap } (leave L q i) =
        (k.view L).remove q i := by
      ext1
      case live => exact funext fun p => propext (hlive p)
      all_goals rfl
    rw [hremoved] at hlocks
    have ht₃ := hwoken₃.1
    have hframe₃ : KillFrame { k with pidList, heap } k₃ :=
      hframe₂.trans hwoken₃.killFrame
    have hwakes₃ : Wakes (leave L q i) L₃ := hwakes₂.trans hwoken₃.2.1
    have hlive₃ : ∀ p, k₃.Live p ↔ p ≠ i ∧ k.Live p := by
      intro p
      rw [Kernel.Live, hframe₃.pidList]
      exact hlive p
    have hopened₃ : Opened i k k₃ := by
      intro m
      rw [hwoken₃.2.2.1.mutexes]
      exact hopened m
    have hwait₃ : WaitNil k₃ L₃ := by
      intro p hp
      by_cases hpi : p = i
      · rw [hpi]; exact hnil
      · have hdead : ¬ k.Live p := fun hl => hp ((hlive₃ p).mpr ⟨hpi, hl⟩)
        refine List.subset_nil.mp fun x hx => ?_
        have := ((ht.mem_leave hq).mp (hwakes₃.other _ (by simp) hx)).1
        rwa [hwait p hdead] at this
    have hcur₃ : k₃.currentRunning = k.currentRunning := hframe₃.currentRunning
    have hpid₃ : ∀ p, (k₃.pcb p).pid = (k.pcb p).pid := hframe₃.pid
    by_cases hself : k.currentRunning = i
    · have hi' : (k₃.pcb k₃.currentRunning).pid = i := by
        rw [hcur₃, hpid₃, hself]
        exact ht.pid_eq (.inl hi)
      rw [if_pos hi']
      refine (doScheduler_view ht₃ .ret).mono fun k₄ hk₄ => ?_
      obtain ⟨ht₄, hframe₄, hcur₄, hview₄⟩ := hk₄
      refine ⟨L₃, ht₄, hwait₃.congr hframe₄.pidList fun p => List.Subset.refl _, .inr hcur₄,
        .inr ⟨i, hi, ?_, ?_, ?_⟩, hframe₄.pidList.trans hframe₃.pidList,
        .inr ⟨hone, i, ⟨rfl, hi⟩, q, k₂.view L₂, hq, hlocks, ?_⟩⟩
      · intro p
        rw [Kernel.Live, hframe₄.pidList]
        exact hlive₃ p
      · intro m
        rw [hframe₄.mutexes]
        exact hopened₃ m
      · intro p hp
        rw [hframe₄.kont, Kernel.park, hcur₃, hself]
        simp only [Function.update_of_ne hp]
        rw [hframe₃.kont]
      · rw [if_pos (show (k.view L).current = i from hself), ← hview₃]
        exact ⟨_, hcur₄, hview₄⟩
    · have hcur : k.currentRunning = 0 ∨ k.Live k.currentRunning :=
        hready.imp And.right fun hm => ht.live hm
      have hi' : (k₃.pcb k₃.currentRunning).pid ≠ i := by
        rw [hcur₃, hpid₃, ht.pid_eq hcur.symm]
        exact hself
      rw [if_neg hi']
      have ht₄ : Table (k₃.setReg2 1) L₃ S :=
        ht₃.modifyPcb ⟨rfl, rfl, fun he => ⟨he.priority, he.schedulerPriority, he.waitTime⟩⟩
      refine ⟨L₃, ht₄, hwait₃, ?_, .inr ⟨i, hi, hlive₃, hopened₃, ?_⟩, hframe₃.pidList,
        .inr ⟨hone, i, ⟨rfl, hi⟩, q, k₂.view L₂, hq, hlocks, ?_⟩⟩
      · change (boot ∧ k₃.currentRunning = 0) ∨ k₃.currentRunning ∈ L₃ .ready
        rw [hcur₃]
        refine hready.imp_right fun hm => hwakes₃.ready ((ht.mem_leave hq).mpr ⟨hm, hself⟩)
      · intro p _
        change k₃.kont p = k.kont p
        rw [hframe₃.kont]
      · rw [if_neg (show (k.view L).current ≠ i from hself), setReg2_view, hview₃]
  · rw [Kernel.kill, if_neg hone, slistFree_invalid (by simpa using hvalid)]
    refine ⟨L, hrefused, hwait, hready, .inl ⟨rfl, rfl, rfl⟩, rfl,
      .inl ⟨.inr ?_, setReg2_view k L 0⟩⟩
    rintro p ⟨rfl, hp⟩
    exact hvalid (slistIsValid_iff.mpr ⟨p, rfl, hp⟩)

theorem kill_inv (h : Inv k S boot) (hS : ∀ p, ¬ S p) (pid : Int) :
    Meets IsPanic
      (fun k' => Inv k' S boot ∧ Killed k k' ∧ k'.pidList = killPids k.pidList pid)
      (k.kill pid) := by
  obtain ⟨L, ht, hwait, hready⟩ := h
  refine (kill_view ht hwait hready hS pid).mono fun k' hk' => ?_
  obtain ⟨L', ht', hwait', hready', hkilled, hpids, -⟩ := hk'
  exact ⟨⟨L', ht', hwait', hready'⟩, hkilled, hpids⟩

end UcasOs.Sched
