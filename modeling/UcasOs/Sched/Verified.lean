import UcasOs.Sched.View

/-!
# The kernel functions keep the process table

One specification for each function of `sched.c`: it returns or panics, never
follows a NULL pointer, and leaves a process table again.
-/

namespace UcasOs.Sched

open UcasOs.Foundation UcasOs.Libs

/-- The state that moving and choosing tasks does not touch. -/
structure Frame (k k' : Kernel) : Prop where
  pidList : k'.pidList = k.pidList
  mutexes : k'.mutexes = k.mutexes
  semaphores : k'.semaphores = k.semaphores
  conditions : k'.conditions = k.conditions
  barriers : k'.barriers = k.barriers
  kont : k'.kont = k.kont
  pid : ∀ p, (k'.pcb p).pid = (k.pcb p).pid
  priority : ∀ p, (k'.pcb p).priority = (k.pcb p).priority
  lockNum : ∀ p, (k'.pcb p).lockNum = (k.pcb p).lockNum

theorem Frame.refl (k : Kernel) : Frame k k :=
  ⟨rfl, rfl, rfl, rfl, rfl, rfl, fun _ => rfl, fun _ => rfl, fun _ => rfl⟩

theorem Frame.trans {k k' k'' : Kernel} (h : Frame k k') (h' : Frame k' k'') : Frame k k'' :=
  ⟨h'.pidList.trans h.pidList, h'.mutexes.trans h.mutexes,
    h'.semaphores.trans h.semaphores, h'.conditions.trans h.conditions,
    h'.barriers.trans h.barriers, h'.kont.trans h.kont,
    fun p => (h'.pid p).trans (h.pid p), fun p => (h'.priority p).trans (h.priority p),
    fun p => (h'.lockNum p).trans (h.lockNum p)⟩

theorem Frame.live {k k' : Kernel} (h : Frame k k') (p : Pid) : k'.Live p ↔ k.Live p := by
  rw [Kernel.Live, Kernel.Live, h.pidList]

/-! ## Choosing a task -/

section

variable (key : Pcb → Int)

@[simp] theorem raise_pcb (s : Kernel.Scan) (x : Pid) : (s.raise key x).pcb = s.pcb := by
  unfold Kernel.Scan.raise
  split <;> rfl

@[simp] theorem tie_pcb (s : Kernel.Scan) (x : Pid) : (s.tie key x).pcb = s.pcb := by
  unfold Kernel.Scan.tie
  split <;> rfl

theorem scanStep_pcb (s : Kernel.Scan) (x p : Pid) :
    ∃ w, (s.pcb p).waitTime ≤ w ∧
      (Kernel.scanStep key s x).pcb p = { s.pcb p with waitTime := w } := by
  by_cases hp : p = x
  · subst hp
    exact ⟨(s.pcb p).waitTime + 1, by omega, by simp [Kernel.scanStep, Kernel.Scan.age]⟩
  · exact ⟨(s.pcb p).waitTime, le_refl _, by simp [Kernel.scanStep, Kernel.Scan.age, hp]⟩

theorem scanStep_selected (s : Kernel.Scan) (x : Pid) :
    (Kernel.scanStep key s x).selected = some x ∨
      (Kernel.scanStep key s x).selected = s.selected := by
  simp only [Kernel.scanStep, Kernel.Scan.age, Kernel.Scan.tie]
  split
  · exact .inl rfl
  · unfold Kernel.Scan.raise
    split
    · exact .inl rfl
    · exact .inr rfl

/-- The first task visited is selected, whatever its priority. -/
theorem scanStep_selected_first (s : Kernel.Scan) (x : Pid) (hpriority : s.maxPriority = 1)
    (hwait : s.maxWaitTime = 0) (hkey : 1 ≤ key (s.pcb x)) (hx : 0 ≤ (s.pcb x).waitTime) :
    (Kernel.scanStep key s x).selected = some x := by
  by_cases hgt : key (s.pcb x) > s.maxPriority
  · simp [Kernel.scanStep, Kernel.Scan.age, Kernel.Scan.tie, Kernel.Scan.raise, hgt]
  · have heq : key (s.pcb x) = 1 := by omega
    simp [Kernel.scanStep, Kernel.Scan.age, Kernel.Scan.tie, Kernel.Scan.raise, heq, hpriority,
      hwait, hx]

theorem foldl_scan_pcb (l : List Pid) (s : Kernel.Scan) (p : Pid) :
    ∃ w, (s.pcb p).waitTime ≤ w ∧
      (l.foldl (Kernel.scanStep key) s).pcb p = { s.pcb p with waitTime := w } := by
  induction l generalizing s with
  | nil => exact ⟨(s.pcb p).waitTime, le_refl _, rfl⟩
  | cons x l ih =>
      obtain ⟨w, hw, heq⟩ := scanStep_pcb key s x p
      obtain ⟨w', hw', heq'⟩ := ih (Kernel.scanStep key s x)
      rw [heq] at hw' heq'
      exact ⟨w', le_trans hw hw', heq'⟩

theorem foldl_scan_selected_mem (l : List Pid) (s : Kernel.Scan) (x : Pid)
    (hx : s.selected = some x) :
    ∃ y ∈ x :: l, (l.foldl (Kernel.scanStep key) s).selected = some y := by
  induction l generalizing s x with
  | nil => exact ⟨x, by simp, hx⟩
  | cons z l ih =>
      rcases scanStep_selected key s z with h | h
      · obtain ⟨y, hy, hsel⟩ := ih _ z h
        exact ⟨y, List.mem_cons_of_mem _ hy, hsel⟩
      · obtain ⟨y, hy, hsel⟩ := ih _ x (h.trans hx)
        refine ⟨y, ?_, hsel⟩
        rcases List.mem_cons.mp hy with rfl | hy
        · simp
        · simp [hy]

end

/-- A scan changes nothing but waiting times. -/
theorem scan_pcb (k : Kernel) (key : Pcb → Int) (q : QueueId) (selected : Option Pid) :
    Meets (fun _ => True)
      (fun s => ∀ p, ∃ w, (k.pcb p).waitTime ≤ w ∧ s.pcb p = { k.pcb p with waitTime := w })
      (k.scan key q selected) := by
  unfold Kernel.scan
  split
  · rename_i s hwalk
    refine k.heap.walk_invariant (P := fun s : Kernel.Scan => ∀ p, ∃ w,
      (k.pcb p).waitTime ≤ w ∧ s.pcb p = { k.pcb p with waitTime := w }) ?_
      (fun p => ⟨_, le_refl _, rfl⟩) hwalk
    intro s x hs p
    obtain ⟨w, hw, heq⟩ := hs p
    obtain ⟨w', hw', heq'⟩ := scanStep_pcb key s x p
    rw [heq] at hw' heq'
    exact ⟨w', le_trans hw hw', heq'⟩
  · trivial

theorem remove_heap (k : Kernel) (q : QueueId) (x : Pid) :
    Meets (fun _ => True) (fun k' => ∃ heap, k' = { k with heap }) (k.remove q x) := by
  unfold Kernel.remove
  cases queueRemove k.heap q x with
  | error fault => trivial
  | ok r => exact ⟨_, rfl⟩

theorem push_heap (k : Kernel) (q : QueueId) (x : Pid) :
    Meets (fun _ => True) (fun k' => ∃ heap, k' = { k with heap }) (k.push q x) := by
  unfold Kernel.push
  cases queuePush k.heap q x with
  | error fault => trivial
  | ok heap => exact ⟨_, rfl⟩

variable {k : Kernel} {L : QueueId → List Pid} {S : Pid → Prop}

/-- A scan selects a member of its queue and only ages the tasks there. -/
theorem Table.scan (h : Table k L S) (key : Pcb → Int) {q : QueueId} (hq : L q ≠ [])
    (hkey : ∀ p ∈ L q, 1 ≤ key (k.pcb p)) (selected : Option Pid) :
    ∃ s x, k.scan key q selected = .ok s ∧ s.selected = some x ∧ x ∈ L q ∧
      ∀ p, ∃ w, (k.pcb p).waitTime ≤ w ∧ s.pcb p = { k.pcb p with waitTime := w } := by
  have hwalk := k.heap.walk_eq_foldl (Kernel.scanStep key) (h.holds.represents q).seg
    (h.length_le q) ⟨k.pcb, selected, 1, 0⟩
  rw [← (h.holds.represents q).head_eq] at hwalk
  obtain ⟨first, rest, hcons⟩ := List.exists_cons_of_ne_nil hq
  have hfirst : first ∈ L q := by simp [hcons]
  have hsel := scanStep_selected_first key ⟨k.pcb, selected, 1, 0⟩ first rfl rfl
    (hkey first hfirst) (h.eligible (h.live hfirst)).waitTime
  obtain ⟨x, hx, hselected⟩ := foldl_scan_selected_mem key rest _ first hsel
  refine ⟨_, x, by rw [Kernel.scan, hwalk], ?_, hcons ▸ hx, ?_⟩
  · rw [hcons, List.foldl_cons]
    exact hselected
  · intro p
    exact foldl_scan_pcb key (L q) ⟨k.pcb, selected, 1, 0⟩ p

private theorem keeps_of_waitTime {b : Pcb} {w : Int} (hw : b.waitTime ≤ w) :
    b.Keeps { b with waitTime := w } :=
  ⟨rfl, rfl, fun h => ⟨h.priority, h.schedulerPriority, le_trans h.waitTime hw⟩⟩

theorem saveCurrent_keeps (k : Kernel) (p : Pid) :
    (k.pcb p).Keeps (k.saveCurrent.pcb p) := by
  by_cases hp : p = k.currentRunning
  · subst hp
    simp only [Kernel.saveCurrent, Kernel.modifyPcb, Function.update_self]
    exact ⟨rfl, rfl, fun h => ⟨h.priority, h.schedulerPriority, h.waitTime⟩⟩
  · simpa [Kernel.saveCurrent, Kernel.modifyPcb, hp] using Pcb.Keeps.refl _

theorem switchTo_keeps (k : Kernel) (next p : Pid) :
    (k.pcb p).Keeps ((k.switchTo next).pcb p) := by
  by_cases hp : p = next
  · subst hp
    simp only [Kernel.switchTo, Kernel.modifyPcb, Function.update_self]
    refine ⟨rfl, rfl, fun h => ⟨h.priority, ?_, le_refl _⟩⟩
    have := h.schedulerPriority
    dsimp only
    split <;> omega
  · simpa [Kernel.switchTo, Kernel.modifyPcb, hp] using Pcb.Keeps.refl _

theorem saveCurrent_frame (k : Kernel) : Frame k k.saveCurrent := by
  refine ⟨rfl, rfl, rfl, rfl, rfl, rfl, ?_, ?_, ?_⟩ <;> intro p <;>
    by_cases hp : p = k.currentRunning <;>
    simp [Kernel.saveCurrent, Kernel.modifyPcb, hp]

theorem switchTo_frame (k : Kernel) (next : Pid) : Frame k (k.switchTo next) := by
  refine ⟨rfl, rfl, rfl, rfl, rfl, rfl, ?_, ?_, ?_⟩ <;> intro p <;>
    by_cases hp : p = next <;>
    simp [Kernel.switchTo, Kernel.modifyPcb, hp]

/-! ## Views of updated kernels -/

/-- An update of one PCB, seen from outside. -/
theorem modifyPcb_view (k : Kernel) (L : QueueId → List Pid) (p : Pid) (f : Pcb → Pcb) :
    (k.modifyPcb p f).view L =
      { k.view L with
        status := Function.update (k.view L).status p (f (k.pcb p)).status
        awakened := Function.update (k.view L).awakened p (f (k.pcb p)).awakenedTime
        lockNum := Function.update (k.view L).lockNum p (f (k.pcb p)).lockNum
        cursor := Function.update (k.view L).cursor p
          ((f (k.pcb p)).cursorX, (f (k.pcb p)).cursorY) } := by
  ext1
  case status | awakened | lockNum | cursor =>
      funext x
      by_cases hx : x = p <;> simp [Kernel.modifyPcb, Kernel.view, hx]
  all_goals rfl

theorem setStatus_view (k : Kernel) (L : QueueId → List Pid) (p : Pid) (status : TaskStatus) :
    (k.modifyPcb p fun b => { b with status }).view L =
      { k.view L with status := Function.update (k.view L).status p status } := by
  rw [modifyPcb_view]
  ext1
  case awakened | lockNum | cursor => exact Function.update_eq_self_iff.mpr rfl
  all_goals rfl

theorem addLocks_view (k : Kernel) (L : QueueId → List Pid) (p : Pid) (n : Int) :
    (k.modifyPcb p fun b => { b with lockNum := b.lockNum + n }).view L =
      (k.view L).addLocks p n := by
  rw [modifyPcb_view]
  ext1
  case awakened | status | cursor => exact Function.update_eq_self_iff.mpr rfl
  all_goals rfl

theorem setReg2_view (k : Kernel) (L : QueueId → List Pid) (value : BitVec 32) :
    (k.setReg2 value).view L = k.view L := by
  rw [Kernel.setReg2, modifyPcb_view]
  ext1
  case awakened | status | lockNum | cursor => exact Function.update_eq_self_iff.mpr rfl
  all_goals rfl

theorem aged_view {pcb : Pid → Pcb}
    (hpcb : ∀ p, ∃ w, (k.pcb p).waitTime ≤ w ∧ pcb p = { k.pcb p with waitTime := w }) :
    Kernel.view { k with pcb } L = k.view L := by
  ext1
  case status | awakened | lockNum | cursor =>
      funext p
      obtain ⟨w, -, heq⟩ := hpcb p
      simp [Kernel.view, heq]
  all_goals rfl

theorem saveCurrent_view (k : Kernel) (L : QueueId → List Pid) :
    k.saveCurrent.view L =
      { k.view L with
        status := Function.update (k.view L).status k.currentRunning
          (if (k.view L).status k.currentRunning = .running then .ready
            else (k.view L).status k.currentRunning)
        cursor := Function.update (k.view L).cursor k.currentRunning (k.view L).screen } := by
  rw [Kernel.saveCurrent, modifyPcb_view]
  ext1
  case awakened | lockNum => exact Function.update_eq_self_iff.mpr rfl
  all_goals rfl

theorem switchTo_view (k : Kernel) (L : QueueId → List Pid) (next : Pid) :
    (k.switchTo next).view L =
      { k.view L with
        current := next
        status := Function.update (k.view L).status next .running
        screen := (k.view L).cursor next } := by
  ext1
  case status | awakened | lockNum | cursor =>
      funext x
      by_cases hx : x = next <;> simp [Kernel.switchTo, Kernel.modifyPcb, Kernel.view, hx]
  case screen => simp [Kernel.switchTo, Kernel.modifyPcb, Kernel.view]
  all_goals rfl

theorem scheduler_view (h : Table k L S) :
    Meets IsPanic
      (fun k' => Table k' L S ∧ Frame k k' ∧ k'.currentRunning ∈ L .ready ∧
        k'.view L = (k.view L).switch (k.kont k.currentRunning) k'.currentRunning)
      k.scheduler := by
  unfold Kernel.scheduler
  by_cases hempty : queueIsEmpty k.heap .ready = true
  · rw [if_pos hempty]
    trivial
  · have hne : L .ready ≠ [] := fun hnil => hempty ((queueIsEmpty_iff h.holds).mpr hnil)
    rw [if_neg hempty]
    have hsaved : Table k.saveCurrent L S := h.congr rfl rfl (saveCurrent_keeps k)
    obtain ⟨s, x, hscan, hselected, hx, hpcb⟩ := hsaved.scan Pcb.schedulerPriority hne
      (fun p hp => (hsaved.eligible (hsaved.live hp)).schedulerPriority)
      (some k.saveCurrent.currentRunning)
    simp only [hscan, ok_bind, hselected, Option.getD_some]
    have hscanned : Table { k.saveCurrent with pcb := s.pcb } L S := by
      refine hsaved.congr rfl rfl fun p => ?_
      obtain ⟨w, hw, heq⟩ := hpcb p
      simpa only [heq] using keeps_of_waitTime hw
    have hframe : Frame k.saveCurrent { k.saveCurrent with pcb := s.pcb } := by
      refine ⟨rfl, rfl, rfl, rfl, rfl, rfl, ?_, ?_, ?_⟩ <;> intro p <;>
        obtain ⟨w, -, heq⟩ := hpcb p <;> simp [heq]
    refine ⟨hscanned.congr rfl rfl (switchTo_keeps _ x), ?_, hx, ?_⟩
    · exact ((saveCurrent_frame k).trans hframe).trans (switchTo_frame _ x)
    · rw [switchTo_view, aged_view hpcb, saveCurrent_view]
      ext1
      case kont => exact (Function.update_eq_self_iff.mpr rfl).symm
      all_goals rfl

theorem modifyPcb_frame (k : Kernel) (p : Pid) (f : Pcb → Pcb)
    (hf : ∀ b, (f b).pid = b.pid ∧ (f b).priority = b.priority ∧ (f b).lockNum = b.lockNum) :
    Frame k (k.modifyPcb p f) := by
  refine ⟨rfl, rfl, rfl, rfl, rfl, rfl, ?_, ?_, ?_⟩ <;> intro p' <;>
    by_cases hp : p' = p <;> simp [Kernel.modifyPcb, hp, hf]

/-- The state that saves `kont` as what the running task goes on with. -/
def Kernel.park (k : Kernel) (kont : Kont) : Kernel :=
  { k with kont := Function.update k.kont k.currentRunning kont }

theorem doScheduler_view (h : Table k L S) (kont : Kont) :
    Meets IsPanic
      (fun k' => Table k' L S ∧ Frame (k.park kont) k' ∧ k'.currentRunning ∈ L .ready ∧
        k'.view L = (k.view L).switch kont k'.currentRunning)
      (k.doScheduler kont) := by
  have hparked : Table (k.park kont) L S := h.congr rfl rfl fun _ => Pcb.Keeps.refl _
  refine (scheduler_view hparked).mono fun k' hk' => ?_
  obtain ⟨ht, hframe, hcur, hview⟩ := hk'
  refine ⟨ht, hframe, hcur, hview.trans ?_⟩
  ext1
  case kont => simp [View.switch, Kernel.park, Kernel.view]
  all_goals rfl

theorem doScheduler_spec (h : Table k L S) (kont : Kont) :
    Meets IsPanic
      (fun k' => Table k' L S ∧ Frame (k.park kont) k' ∧ k'.currentRunning ∈ L .ready)
      (k.doScheduler kont) :=
  (doScheduler_view h kont).mono fun _ hk' => ⟨hk'.1, hk'.2.1, hk'.2.2.1⟩

theorem doWait_view (h : Table k L S) (hcur : k.currentRunning ∈ L .ready) (q : QueueId)
    (status : TaskStatus) (kont : Kont) :
    Meets IsPanic
      (fun k' => Table k' (join (leave L .ready k.currentRunning) q k.currentRunning) S ∧
        Frame (k.park kont) k' ∧
        k'.currentRunning ∈ join (leave L .ready k.currentRunning) q k.currentRunning .ready ∧
        k'.view (join (leave L .ready k.currentRunning) q k.currentRunning) =
          ((k.view L).block q status).switch kont k'.currentRunning)
      (k.doWait k.currentRunning q status kont) := by
  obtain ⟨heap, hremove, hholds⟩ := h.remove hcur
  obtain ⟨heap', hpush, htable⟩ := h.relinked hcur hholds q
  have hlive := h.live hcur
  unfold Kernel.doWait
  simp only [hremove, ok_bind, hpush]
  generalize hk₁ : Kernel.modifyPcb _ _ _ = k₁
  have hk₁' : k₁ = { k with
      heap := heap'
      pcb := Function.update k.pcb k.currentRunning
        { k.pcb k.currentRunning with queue := some q, status } } := hk₁.symm
  have htable₁ : Table k₁ (join (leave L .ready k.currentRunning) q k.currentRunning) S := by
    refine htable k₁ ?_ ?_ ?_ ?_ ?_ ?_ <;> rw [hk₁']
    · intro x hx
      simpa [hx] using Pcb.Keeps.refl _
    · simp
    · simpa using h.pid_eq (.inl hlive)
    · have := h.eligible hlive
      simp only [Function.update_self]
      exact ⟨this.priority, this.schedulerPriority, this.waitTime⟩
  have hframe : Frame (k.park kont) (k₁.park kont) := by
    subst hk₁'
    refine ⟨rfl, rfl, rfl, rfl, rfl, rfl, ?_, ?_, ?_⟩ <;> intro x <;>
      by_cases hx : x = k.currentRunning <;> simp [Kernel.park, hx]
  have hview : k₁.view (join (leave L .ready k.currentRunning) q k.currentRunning) =
      (k.view L).block q status := by
    rw [← hk₁, modifyPcb_view]
    ext1
    case awakened | lockNum | cursor => exact Function.update_eq_self_iff.mpr rfl
    all_goals rfl
  refine (doScheduler_view htable₁ kont).mono fun k' hk' => ?_
  obtain ⟨ht', hframe', hcur', hview'⟩ := hk'
  exact ⟨ht', hframe.trans hframe', hcur', hview ▸ hview'⟩

theorem doWait_spec (h : Table k L S) (hcur : k.currentRunning ∈ L .ready) (q : QueueId)
    (status : TaskStatus) (kont : Kont) :
    Meets IsPanic
      (fun k' => Table k' (join (leave L .ready k.currentRunning) q k.currentRunning) S ∧
        Frame (k.park kont) k' ∧
        k'.currentRunning ∈ join (leave L .ready k.currentRunning) q k.currentRunning .ready)
      (k.doWait k.currentRunning q status kont) :=
  (doWait_view h hcur q status kont).mono fun _ hk' => ⟨hk'.1, hk'.2.1, hk'.2.2.1⟩

variable {tolerated : Fault → Prop}

/-- Waking a member of a block queue. -/
theorem wake_spec (h : Table k L S) {q : QueueId} {p : Pid} (hp : p ∈ L q) :
    Meets tolerated
      (fun k' => Table k' (join (leave L q p) .ready p) S ∧ Frame k k' ∧
        k'.currentRunning = k.currentRunning ∧
        k'.view (join (leave L q p) .ready p) = (k.view L).wake q p)
      (k.wake q p) := by
  have hlive := h.live hp
  have helig := h.eligible hlive
  unfold Kernel.wake
  generalize hk₁ : k.modifyPcb p _ = k₁
  have hk₁' : k₁ = { k with
      pcb := Function.update k.pcb p
        { k.pcb p with
          waitTime := 0, schedulerPriority := (k.pcb p).schedulerPriority + 1 } } := hk₁.symm
  have htable₁ : Table k₁ L S := by
    subst hk₁
    refine h.modifyPcb ⟨rfl, rfl, fun he => ⟨he.priority, ?_, le_refl _⟩⟩
    have := he.schedulerPriority
    dsimp only
    omega
  obtain ⟨heap, hremove, hholds⟩ := htable₁.remove hp
  obtain ⟨heap', hpush, htable⟩ := htable₁.relinked hp hholds .ready
  simp only [hremove, ok_bind, hpush]
  refine ⟨htable _ rfl rfl ?_ ?_ ?_ ?_, ?_, by rw [hk₁']; rfl, ?_⟩
  · intro x hx
    simpa [Kernel.modifyPcb, hx] using Pcb.Keeps.refl _
  · simp [Kernel.modifyPcb]
  · simpa [Kernel.modifyPcb] using htable₁.pid_eq (.inl (htable₁.live hp))
  · have := htable₁.eligible (htable₁.live hp)
    simp only [Kernel.modifyPcb, Function.update_self]
    exact ⟨this.priority, this.schedulerPriority, this.waitTime⟩
  · rw [hk₁']
    refine ⟨rfl, rfl, rfl, rfl, rfl, rfl, ?_, ?_, ?_⟩ <;> intro x <;>
      by_cases hx : x = p <;> simp [Kernel.modifyPcb, hx]
  · rw [hk₁']
    ext1
    case status | awakened | lockNum | cursor =>
        funext x
        by_cases hx : x = p <;> simp [Kernel.modifyPcb, Kernel.view, View.wake, hx]
    all_goals rfl

/-- One task is woken, if the queue has any. -/
theorem doUnblockOne_view (h : Table k L S) (q : QueueId) :
    Meets tolerated
      (fun k' => Frame k k' ∧ k'.currentRunning = k.currentRunning ∧
        ((L q = [] ∧ k' = k) ∨
          ∃ p ∈ L q, Table k' (join (leave L q p) .ready p) S ∧
            k'.view (join (leave L q p) .ready p) = (k.view L).wake q p))
      (k.doUnblockOne q) := by
  unfold Kernel.doUnblockOne
  by_cases hempty : queueIsEmpty k.heap q = true
  · rw [if_pos hempty]
    exact ⟨Frame.refl k, rfl, .inl ⟨(queueIsEmpty_iff h.holds).mp hempty, rfl⟩⟩
  · have hne : L q ≠ [] := fun hnil => hempty ((queueIsEmpty_iff h.holds).mpr hnil)
    rw [if_neg hempty]
    obtain ⟨s, x, hscan, hselected, hx, hpcb⟩ := h.scan Pcb.priority hne
      (fun p hp => (h.eligible (h.live hp)).priority) none
    simp only [hscan, ok_bind, hselected]
    have hscanned : Table { k with pcb := s.pcb } L S := by
      refine h.congr rfl rfl fun p => ?_
      obtain ⟨w, hw, heq⟩ := hpcb p
      simpa only [heq] using keeps_of_waitTime hw
    have hframe : Frame k { k with pcb := s.pcb } := by
      refine ⟨rfl, rfl, rfl, rfl, rfl, rfl, ?_, ?_, ?_⟩ <;> intro p <;>
        obtain ⟨w, -, heq⟩ := hpcb p <;> simp [heq]
    refine (wake_spec hscanned hx).mono fun k' hk' => ?_
    obtain ⟨ht', hframe', hcur', hview'⟩ := hk'
    rw [aged_view hpcb] at hview'
    exact ⟨hframe.trans hframe', hcur', .inr ⟨x, hx, ht', hview'⟩⟩

theorem doUnblockOne_spec (h : Table k L S) (q : QueueId) :
    Meets tolerated
      (fun k' => Frame k k' ∧ k'.currentRunning = k.currentRunning ∧
        ((L q = [] ∧ k' = k) ∨
          ∃ p ∈ L q, Table k' (join (leave L q p) .ready p) S))
      (k.doUnblockOne q) := by
  refine (doUnblockOne_view h q).mono fun k' hk' => ?_
  obtain ⟨hframe, hcur, hnil | ⟨p, hp, ht, -⟩⟩ := hk'
  · exact ⟨hframe, hcur, .inl hnil⟩
  · exact ⟨hframe, hcur, .inr ⟨p, hp, ht⟩⟩

/-- What a function that makes tasks ready leaves. -/
def Woken (k : Kernel) (L : QueueId → List Pid) (S : Pid → Prop) (k' : Kernel)
    (L' : QueueId → List Pid) : Prop :=
  Table k' L' S ∧ Wakes L L' ∧ Frame k k' ∧ k'.currentRunning = k.currentRunning

theorem Woken.trans {k' k'' : Kernel} {L' L'' : QueueId → List Pid}
    (h : Woken k L S k' L') (h' : Woken k' L' S k'' L'') : Woken k L S k'' L'' :=
  ⟨h'.1, h.2.1.trans h'.2.1, h.2.2.1.trans h'.2.2.1, h'.2.2.2.trans h.2.2.2⟩

theorem doUnblockOne_wakesOne (h : Table k L S) (q : QueueId) :
    Meets tolerated
      (fun k' => ∃ L', Woken k L S k' L' ∧ (k.view L).WakesOne q (k'.view L'))
      (k.doUnblockOne q) := by
  refine (doUnblockOne_view h q).mono fun k' hk' => ?_
  obtain ⟨hframe, hcur, ⟨hnil, rfl⟩ | ⟨p, hp, htable, hview⟩⟩ := hk'
  · exact ⟨L, ⟨h, Wakes.refl L, hframe, hcur⟩, .inl ⟨hnil, rfl⟩⟩
  · exact ⟨_, ⟨htable, h.wakes_ready hp, hframe, hcur⟩, .inr ⟨p, hp, hview⟩⟩

theorem doUnblockOne_woken (h : Table k L S) (q : QueueId) :
    Meets tolerated (fun k' => ∃ L', Woken k L S k' L') (k.doUnblockOne q) := by
  refine (doUnblockOne_wakesOne h q).mono fun k' hk' => ?_
  obtain ⟨L', hwoken, -⟩ := hk'
  exact ⟨L', hwoken⟩

/-- One round of `do_unblock_all`: the first task of the queue is made ready. -/
theorem unblockAllLoop_round (h : Table k L S) {q : QueueId} {p : Pid} {rest : List Pid}
    (hcons : L q = p :: rest) (fuel : Nat) :
    ∃ k₁, Kernel.unblockAllLoop q (fuel + 1) k = Kernel.unblockAllLoop q fuel k₁ ∧
      Woken k L S k₁ (join (leave L q p) .ready p) ∧
      k₁.view (join (leave L q p) .ready p) = (k.view L).wake q p ∧
      (∀ x, x ≠ p → k₁.pcb x = k.pcb x) ∧
      k₁.pcb p = { k.pcb p with
        waitTime := 0
        schedulerPriority := (k.pcb p).schedulerPriority + 1
        queue := some .ready
        status := .ready } := by
  have hp : p ∈ L q := by simp [hcons]
  have hempty : ¬ queueIsEmpty k.heap q = true := by
    rw [queueIsEmpty_iff h.holds, hcons]
    simp
  have herase : (L q).erase p = rest := by rw [hcons, List.erase_cons_head]
  obtain ⟨heap, hdequeue, hholds⟩ := queueDequeue_holds h.holds hcons
  have hholds' : heap.Holds (leave L q p) := by rwa [leave, herase]
  obtain ⟨heap', hpush, htable⟩ := h.relinked hp hholds' .ready
  rw [Kernel.unblockAllLoop, if_neg hempty]
  simp only [hdequeue, ok_bind, hpush]
  generalize hk₁ : Kernel.modifyPcb _ p _ = k₁
  have hpcb : ∀ x, x ≠ p → k₁.pcb x = k.pcb x := by
    intro x hx
    simp [← hk₁, Kernel.modifyPcb, hx]
  have hself : k₁.pcb p = { k.pcb p with
      waitTime := 0
      schedulerPriority := (k.pcb p).schedulerPriority + 1
      queue := some .ready
      status := .ready } := by
    simp [← hk₁, Kernel.modifyPcb]
  have helig := h.eligible (h.live hp)
  have htable₁ : Table k₁ (join (leave L q p) .ready p) S := by
    refine htable k₁ (by rw [← hk₁]; rfl) (by rw [← hk₁]; rfl) ?_ ?_ ?_ ?_
    · intro x hx
      rw [hpcb x hx]
      exact Pcb.Keeps.refl _
    · rw [hself]
    · rw [hself]
      exact h.pid_eq (.inl (h.live hp))
    · rw [hself]
      refine ⟨helig.priority, ?_, le_refl _⟩
      have := helig.schedulerPriority
      dsimp only
      omega
  have hframe : Frame k k₁ := by
    rw [← hk₁]
    refine ⟨rfl, rfl, rfl, rfl, rfl, rfl, ?_, ?_, ?_⟩ <;> intro x <;>
      by_cases hx : x = p <;> simp [Kernel.modifyPcb, hx]
  refine ⟨k₁, rfl, ⟨htable₁, h.wakes_ready hp, hframe, by rw [← hk₁]; rfl⟩, ?_, hpcb, hself⟩
  rw [← hk₁]
  ext1
  case status | awakened | lockNum | cursor =>
      funext x
      by_cases hx : x = p <;> simp [Kernel.modifyPcb, Kernel.view, View.wake, hx]
  all_goals rfl

/-- The loop empties a queue no longer than its fuel. -/
theorem unblockAllLoop_spec {q : QueueId} (hq : q ≠ .ready) :
    ∀ (fuel : Nat) {k : Kernel} {L : QueueId → List Pid}, Table k L S →
      (L q).length ≤ fuel →
      Meets tolerated
        (fun k' => ∃ L', Woken k L S k' L' ∧ L' q = [] ∧
          k'.view L' = (k.view L).wakeAll q)
        (Kernel.unblockAllLoop q fuel k) := by
  intro fuel
  induction fuel with
  | zero =>
      intro k L h hlen
      have hnil : L q = [] := List.length_eq_zero_iff.mp (by omega)
      rw [Kernel.unblockAllLoop, if_pos ((queueIsEmpty_iff h.holds).mpr hnil)]
      exact ⟨L, ⟨h, Wakes.refl L, Frame.refl k, rfl⟩, hnil, (View.wakeAll_nil hnil).symm⟩
  | succ fuel ih =>
      intro k L h hlen
      by_cases hempty : queueIsEmpty k.heap q = true
      · have hnil := (queueIsEmpty_iff h.holds).mp hempty
        rw [Kernel.unblockAllLoop, if_pos hempty]
        exact ⟨L, ⟨h, Wakes.refl L, Frame.refl k, rfl⟩, hnil, (View.wakeAll_nil hnil).symm⟩
      · have hne : L q ≠ [] := fun hnil => hempty ((queueIsEmpty_iff h.holds).mpr hnil)
        obtain ⟨p, rest, hcons⟩ := List.exists_cons_of_ne_nil hne
        obtain ⟨k₁, hround, hstep, hview, -⟩ := unblockAllLoop_round h hcons fuel
        rw [hround]
        have hlen' : (join (leave L q p) .ready p q).length ≤ fuel := by
          rw [join, Function.update_of_ne hq, leave, Function.update_self, hcons,
            List.erase_cons_head]
          rw [hcons, List.length_cons] at hlen
          omega
        refine (ih hstep.1 hlen').mono fun k' hk' => ?_
        obtain ⟨L', hwoken, hnil, hview'⟩ := hk'
        rw [hview, View.wakeAll_wake hq hcons] at hview'
        exact ⟨L', hstep.trans hwoken, hnil, hview'⟩

theorem doUnblockAll_view (h : Table k L S) {q : QueueId} (hq : q ≠ .ready) :
    Meets tolerated
      (fun k' => ∃ L', Woken k L S k' L' ∧ L' q = [] ∧ k'.view L' = (k.view L).wakeAll q)
      (k.doUnblockAll q) :=
  unblockAllLoop_spec hq maxTaskNum h (h.length_le q)

theorem doUnblockAll_spec (h : Table k L S) {q : QueueId} (hq : q ≠ .ready) :
    Meets tolerated (fun k' => ∃ L', Woken k L S k' L' ∧ L' q = []) (k.doUnblockAll q) := by
  refine (doUnblockAll_view h hq).mono fun k' hk' => ?_
  obtain ⟨L', hwoken, hnil, -⟩ := hk'
  exact ⟨L', hwoken, hnil⟩

/-! ## Sleeping tasks -/

theorem checkSleepingLoop_none (fuel : Nat) (k : Kernel) :
    Kernel.checkSleepingLoop fuel none k = .ok k := by
  cases fuel <;> rfl

/-- The loop of `check_sleeping` over the rest `l` of the sleep queue. -/
theorem checkSleepingLoop_spec :
    ∀ (fuel : Nat) {k : Kernel} {L : QueueId → List Pid} {before l : List Pid},
      Table k L S → L .sleep = before ++ l → l.length ≤ fuel →
      Meets tolerated
        (fun k' => ∃ L', Woken k L S k' L' ∧
          k'.view L' = (l.find? fun p => (k.view L).Due p).elim (k.view L) (k.view L).awaken)
        (Kernel.checkSleepingLoop fuel l.head? k) := by
  intro fuel
  induction fuel with
  | zero =>
      intro k L before l h _ hlen
      have hnil : l = [] := List.length_eq_zero_iff.mp (by omega)
      rw [hnil]
      exact ⟨L, ⟨h, Wakes.refl L, Frame.refl k, rfl⟩, rfl⟩
  | succ fuel ih =>
      intro k L before l h hl hlen
      cases l with
      | nil => exact ⟨L, ⟨h, Wakes.refl L, Frame.refl k, rfl⟩, rfl⟩
      | cons p rest =>
          have hp : p ∈ L .sleep := by simp [hl]
          rw [List.length_cons] at hlen
          rw [List.head?_cons, Kernel.checkSleepingLoop]
          by_cases hdue : (k.pcb p).awakenedTime ≤ k.getTicks
          · rw [if_pos hdue]
            obtain ⟨heap, hremove, hholds⟩ := h.remove hp
            obtain ⟨heap', hpush, htable⟩ := h.relinked hp hholds .ready
            simp only [hremove, ok_bind, hpush, pure_bind]
            generalize hk₁ : Kernel.modifyPcb { k with heap := heap' } p _ = k₁
            have hself : k₁.pcb p = { k.pcb p with queue := some .ready } := by
              simp [← hk₁, Kernel.modifyPcb]
            have helig := h.eligible (h.live hp)
            have htable₁ : Table k₁ (join (leave L .sleep p) .ready p) S := by
              refine htable k₁ (by rw [← hk₁]; rfl) (by rw [← hk₁]; rfl) ?_ ?_ ?_ ?_
              · intro x hx
                simpa [← hk₁, Kernel.modifyPcb, hx] using Pcb.Keeps.refl _
              · rw [hself]
              · rw [hself]
                exact h.pid_eq (.inl (h.live hp))
              · rw [hself]
                exact ⟨helig.priority, helig.schedulerPriority, helig.waitTime⟩
            -- `p` is now the last ready task, so the loop ends here.
            have hnext : k₁.heap.next p = none := by
              have hrep := htable₁.holds.represents .ready
              have hready : join (leave L .sleep p) .ready p .ready =
                  leave L .sleep p .ready ++ p :: [] := by simp [join]
              rw [hready] at hrep
              exact hrep.links.2
            have hheap : (k₁.modifyPcb k₁.currentRunning
                fun b => { b with status := .ready }).heap = k₁.heap := rfl
            rw [hheap, hnext, checkSleepingLoop_none]
            have htable₂ : Table (k₁.modifyPcb k₁.currentRunning
                fun b => { b with status := .ready }) (join (leave L .sleep p) .ready p) S :=
              htable₁.modifyPcb ⟨rfl, rfl, fun he =>
                ⟨he.priority, he.schedulerPriority, he.waitTime⟩⟩
            have hframe : Frame k k₁ := by
              rw [← hk₁]
              refine ⟨rfl, rfl, rfl, rfl, rfl, rfl, ?_, ?_, ?_⟩ <;> intro x <;>
                by_cases hx : x = p <;> simp [Kernel.modifyPcb, hx]
            have hview : k₁.view (join (leave L .sleep p) .ready p) =
                { k.view L with queue := join (leave L .sleep p) .ready p } := by
              rw [← hk₁, modifyPcb_view]
              ext1
              case status | awakened | lockNum | cursor =>
                  exact Function.update_eq_self_iff.mpr rfl
              all_goals rfl
            refine ⟨_, ⟨htable₂, h.wakes_ready hp,
              hframe.trans (modifyPcb_frame _ _ _ fun b => ⟨rfl, rfl, rfl⟩), ?_⟩, ?_⟩
            · rw [← hk₁]
              rfl
            · have hfind : (p :: rest).find? (fun p => (k.view L).Due p) = some p :=
                List.find?_cons_of_pos (decide_eq_true hdue)
              have hcur : k₁.currentRunning = k.currentRunning := by rw [← hk₁]; rfl
              rw [hfind, setStatus_view, hview, hcur]
              rfl
          · rw [if_neg hdue]
            have hnext : k.heap.next p = rest.head? := by
              have hrep := h.holds.represents .sleep
              rw [hl] at hrep
              exact hrep.links.2
            have hl' : L .sleep = (before ++ [p]) ++ rest := by simp [hl]
            have hfind : (p :: rest).find? (fun p => (k.view L).Due p) =
                rest.find? fun p => (k.view L).Due p :=
              List.find?_cons_of_neg (by rw [decide_eq_true_eq]; exact hdue)
            rw [hfind]
            simpa [hnext] using ih h hl' (by omega)

theorem checkSleeping_view (h : Table k L S) :
    Meets tolerated (fun k' => ∃ L', Woken k L S k' L' ∧ k'.view L' = (k.view L).wakeSleeper)
      k.checkSleeping := by
  rw [Kernel.checkSleeping, (h.holds.represents .sleep).head_eq]
  exact checkSleepingLoop_spec maxTaskNum h (show L .sleep = [] ++ L .sleep from rfl)
    (h.length_le .sleep)

theorem checkSleeping_spec (h : Table k L S) :
    Meets tolerated (fun k' => ∃ L', Woken k L S k' L') k.checkSleeping := by
  refine (checkSleeping_view h).mono fun k' hk' => ?_
  obtain ⟨L', hwoken, -⟩ := hk'
  exact ⟨L', hwoken⟩

end UcasOs.Sched
