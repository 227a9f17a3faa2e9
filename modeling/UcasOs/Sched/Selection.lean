import UcasOs.Foundation.Aging
import UcasOs.Sched.Sleepers

/-!
# Who is selected

The loop that `scheduler` and `do_unblock_one` share finds a task of the
highest priority and, among those, one that has waited longest.  Repeated, the
scheduler lets the priorities down to 1 and then goes round the ready queue;
and who waits in a block queue is not overtaken by those who come later.
-/

namespace UcasOs.Sched

open UcasOs.Foundation UcasOs.Libs

/-- The priorities and the ages that a scan compares. -/
def standing (key : Pcb → Int) (pcb : Pid → Pcb) : Standing Pid :=
  ⟨fun p => key (pcb p), fun p => (pcb p).waitTime⟩

/-- The scan of `done` is over. -/
structure Scanned (key : Pcb → Int) (pcb : Pid → Pcb) (done : List Pid) (s : Kernel.Scan) :
    Prop where
  aged : ∀ p, s.pcb p =
    if p ∈ done then { pcb p with waitTime := (pcb p).waitTime + 1 } else pcb p
  initial : done = [] → s.maxPriority = 1 ∧ s.maxWaitTime = 0
  best : done ≠ [] → ∃ x, s.selected = some x ∧ (standing key pcb).Best done x ∧
    s.maxPriority = key (pcb x) ∧ s.maxWaitTime = (pcb x).waitTime

section

variable {key : Pcb → Int} {pcb : Pid → Pcb} {done : List Pid} {s : Kernel.Scan} {p : Pid}

/-- What a scan does at a task it has not seen. -/
theorem scanStep_cases (key : Pcb → Int) (hpcb : s.pcb p = pcb p) :
    (key (pcb p) > s.maxPriority ∧ Kernel.scanStep key s p =
        { s.age p with
          selected := some p, maxPriority := key (pcb p), maxWaitTime := (pcb p).waitTime }) ∨
      (key (pcb p) = s.maxPriority ∧ (pcb p).waitTime ≥ s.maxWaitTime ∧
        Kernel.scanStep key s p =
          { s.age p with selected := some p, maxWaitTime := (pcb p).waitTime }) ∨
      ((key (pcb p) < s.maxPriority ∨
          key (pcb p) = s.maxPriority ∧ (pcb p).waitTime < s.maxWaitTime) ∧
        Kernel.scanStep key s p = s.age p) := by
  unfold Kernel.scanStep Kernel.Scan.raise
  rw [hpcb]
  by_cases hgt : key (pcb p) > s.maxPriority
  · left
    rw [if_pos hgt]
    refine ⟨hgt, ?_⟩
    simp [Kernel.Scan.tie, Kernel.Scan.age, hpcb]
  · right
    rw [if_neg hgt, Kernel.Scan.tie, hpcb]
    by_cases htie : key (pcb p) = s.maxPriority ∧ (pcb p).waitTime ≥ s.maxWaitTime
    · left
      rw [if_pos htie]
      exact ⟨htie.1, htie.2, rfl⟩
    · right
      rw [if_neg htie]
      exact ⟨by omega, rfl⟩

theorem scan_age_pcb (h : Scanned key pcb done s) (hp : p ∉ done) (x : Pid) :
    (s.age p).pcb x =
      if x ∈ done ++ [p] then { pcb x with waitTime := (pcb x).waitTime + 1 } else pcb x := by
  by_cases hx : x = p
  · subst hx
    simp [Kernel.Scan.age, h.aged, hp]
  · simp [Kernel.Scan.age, h.aged, hx]

theorem best_snoc {x : Pid} {s : Standing Pid} {l : List Pid} (h : s.Best l x) {p : Pid}
    (hle : s.priority p ≤ s.priority x) (hage : s.priority p = s.priority x → s.age p ≤ s.age x) :
    s.Best (l ++ [p]) x := by
  refine ⟨List.mem_append_left _ h.mem, fun y hy => ?_, fun y hy heq => ?_⟩
  · rcases List.mem_append.mp hy with hy | hy
    · exact h.highest y hy
    · rw [List.mem_singleton] at hy
      exact hy ▸ hle
  · rcases List.mem_append.mp hy with hy | hy
    · exact h.oldest y hy heq
    · rw [List.mem_singleton] at hy
      subst hy
      exact hage heq

/-- The task just seen outdoes the best one so far. -/
theorem best_last {s : Standing Pid} {l : List Pid} {p : Pid}
    (h : l ≠ [] → ∃ x, s.Best l x ∧ s.priority x ≤ s.priority p ∧
      (s.priority x = s.priority p → s.age x ≤ s.age p)) : s.Best (l ++ [p]) p := by
  refine ⟨by simp, fun y hy => ?_, fun y hy heq => ?_⟩
  · rcases List.mem_append.mp hy with hy | hy
    · obtain ⟨x, hbest, hle, -⟩ := h (List.ne_nil_of_mem hy)
      exact le_trans (hbest.highest y hy) hle
    · rw [List.mem_singleton] at hy
      exact hy ▸ le_refl _
  · rcases List.mem_append.mp hy with hy | hy
    · obtain ⟨x, hbest, hle, hage⟩ := h (List.ne_nil_of_mem hy)
      have hyx : s.priority y = s.priority x := by
        have := hbest.highest y hy
        omega
      exact le_trans (hbest.oldest y hy hyx) (hage (by omega))
    · rw [List.mem_singleton] at hy
      exact hy ▸ le_refl _

theorem Scanned.step (h : Scanned key pcb done s) (hp : p ∉ done) (hkey : 1 ≤ key (pcb p))
    (hwait : 0 ≤ (pcb p).waitTime) : Scanned key pcb (done ++ [p]) (Kernel.scanStep key s p) := by
  have hpcb : s.pcb p = pcb p := by rw [h.aged, if_neg hp]
  have haged := scan_age_pcb h hp
  obtain ⟨hgt, heq⟩ | ⟨hmax, hage, heq⟩ | ⟨hless, heq⟩ := scanStep_cases key hpcb
  · rw [heq]
    refine ⟨haged, by simp, fun _ => ⟨p, rfl, best_last fun hne => ?_, rfl, rfl⟩⟩
    obtain ⟨x, -, hbest, hmax, -⟩ := h.best hne
    rw [hmax] at hgt
    exact ⟨x, hbest, le_of_lt hgt, fun hxp => absurd hxp (ne_of_lt hgt)⟩
  · rw [heq]
    refine ⟨haged, by simp, fun _ => ⟨p, rfl, best_last fun hne => ?_, hmax.symm, rfl⟩⟩
    obtain ⟨x, -, hbest, hmaxx, hwaitx⟩ := h.best hne
    rw [hwaitx] at hage
    exact ⟨x, hbest, le_of_eq (hmaxx.symm.trans hmax.symm), fun _ => hage⟩
  · rw [heq]
    have hne : done ≠ [] := by
      intro hnil
      obtain ⟨h1, h0⟩ := h.initial hnil
      omega
    obtain ⟨x, hselected, hbest, hmaxx, hwaitx⟩ := h.best hne
    refine ⟨haged, by simp, fun _ => ⟨x, hselected, best_snoc hbest ?_ ?_, hmaxx, hwaitx⟩⟩
    · change key (pcb p) ≤ key (pcb x)
      omega
    · intro hpx
      change (pcb p).waitTime ≤ (pcb x).waitTime
      change key (pcb p) = key (pcb x) at hpx
      omega

theorem Scanned.foldl {l : List Pid} (h : Scanned key pcb done s) (hnodup : (done ++ l).Nodup)
    (hkey : ∀ p ∈ l, 1 ≤ key (pcb p)) (hwait : ∀ p ∈ l, 0 ≤ (pcb p).waitTime) :
    Scanned key pcb (done ++ l) (l.foldl (Kernel.scanStep key) s) := by
  induction l generalizing done s with
  | nil => simpa using h
  | cons p l ih =>
      have hp : p ∉ done := by
        intro hmem
        exact (List.nodup_append.mp hnodup).2.2 p hmem p (by simp) rfl
      have hnext := h.step hp (hkey p (by simp)) (hwait p (by simp))
      rw [List.foldl_cons, show done ++ p :: l = done ++ [p] ++ l by simp]
      exact ih hnext (by simpa using hnodup) (fun x hx => hkey x (by simp [hx]))
        (fun x hx => hwait x (by simp [hx]))

end

/-- A scan of a queue that holds `l`. -/
theorem scan_represents {k : Kernel} {q : QueueId} {l : List Pid} (key : Pcb → Int)
    (hrep : k.heap.Represents q l) (hpids : ∀ p ∈ l, p < maxTaskNum)
    (hsound : (standing key k.pcb).Sound l) (selected : Option Pid) :
    ∃ s, k.scan key q selected = .ok s ∧ Scanned key k.pcb l s := by
  have hwalk := k.heap.walk_eq_foldl (Kernel.scanStep key) hrep.seg
    (length_le_of_lt hrep.nodup hpids) ⟨k.pcb, selected, 1, 0⟩
  rw [← hrep.head_eq] at hwalk
  have hstart : Scanned key k.pcb [] ⟨k.pcb, selected, 1, 0⟩ :=
    ⟨by simp, fun _ => ⟨rfl, rfl⟩, fun h => absurd rfl h⟩
  have hscanned := hstart.foldl (by simpa using hrep.nodup) hsound.priority hsound.age
  exact ⟨_, by rw [Kernel.scan, hwalk], hscanned⟩

/-! ## The scheduler -/

section

variable {k k' : Kernel} {l : List Pid}

/-- A ready queue in which every task can be selected. -/
structure ReadyTurns (l : List Pid) (k : Kernel) : Prop where
  queue : k.heap.Represents .ready l
  sound : (standing Pcb.schedulerPriority k.pcb).Sound l

theorem saveCurrent_standing (k : Kernel) :
    standing Pcb.schedulerPriority k.saveCurrent.pcb =
      standing Pcb.schedulerPriority k.pcb := by
  unfold standing Kernel.saveCurrent Kernel.modifyPcb
  congr 1
  · funext p
    by_cases hp : p = k.currentRunning <;> simp [hp]
  · funext p
    by_cases hp : p = k.currentRunning <;> simp [hp]

theorem switchTo_turn {pcb : Pid → Pcb} {s : Kernel.Scan} {x : Pid}
    (h : Scanned Pcb.schedulerPriority pcb l s)
    (hbest : (standing Pcb.schedulerPriority pcb).Best l x) (k : Kernel) :
    Turn l (standing Pcb.schedulerPriority pcb) x
      (standing Pcb.schedulerPriority (Kernel.switchTo { k with pcb := s.pcb } x).pcb) := by
  refine ⟨hbest, fun y hy => ?_, fun y hy => ?_⟩
  · by_cases hyx : y = x
    · subst hyx
      simp [standing, Kernel.switchTo, Kernel.modifyPcb, h.aged, hy, Standing.lower]
    · simp [standing, Kernel.switchTo, Kernel.modifyPcb, h.aged, hy, hyx]
  · by_cases hyx : y = x
    · subst hyx
      simp [standing, Kernel.switchTo, Kernel.modifyPcb]
    · simp [standing, Kernel.switchTo, Kernel.modifyPcb, h.aged, hy, hyx]

/-- The scheduler returns, and the task it has chosen has had a turn. -/
theorem scheduler_turn (h : ReadyTurns l k) (hne : l ≠ []) (hpids : ∀ p ∈ l, p < maxTaskNum) :
    ∃ k', k.scheduler = .ok k' ∧ k'.heap = k.heap ∧
      Turn l (standing Pcb.schedulerPriority k.pcb) k'.currentRunning
        (standing Pcb.schedulerPriority k'.pcb) := by
  have hsome : ¬ queueIsEmpty k.heap .ready = true := by
    rw [queueIsEmpty, Option.isNone_iff_eq_none, h.queue.head_eq_none]
    exact hne
  have hsound : (standing Pcb.schedulerPriority k.saveCurrent.pcb).Sound l := by
    rw [saveCurrent_standing]
    exact h.sound
  obtain ⟨s, hscan, hscanned⟩ := scan_represents (k := k.saveCurrent) Pcb.schedulerPriority
    h.queue hpids hsound (some k.saveCurrent.currentRunning)
  obtain ⟨x, hselected, hbest, -, -⟩ := hscanned.best hne
  refine ⟨Kernel.switchTo { k.saveCurrent with pcb := s.pcb } x, ?_, rfl, ?_⟩
  · unfold Kernel.scheduler
    rw [if_neg hsome]
    simp only [hscan, ok_bind, hselected, Option.getD_some]
    rfl
  · have hturn := switchTo_turn hscanned hbest k.saveCurrent
    rw [saveCurrent_standing] at hturn
    exact hturn

/-- Nothing joins or leaves the ready queue and no task there gets another priority or age. -/
structure Undisturbed (l : List Pid) (k k' : Kernel) : Prop where
  queue : k'.heap.Represents .ready l
  schedulerPriority : ∀ p ∈ l, (k'.pcb p).schedulerPriority = (k.pcb p).schedulerPriority
  waitTime : ∀ p ∈ l, (k'.pcb p).waitTime = (k.pcb p).waitTime

/-- Calls of the scheduler with the tasks they select, and anything in between that leaves the
ready queue undisturbed. -/
def schedulerSystem (l : List Pid) : Lts Kernel Pid where
  step k p k' := ∃ k₁, k.scheduler = .ok k₁ ∧ k₁.currentRunning = p ∧ Undisturbed l k₁ k'

theorem ReadyTurns.step (h : ReadyTurns l k) (hne : l ≠ []) (hpids : ∀ p ∈ l, p < maxTaskNum)
    {p : Pid} (hstep : (schedulerSystem l).step k p k') :
    ReadyTurns l k' ∧ (turns l).step (standing Pcb.schedulerPriority k.pcb) p
      (standing Pcb.schedulerPriority k'.pcb) := by
  obtain ⟨k₁, hrun, hcur, hsame⟩ := hstep
  obtain ⟨k₂, hrun', -, hturn⟩ := scheduler_turn h hne hpids
  obtain rfl : k₁ = k₂ := Except.ok.inj (hrun.symm.trans hrun')
  rw [hcur] at hturn
  have hturn' : Turn l (standing Pcb.schedulerPriority k.pcb) p
      (standing Pcb.schedulerPriority k'.pcb) :=
    ⟨hturn.best, fun y hy => (hsame.schedulerPriority y hy).trans (hturn.priority y hy),
      fun y hy => (hsame.waitTime y hy).trans (hturn.age y hy)⟩
  exact ⟨⟨hsame.queue, h.sound.turn hturn'⟩, hturn'⟩

theorem ReadyTurns.run (h : ReadyTurns l k) (hne : l ≠ []) (hpids : ∀ p ∈ l, p < maxTaskNum)
    {picks : List Pid} (run : (schedulerSystem l).Run k picks k') :
    ReadyTurns l k' ∧ (turns l).Run (standing Pcb.schedulerPriority k.pcb) picks
      (standing Pcb.schedulerPriority k'.pcb) := by
  induction run with
  | nil => exact ⟨h, .nil _⟩
  | snoc hrun hstep ih =>
      obtain ⟨hready, hturns⟩ := ih
      obtain ⟨hready', hturn⟩ := hready.step hne hpids hstep
      exact ⟨hready', .snoc hturns hturn⟩

end

/-- How far the priorities of the tasks in `l` are above 1, all in all. -/
def excessPriority (l : List Pid) (k : Kernel) : Nat :=
  (l.map fun p => ((k.pcb p).schedulerPriority - 1).toNat).sum

/-- What can be relied on after calls of the scheduler that selected `picks`. -/
structure BoundedWaiting (l : List Pid) (k : Kernel) (picks : List Pid) (k' : Kernel) : Prop where
  /-- the next call selects a task with the highest priority and, among those, the highest age -/
  selects : ∃ k₁, k'.scheduler = .ok k₁ ∧ k₁.currentRunning ∈ l ∧
    ∀ p ∈ l, (k'.pcb p).schedulerPriority ≤ (k'.pcb k₁.currentRunning).schedulerPriority ∧
      ((k'.pcb p).schedulerPriority = (k'.pcb k₁.currentRunning).schedulerPriority →
        (k'.pcb p).waitTime ≤ (k'.pcb k₁.currentRunning).waitTime)
  levelled : (∀ p ∈ l, (k'.pcb p).schedulerPriority = 1) ↔ excessPriority l k ≤ picks.length
  rounds : ∀ first window rest, picks = first ++ window ++ rest →
    excessPriority l k ≤ first.length → window.length = l.length → window.Perm l
  selected : excessPriority l k + l.length ≤ picks.length →
    ∀ p ∈ l, p ∈ picks.take (excessPriority l k + l.length)

theorem boundedWaiting_of_run {k k' : Kernel} {l picks : List Pid}
    (hqueue : k.heap.Represents .ready l) (hne : l ≠ []) (hpids : ∀ p ∈ l, p < maxTaskNum)
    (hpriority : ∀ p ∈ l, 1 ≤ (k.pcb p).schedulerPriority)
    (hwait : ∀ p ∈ l, 0 ≤ (k.pcb p).waitTime)
    (run : (schedulerSystem l).Run k picks k') : BoundedWaiting l k picks k' := by
  have hstart : ReadyTurns l k := ⟨hqueue, hpriority, hwait⟩
  obtain ⟨hready, hturns⟩ := hstart.run hne hpids run
  have hnodup := hqueue.nodup
  have hrounds : ∀ first window rest, picks = first ++ window ++ rest →
      excessPriority l k ≤ first.length → window.length = l.length → window.Perm l := by
    rintro first window rest rfl hfirst hwindow
    exact Standing.round_of_excess hnodup hstart.sound hturns hfirst hwindow
  refine ⟨?_, ?_, hrounds, fun hlen p hp => ?_⟩
  · obtain ⟨k₁, hrun, -, hturn⟩ := scheduler_turn hready hne hpids
    exact ⟨k₁, hrun, hturn.best.mem, fun p hp =>
      ⟨hturn.best.highest p hp, hturn.best.oldest p hp⟩⟩
  · have hexcess := Standing.excess_run hnodup hstart.sound hturns
    have hzero := Standing.excess_eq_zero hready.sound.priority
    rw [hexcess, Nat.sub_eq_zero_iff_le] at hzero
    exact hzero.symm
  · -- the window after the first `excess` calls
    have hsplit : picks = picks.take (excessPriority l k) ++
        (picks.drop (excessPriority l k)).take l.length ++
        (picks.drop (excessPriority l k)).drop l.length := by
      rw [List.append_assoc, List.take_append_drop, List.take_append_drop]
    have hperm := hrounds _ _ _ hsplit (by rw [List.length_take]; omega)
      (by rw [List.length_take, List.length_drop]; omega)
    rw [List.take_add]
    exact List.mem_append_right _ (hperm.mem_iff.mpr hp)

theorem boundedWaiting_booted :
    ∃ k', booted.scheduler = .ok k' ∧ BoundedWaiting [1, 2] booted [k'.currentRunning] k' := by
  obtain ⟨L, hholds, hitems, -⟩ := exists_holds_follow (show booted.canFollow [] = true from rfl)
  have hready : L .ready = [1, 2] := (hitems .ready).symm.trans (by decide +kernel)
  have hqueue := hholds.represents .ready
  rw [hready] at hqueue
  have hsound : (standing Pcb.schedulerPriority booted.pcb).Sound [1, 2] :=
    ⟨by decide +kernel, by decide +kernel⟩
  obtain ⟨k', hrun, hheap, -⟩ := scheduler_turn ⟨hqueue, hsound⟩ (by simp) (by decide)
  have hsame : Undisturbed [1, 2] k' k' := ⟨hheap ▸ hqueue, fun _ _ => rfl, fun _ _ => rfl⟩
  exact ⟨k', hrun, boundedWaiting_of_run hqueue (by simp) (by decide) hsound.priority hsound.age
    (.single ⟨k', hrun, rfl, hsame⟩)⟩

/-! ## Block queues -/

/-- A kernel with the lists that its queues hold. -/
structure Queued where
  kernel : Kernel
  lists : QueueId → List Pid
  holds : kernel.heap.Holds lists
  pids : ∀ q, ∀ p ∈ lists q, p < maxTaskNum

/-- `do_unblock_one` on a queue with tasks: the best of them becomes ready. -/
theorem doUnblockOne_best (s : Queued) {q : QueueId} (hne : s.lists q ≠ [])
    (hsound : (standing Pcb.priority s.kernel.pcb).Sound (s.lists q)) :
    ∃ k' x, s.kernel.doUnblockOne q = .ok k' ∧
      (standing Pcb.priority s.kernel.pcb).Best (s.lists q) x ∧
      k'.heap.Holds (join (leave s.lists q x) .ready x) ∧
      ∀ p ∈ s.lists q, p ≠ x → (k'.pcb p).priority = (s.kernel.pcb p).priority ∧
        (k'.pcb p).waitTime = (s.kernel.pcb p).waitTime + 1 := by
  have hsome : ¬ queueIsEmpty s.kernel.heap q = true := by
    rw [queueIsEmpty_iff s.holds]
    exact hne
  obtain ⟨t, hscan, hscanned⟩ := scan_represents Pcb.priority (s.holds.represents q) (s.pids q)
    hsound none
  obtain ⟨x, hselected, hbest, -, -⟩ := hscanned.best hne
  obtain ⟨next, heap₁, heap₂, hremove, hpush, hholds⟩ := move_holds s.holds hbest.mem .ready
  unfold Kernel.doUnblockOne
  rw [if_neg hsome]
  simp only [hscan, ok_bind, pure_bind, hselected, Kernel.wake, Kernel.remove, Kernel.push,
    Kernel.modifyPcb, hremove, hpush]
  refine ⟨_, x, rfl, hbest, hholds, fun p hp hpx => ?_⟩
  simp [hscanned.aged, hp, hpx]

/-- The tasks in the queue `q` are left alone. -/
structure StillWaiting (q : QueueId) (s s' : Queued) : Prop where
  queue : s'.lists q = s.lists q
  priority : ∀ p ∈ s.lists q, (s'.kernel.pcb p).priority = (s.kernel.pcb p).priority
  waitTime : ∀ p ∈ s.lists q, (s'.kernel.pcb p).waitTime = (s.kernel.pcb p).waitTime

/-- Calls of `do_unblock_one` on `q` with the task they make ready, and tasks of the given
priority that join `q`; anything else may happen that leaves the tasks in `q` alone. -/
def blockSystem (q : QueueId) (priority : Int) : Lts Queued (Traffic Pid) where
  step s event s' :=
    match event with
    | .call x => ∃ t : Queued, s.kernel.doUnblockOne q = .ok t.kernel ∧
        t.lists .ready = s.lists .ready ++ x.toList ∧ StillWaiting q t s'
    | .arrive y => s'.lists q = s.lists q ++ [y] ∧ (s'.kernel.pcb y).priority = priority ∧
        (s'.kernel.pcb y).waitTime = 0 ∧
        (∀ p ∈ s.lists q, (s'.kernel.pcb p).priority = (s.kernel.pcb p).priority) ∧
        ∀ p ∈ s.lists q, (s'.kernel.pcb p).waitTime = (s.kernel.pcb p).waitTime

def Queued.crowd (s : Queued) (q : QueueId) : Crowd Pid :=
  ⟨s.lists q, fun p => (s.kernel.pcb p).waitTime⟩

/-- All tasks in the queue `q` have the same priority. -/
structure Level (q : QueueId) (priority : Int) (s : Queued) : Prop where
  priority : ∀ p ∈ s.lists q, (s.kernel.pcb p).priority = priority
  waitTime : ∀ p ∈ s.lists q, 0 ≤ (s.kernel.pcb p).waitTime

section

variable {q : QueueId} {priority : Int} {s s' : Queued}

theorem Level.sound (h : Level q priority s) (hpriority : 1 ≤ priority) :
    (standing Pcb.priority s.kernel.pcb).Sound (s.lists q) := by
  refine ⟨fun p hp => ?_, h.waitTime⟩
  change 1 ≤ (s.kernel.pcb p).priority
  rw [h.priority p hp]
  exact hpriority

theorem Level.returns (h : Level q priority s) (hpriority : 1 ≤ priority) :
    ∃ k, s.kernel.doUnblockOne q = .ok k := by
  by_cases hne : s.lists q = []
  · refine ⟨s.kernel, ?_⟩
    rw [Kernel.doUnblockOne, if_pos ((queueIsEmpty_iff s.holds).mpr hne)]
  · obtain ⟨k, -, hrun, -⟩ := doUnblockOne_best s hne (h.sound hpriority)
    exact ⟨k, hrun⟩

theorem Level.call (h : Level q priority s) (hpriority : 1 ≤ priority) (hq : q ≠ .ready)
    {x : Option Pid} (hstep : (blockSystem q priority).step s (.call x) s') :
    Level q priority s' ∧ (s.crowd q).Moves (.call x) (s'.crowd q) := by
  obtain ⟨t, hrun, hready, hsame⟩ := hstep
  by_cases hne : s.lists q = []
  · -- the call finds nobody and changes nothing
    have hrun' : s.kernel.doUnblockOne q = .ok s.kernel := by
      rw [Kernel.doUnblockOne, if_pos ((queueIsEmpty_iff s.holds).mpr hne)]
    have hkernel : t.kernel = s.kernel := Except.ok.inj (hrun.symm.trans hrun')
    have hlists : t.lists = s.lists := (hkernel ▸ t.holds).unique s.holds
    have hnone : x = none := by
      rw [hlists, List.self_eq_append_right] at hready
      cases x with
      | none => rfl
      | some x => cases hready
    have hempty : s'.lists q = [] := by rw [hsame.queue, hlists, hne]
    subst hnone
    exact ⟨⟨by simp [hempty], by simp [hempty]⟩, hne, hempty⟩
  · obtain ⟨k', y, hrun', hbest, hholds, hothers⟩ :=
      doUnblockOne_best s hne (h.sound hpriority)
    obtain rfl : t.kernel = k' := Except.ok.inj (hrun.symm.trans hrun')
    have hlists : t.lists = join (leave s.lists q y) .ready y := t.holds.unique hholds
    have hx : x = some y := by
      have hjoined : s.lists .ready ++ [y] = s.lists .ready ++ x.toList := by
        rw [← hready, hlists]
        simp [join, leave, hq.symm]
      have hxy := List.append_cancel_left hjoined
      cases x with
      | none => cases hxy
      | some x => exact congrArg some (List.cons.inj hxy).1.symm
    have hqueue : s'.lists q = (s.lists q).erase y := by
      rw [hsame.queue, hlists]
      simp [join, leave, hq]
    have hmem : ∀ p ∈ s'.lists q, p ∈ s.lists q ∧ p ≠ y ∧ p ∈ t.lists q := by
      intro p hp
      have hpt : p ∈ t.lists q := hsame.queue ▸ hp
      rw [hqueue, (s.holds.represents q).nodup.mem_erase_iff] at hp
      exact ⟨hp.2, hp.1, hpt⟩
    subst hx
    refine ⟨⟨fun p hp => ?_, fun p hp => ?_⟩, hbest.mem, fun p hp => ?_, hqueue,
      fun p hp hpy => ?_⟩
    · obtain ⟨hps, hpy, hpt⟩ := hmem p hp
      rw [hsame.priority p hpt, (hothers p hps hpy).1]
      exact h.priority p hps
    · obtain ⟨hps, hpy, hpt⟩ := hmem p hp
      have := h.waitTime p hps
      rw [hsame.waitTime p hpt, (hothers p hps hpy).2]
      omega
    · exact hbest.oldest p hp ((h.priority p hp).trans (h.priority y hbest.mem).symm)
    · have hpt : p ∈ t.lists q := by
        rw [← hsame.queue, hqueue, (s.holds.represents q).nodup.mem_erase_iff]
        exact ⟨hpy, hp⟩
      exact (hsame.waitTime p hpt).trans (hothers p hp hpy).2

theorem Level.arrive (h : Level q priority s) {y : Pid}
    (hstep : (blockSystem q priority).step s (.arrive y) s') :
    Level q priority s' ∧ (s.crowd q).Moves (.arrive y) (s'.crowd q) := by
  obtain ⟨hqueue, hpriority, hzero, hsame, hages⟩ := hstep
  have hnew : y ∉ s.lists q := by
    have hnodup := (s'.holds.represents q).nodup
    rw [hqueue] at hnodup
    intro hmem
    exact (List.nodup_append.mp hnodup).2.2 y hmem y (by simp) rfl
  refine ⟨⟨fun p hp => ?_, fun p hp => ?_⟩, hnew, hqueue, hzero, hages⟩
  · rw [hqueue, List.mem_append, List.mem_singleton] at hp
    rcases hp with hp | rfl
    · rw [hsame p hp]
      exact h.priority p hp
    · exact hpriority
  · rw [hqueue, List.mem_append, List.mem_singleton] at hp
    rcases hp with hp | rfl
    · rw [hages p hp]
      exact h.waitTime p hp
    · rw [hzero]

theorem Level.run (h : Level q priority s) (hpriority : 1 ≤ priority) (hq : q ≠ .ready)
    {events : List (Traffic Pid)} (run : (blockSystem q priority).Run s events s') :
    Level q priority s' ∧ traffic.Run (s.crowd q) events (s'.crowd q) := by
  induction run with
  | nil => exact ⟨h, .nil _⟩
  | @snoc s₁ s₂ events event hrun hstep ih =>
      obtain ⟨hlevel, htraffic⟩ := ih
      cases event with
      | call x =>
          obtain ⟨hlevel', hmoves⟩ := hlevel.call hpriority hq hstep
          exact ⟨hlevel', .snoc htraffic hmoves⟩
      | arrive y =>
          obtain ⟨hlevel', hmoves⟩ := hlevel.arrive hstep
          exact ⟨hlevel', .snoc htraffic hmoves⟩

end

/-- `old` wait in a block queue at the first call. -/
structure BoundedBypass (old : List Pid) (events : List (Traffic Pid)) : Prop where
  /-- as many calls as there are tasks make all of them ready -/
  woken : ∀ first rest, events = first ++ rest → old.length ≤ callsOf first →
    ∀ p ∈ old, p ∈ servedBy first
  /-- until a task is made ready, only others that were there too have been, each of them once -/
  before : ∀ first rest, events = first ++ rest → ∀ p ∈ old, p ∉ servedBy first →
    (servedBy first).Nodup ∧ servedBy first ⊆ old

/-- However many tasks join, a task waits for no longer than for those that were there before. -/
theorem boundedBypass_of_run {q : QueueId} {priority : Int} {s s' : Queued}
    {events : List (Traffic Pid)} (hq : q ≠ .ready) (hpriority : 1 ≤ priority)
    (hlevel : ∀ p ∈ s.lists q, (s.kernel.pcb p).priority = priority)
    (hwait : ∀ p ∈ s.lists q, 0 ≤ (s.kernel.pcb p).waitTime)
    (run : (blockSystem q priority).Run s events s')
    (hfirst : ∀ y, events.head? ≠ some (.arrive y)) :
    BoundedBypass (s.lists q) events ∧ ∃ k, s'.kernel.doUnblockOne q = .ok k := by
  have hstart : Level q priority s := ⟨hlevel, hwait⟩
  have hnodup := (s.holds.represents q).nodup
  have hold : ∀ first rest, events = first ++ rest → ∃ c,
      OldFirst (s.lists q) (callsOf first) (servedBy first) c := by
    rintro first rest rfl
    obtain ⟨t, hrun, -⟩ := run.split
    refine ⟨_, OldFirst.run hnodup hwait (hstart.run hpriority hq hrun).2 fun y hy => ?_⟩
    apply hfirst y
    rw [List.head?_append, hy]
    rfl
  refine ⟨⟨fun first rest heq hcalls p hp => ?_, fun first rest heq p hp hnot => ?_⟩,
    (hstart.run hpriority hq run).1.returns hpriority⟩
  · obtain ⟨c, hc⟩ := hold first rest heq
    exact List.mem_of_mem_take (hc.mem_first hcalls hp)
  · obtain ⟨c, hc⟩ := hold first rest heq
    have hcalls : callsOf first < (s.lists q).length := by
      by_contra hge
      exact hnot (List.mem_of_mem_take (hc.mem_first (by omega) hp))
    have htake : (servedBy first).take (s.lists q).length = servedBy first := by
      apply List.take_of_length_le
      rw [(hc.young (le_of_lt hcalls)).1]
      exact le_of_lt hcalls
    have hfresh := hc.firstNodup
    have hsub := hc.firstOld
    rw [htake] at hfresh hsub
    exact ⟨hfresh, hsub⟩

/-- Two tasks wait on a semaphore. -/
def bothBlocked : List Event :=
  [.entry .timer, .entry (.spawn ⟨1⟩), .entry (.semaphoreInit 0 0), .entry (.semaphoreDown 0),
    .entry (.semaphoreDown 0)]

theorem boundedBypass_semaphore :
    ∃ (s : Queued) (p : Pid), s.kernel = booted.follow bothBlocked ∧
      s.lists (.semaphore 0) = [2, 1] ∧ p ∈ s.lists (.semaphore 0) ∧
      BoundedBypass (s.lists (.semaphore 0)) [.call (some p)] := by
  obtain ⟨L, hholds, hitems, hpids⟩ :=
    exists_holds_follow (show booted.canFollow bothBlocked = true by decide +kernel)
  have hqueue : L (.semaphore 0) = [2, 1] :=
    (hitems (.semaphore 0)).symm.trans (by decide +kernel)
  have hlevel : ∀ p ∈ L (.semaphore 0), ((booted.follow bothBlocked).pcb p).priority = 1 := by
    rw [hqueue]
    decide +kernel
  have hwait : ∀ p ∈ L (.semaphore 0), 0 ≤ ((booted.follow bothBlocked).pcb p).waitTime := by
    rw [hqueue]
    decide +kernel
  let s : Queued := ⟨booted.follow bothBlocked, L, hholds, hpids⟩
  have hsound : (standing Pcb.priority s.kernel.pcb).Sound (s.lists (.semaphore 0)) :=
    Level.sound ⟨hlevel, hwait⟩ (le_refl 1)
  obtain ⟨k', x, hrun, hbest, hholds', -⟩ :=
    doUnblockOne_best s (show L (.semaphore 0) ≠ [] by simp [hqueue]) hsound
  have hpids' : ∀ r, ∀ p ∈ join (leave L (.semaphore 0) x) .ready x r, p < maxTaskNum := by
    intro r p hp
    rcases mem_join.mp hp with hp | ⟨-, rfl⟩
    · by_cases hr : r = .semaphore 0
      · subst hr
        rw [leave, Function.update_self] at hp
        exact hpids _ p (List.mem_of_mem_erase hp)
      · rw [leave, Function.update_of_ne hr] at hp
        exact hpids r p hp
    · exact hpids _ p hbest.mem
  let t : Queued := ⟨k', _, hholds', hpids'⟩
  have hready : t.lists .ready = s.lists .ready ++ (some x).toList := by
    simp [t, s, join, leave]
  have hstep : (blockSystem (.semaphore 0) 1).step s (.call (some x)) t :=
    ⟨t, hrun, hready, rfl, fun _ _ => rfl, fun _ _ => rfl⟩
  have hbypass := boundedBypass_of_run (by simp) (le_refl 1) hlevel hwait (.single hstep)
    (by simp)
  exact ⟨s, x, rfl, hqueue, hbest.mem, hbypass.1⟩

end UcasOs.Sched
