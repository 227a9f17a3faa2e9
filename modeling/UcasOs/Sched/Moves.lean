import UcasOs.Sched.Steps

/-!
# Moves of the view

A move is an enabled step between two views whose queues are in order.  What
the moves preserve holds along every run of the kernel.  The counter and the
queue of a semaphore, a condition or a barrier change only where an entry uses
that object, or where a task in the queue is killed.
-/

namespace UcasOs.Sched

open UcasOs.Foundation UcasOs.Libs

namespace View

/-- Every live task is in exactly one queue. -/
structure Wf (v : View) : Prop where
  nodup : ∀ q, (v.queue q).Nodup
  apart : ∀ {q q' p}, p ∈ v.queue q → p ∈ v.queue q' → q = q'
  live : ∀ {q p}, p ∈ v.queue q → v.live p
  covered : ∀ {p}, v.live p → ∃ q, p ∈ v.queue q
  ne_zero : ∀ {p}, v.live p → p ≠ 0
  waitNil : ∀ {p}, ¬ v.live p → v.queue (.wait p) = []
  current : v.current ≠ 0 → v.current ∈ v.queue .ready

def Allows (v : View) : Entry → Prop
  | .spawn task => 1 ≤ task.priority
  | .mutexInit lock => v.queue (.mutex lock) = []
  | .semaphoreInit s _ => v.queue (.semaphore s) = []
  | .conditionInit condition => v.queue (.condition condition) = []
  | .barrierInit barrier _ => v.queue (.barrier barrier) = []
  | _ => True

def Enabled (v : View) : Event → Prop
  | .entry e => v.kont v.current = .ret ∧ (v.current = 0 → e.IsInterrupt) ∧ v.Allows e
  | .resume => v.current ≠ 0 ∧ v.kont v.current ≠ .ret

structure Moves (v : View) (event : Event) (v' : View) : Prop where
  before : v.Wf
  after : v'.Wf
  enabled : v.Enabled event
  does : v.Does v' event

end View

variable {k k' : Kernel} {v v' : View} {event : Event} {q : QueueId} {boot : Prop}

theorem Seen.wf (h : Seen noTask boot k v) : v.Wf where
  nodup q := (h.table.holds.represents q).nodup
  apart hp hp' := h.table.holds.apart hp hp'
  live hp := (h.live_iff _).mpr (h.table.live hp)
  covered hp := h.table.covered ((h.live_iff _).mp hp) id
  ne_zero hp := Nat.one_le_iff_ne_zero.mp ((h.live_iff _).mp hp).1
  waitNil hp := h.waitNil _ fun hl => hp ((h.live_iff _).mpr hl)
  current hcur := by
    rw [h.current_eq] at hcur ⊢
    exact h.current_mem hcur

theorem Seen.enabled (h : Seen noTask boot k v) (henabled : event.Enabled k) :
    v.Enabled event := by
  cases event with
  | entry e =>
      obtain ⟨hkont, hinterrupt, hallowed⟩ := henabled
      refine ⟨by rwa [h.kont_eq, h.current_eq], by rwa [h.current_eq], ?_⟩
      cases e with
      | mutexInit | semaphoreInit | conditionInit | barrierInit =>
          exact (h.queueIsEmpty_iff _).mp hallowed
      | _ => exact hallowed
  | resume => rwa [View.Enabled, h.kont_eq, h.current_eq]

/-- A step of the kernel is a move of what the tasks see. -/
theorem Seen.step (h : Seen noTask boot k v) (hstep : kernelSystem.step k event k') :
    ∃ v', Seen noTask boot k' v' ∧ v.Moves event v' := by
  obtain ⟨v', h', hdoes⟩ := (exec_seen h (fun _ => id) hstep.1).of_ok hstep.2
  exact ⟨v', h', h.wf, h'.wf, h.enabled hstep.1, hdoes⟩

/-! ## Boot -/

/-- What is seen before the first task is spawned. -/
def View.initial : View where
  queue _ := []
  status p := if p = 0 then .running else .blocked
  current := 0
  live _ := False
  time := 0
  awakened _ := 0
  mutexes _ := ⟨.unlocked, 0⟩
  semaphores _ := ⟨0⟩
  conditions _ := ⟨0⟩
  barriers _ := ⟨0, 0⟩
  lockNum _ := 0
  kont _ := .ret
  cursor _ := (0, 0)
  screen := (0, 0)

theorem View.initial_wf : View.initial.Wf where
  nodup _ := List.nodup_nil
  apart hp := absurd hp List.not_mem_nil
  live hp := absurd hp List.not_mem_nil
  covered hp := hp.elim
  ne_zero hp := hp.elim
  waitNil _ := rfl
  current hcur := absurd rfl hcur

/-- What holds before the first spawn and is kept by spawning holds after `init_task`. -/
theorem initTask_seen {I : View → Prop} (hinitial : I View.initial)
    (hspawn : ∀ v pid, v.Wf → I v → ¬ v.live pid → pid ≠ 0 → I (v.spawn pid)) :
    Meets IsPanic (fun k => ∃ v, Seen noTask True k v ∧ I v) (initTask Kernel.zero) := by
  have hnext : ∀ {v v' : View}, v.Wf → I v →
      (v' = v ∨ ∃ pid, ¬ v.live pid ∧ pid ≠ 0 ∧ v' = v.spawn pid) → I v' := by
    rintro v v' hwf h (rfl | ⟨pid, hdead, hne, rfl⟩)
    · exact h
    · exact hspawn v pid hwf h hdead hne
  unfold initTask
  refine (initPcb_seen (v := View.initial) ⟨beforeSpawn_table ?_ ?_ (slistInit_live rfl) ?_,
    fun _ _ => rfl, .inl ⟨trivial, rfl⟩, ?_⟩ (by decide)).bind fun k₁ hk₁ => ?_
  · exact queueInit_holds (queueInit_holds (queueInit_holds zero_holds rfl) rfl) rfl
  · exact ⟨_, slistInit_implements (by decide)⟩
  · simp [Kernel.modifyPcb]
  · ext1
    case status | awakened | lockNum | cursor =>
        funext p
        by_cases hp : p = 0 <;>
          simp [Kernel.view, View.initial, Kernel.modifyPcb, Kernel.zero, hp]
    case live => exact funext fun p => propext (iff_of_false (slistInit_live rfl p) id)
    all_goals rfl
  · obtain ⟨v₁, h₁, hspawned₁⟩ := hk₁
    refine (initPcb_seen h₁ (by decide)).mono fun k₂ hk₂ => ?_
    obtain ⟨v₂, h₂, hspawned₂⟩ := hk₂
    exact ⟨v₂, h₂, hnext h₁.wf (hnext View.initial_wf hinitial hspawned₁) hspawned₂⟩

/-- What spawning and every allowed move preserve holds along every run from `init_task`. -/
theorem seen_of_run {I : View → Prop} {allowed : Kernel → Event → Prop} {events : List Event}
    (hinitial : I View.initial)
    (hspawn : ∀ v pid, v.Wf → I v → ¬ v.live pid → pid ≠ 0 → I (v.spawn pid))
    (hmove : ∀ {k v event v'}, Seen noTask True k v → allowed k event → v.Moves event v' →
      I v → I v')
    (hinit : initTask Kernel.zero = .ok k)
    (run : (kernelSystem.restrict allowed).Run k events k') :
    ∃ v, Seen noTask True k' v ∧ I v := by
  refine run.invariant (I := fun k => ∃ v, Seen noTask True k v ∧ I v) ?_
    ((initTask_seen hinitial hspawn).of_ok hinit)
  rintro k₁ event k₂ ⟨v, h, hI⟩ ⟨hallowed, hstep⟩
  obtain ⟨v', h', hmoves⟩ := h.step hstep
  exact ⟨v', h', hmove h hallowed hmoves hI⟩

/-! ## Semaphores, conditions and barriers -/

/-- The queues of the objects that count their waiters. -/
def QueueId.Counted : QueueId → Prop
  | .semaphore _ | .condition _ | .barrier _ => True
  | _ => False

/-- The counted object that an entry works on. -/
def Entry.uses : Entry → Option QueueId
  | .semaphoreInit s _ | .semaphoreUp s | .semaphoreDown s => some (.semaphore s)
  | .conditionInit condition | .conditionWait condition _ | .conditionSignal condition
  | .conditionBroadcast condition => some (.condition condition)
  | .barrierInit barrier _ | .barrierWait barrier => some (.barrier barrier)
  | _ => none

def Event.uses : Event → Option QueueId
  | .entry e => e.uses
  | .resume => none

/-- The event is a successful kill of `p`. -/
def Event.Kills (v : View) (p : Pid) : Event → Prop
  | .entry (.kill pid) => pid ≠ 1 ∧ v.Accepts pid p
  | .entry .exit => (v.current : Int) ≠ 1 ∧ v.Accepts v.current p
  | _ => False

namespace View

/-- Nothing happened to the object of the queue `q`. -/
structure Untouched (q : QueueId) (v v' : View) : Prop where
  queue : v'.queue q = v.queue q
  semaphore : ∀ s, q = .semaphore s → v'.semaphores s = v.semaphores s
  condition : ∀ condition, q = .condition condition →
    v'.conditions condition = v.conditions condition
  barrier : ∀ barrier, q = .barrier barrier → v'.barriers barrier = v.barriers barrier

variable {v₁ v₂ : View} {q' : QueueId} {lock : Nat} {kont : Kont} {status : TaskStatus}
  {pid p : Pid}

theorem Untouched.refl (q : QueueId) (v : View) : Untouched q v v :=
  ⟨rfl, fun _ _ => rfl, fun _ _ => rfl, fun _ _ => rfl⟩

theorem Untouched.trans (h : Untouched q v v₁) (h' : Untouched q v₁ v₂) : Untouched q v v₂ :=
  ⟨h'.queue.trans h.queue, fun s hs => (h'.semaphore s hs).trans (h.semaphore s hs),
    fun c hc => (h'.condition c hc).trans (h.condition c hc),
    fun b hb => (h'.barrier b hb).trans (h.barrier b hb)⟩

theorem untouched_of_queue (hqueue : v'.queue q = v.queue q)
    (hsemaphores : v'.semaphores = v.semaphores) (hconditions : v'.conditions = v.conditions)
    (hbarriers : v'.barriers = v.barriers) : Untouched q v v' :=
  ⟨hqueue, fun _ _ => by rw [hsemaphores], fun _ _ => by rw [hconditions],
    fun _ _ => by rw [hbarriers]⟩

theorem setSemaphore_untouched (v : View) {s : Nat} (hq : q ≠ .semaphore s) (value : Int) :
    Untouched q v (v.setSemaphore s value) := by
  refine ⟨rfl, ?_, fun _ _ => rfl, fun _ _ => rfl⟩
  rintro s' rfl
  have hne : s' ≠ s := fun he => hq (he ▸ rfl)
  simp [setSemaphore, hne]

theorem setCondition_untouched (v : View) {condition : Nat} (hq : q ≠ .condition condition)
    (waitingNum : Int) : Untouched q v (v.setCondition condition waitingNum) := by
  refine ⟨rfl, fun _ _ => rfl, ?_, fun _ _ => rfl⟩
  rintro c rfl
  have hne : c ≠ condition := fun he => hq (he ▸ rfl)
  simp [setCondition, hne]

theorem setBarrier_untouched (v : View) {barrier : Nat} (hq : q ≠ .barrier barrier)
    (b : Barrier) : Untouched q v (v.setBarrier barrier b) := by
  refine ⟨rfl, fun _ _ => rfl, fun _ _ => rfl, ?_⟩
  rintro b' rfl
  have hne : b' ≠ barrier := fun he => hq (he ▸ rfl)
  simp [setBarrier, hne]

theorem Switches.untouched (h : v.Switches kont v') : Untouched q v v' := by
  obtain ⟨next, -, rfl⟩ := h
  exact untouched_of_queue rfl rfl rfl rfl

section

variable (hq : q.Counted)
include hq

private theorem ne_ready : q ≠ .ready := by
  rintro rfl
  exact hq

theorem Waits.untouched (hne : q ≠ q') (h : v.Waits q' status kont v') : Untouched q v v' := by
  have hblock : Untouched q v (v.block q' status) := by
    refine untouched_of_queue ?_ rfl rfl rfl
    simp [block, join, leave, hne, ne_ready hq]
  exact hblock.trans (Switches.untouched h)

theorem WakesOne.untouched (hne : q ≠ q') (h : v.WakesOne q' v') : Untouched q v v' := by
  obtain ⟨-, rfl⟩ | ⟨p, -, rfl⟩ := h
  · exact Untouched.refl q _
  · refine untouched_of_queue ?_ rfl rfl rfl
    simp [wake, join, leave, hne, ne_ready hq]

theorem wakeAll_untouched (v : View) (hne : q ≠ q') : Untouched q v (v.wakeAll q') := by
  refine untouched_of_queue ?_ rfl rfl rfl
  simp [wakeAll, hne, ne_ready hq]

theorem wakeSleeper_untouched (v : View) : Untouched q v v.wakeSleeper := by
  unfold wakeSleeper
  cases (v.queue .sleep).find? fun p => v.Due p with
  | none => exact Untouched.refl q v
  | some p =>
      have hsleep : q ≠ .sleep := by rintro rfl; exact hq
      refine untouched_of_queue ?_ rfl rfl rfl
      simp [awaken, join, leave, hsleep, ne_ready hq]

theorem spawn_untouched (v : View) (pid : Pid) : Untouched q v (v.spawn pid) := by
  refine untouched_of_queue ?_ rfl rfl rfl
  simp [spawn, join, ne_ready hq]

private theorem ne_mutex : q ≠ .mutex lock := by
  rintro rfl
  exact hq

theorem Takes.untouched (h : v.Takes lock v') : Untouched q v v' := by
  unfold Takes at h
  split at h
  · exact Waits.untouched hq (ne_mutex hq) h
  · rw [h]
    exact untouched_of_queue rfl rfl rfl rfl

theorem Acquires.untouched (h : v.Acquires lock v') : Untouched q v v' := by
  unfold Acquires at h
  split at h
  · rw [h]
    exact Untouched.refl q v
  · exact Takes.untouched hq h

theorem Releases.untouched (h : v.Releases lock v') : Untouched q v v' := by
  unfold Releases at h
  split at h
  · rw [h]
    exact Untouched.refl q v
  · obtain ⟨v₁, hwakes, rfl⟩ := h
    exact (WakesOne.untouched hq (ne_mutex hq) hwakes).trans
      (untouched_of_queue rfl rfl rfl rfl)

theorem Resumes.untouched (h : v.Resumes v') : Untouched q v v' := by
  have hpark : Untouched q v (v.park .ret) := untouched_of_queue rfl rfl rfl rfl
  unfold Resumes at h
  split at h
  · rw [h]
    exact Untouched.refl q v
  · exact hpark.trans (Takes.untouched hq h)
  · exact hpark.trans (Acquires.untouched hq h)

theorem KillLock.untouched (h : v.KillLock pid lock v') : Untouched q v v' := by
  unfold KillLock at h
  split at h
  · obtain ⟨v₁, hwakes, rfl⟩ := h
    exact (WakesOne.untouched hq (ne_mutex hq) hwakes).trans
      (untouched_of_queue rfl rfl rfl rfl)
  · rw [h]
    exact Untouched.refl q v

theorem KillLocks.untouched {locks : List Nat} (h : KillLocks pid locks v v') :
    Untouched q v v' := by
  induction locks generalizing v with
  | nil =>
      rw [show v' = v from h]
      exact Untouched.refl q v
  | cons i rest ih =>
      unfold KillLocks at h
      split at h
      · obtain ⟨v₁, hlock, hrest⟩ := h
        exact (KillLock.untouched hq hlock).trans (ih hrest)
      · rw [h]
        exact Untouched.refl q v

/-- The death of a task takes it out of its queue and is not counted. -/
theorem Kills.untouched (h : v.Kills pid v') :
    ∃ q', pid ∈ v.queue q' ∧ Untouched q (v.remove q' pid) v' := by
  obtain ⟨q', v₁, hq', hlocks, hlast⟩ := h
  have hwait : q ≠ .wait pid := by rintro rfl; exact hq
  have hwoken : Untouched q (v.remove q' pid) (v₁.wakeAll (.wait pid)) :=
    (KillLocks.untouched hq hlocks).trans (wakeAll_untouched hq v₁ hwait)
  refine ⟨q', hq', ?_⟩
  split at hlast
  · exact hwoken.trans (Switches.untouched hlast)
  · rw [hlast]
    exact hwoken

theorem Kills.cases (h : v.Kills pid v') :
    Untouched q v v' ∨ (pid ∈ v.queue q ∧ Untouched q (v.remove q pid) v') := by
  obtain ⟨q', hq', huntouched⟩ := Kills.untouched hq h
  by_cases hne : q = q'
  · subst hne
    exact .inr ⟨hq', huntouched⟩
  · have hremove : Untouched q v (v.remove q' pid) := by
      refine untouched_of_queue ?_ rfl rfl rfl
      simp [remove, leave, hne]
    exact .inl (hremove.trans huntouched)

theorem KillStep.cases {pid : Int} (h : v.KillStep pid v') :
    Untouched q v v' ∨ ∃ p ∈ v.queue q, (pid ≠ 1 ∧ v.Accepts pid p) ∧
      Untouched q (v.remove q p) v' := by
  obtain ⟨-, rfl⟩ | ⟨hone, p, haccepted, hkills⟩ := h
  · exact .inl (Untouched.refl q _)
  · obtain hsame | ⟨hp, hremoved⟩ := Kills.cases hq hkills
    · exact .inl hsame
    · exact .inr ⟨p, hp, ⟨hone, haccepted⟩, hremoved⟩

/-- What an event does to an object it does not use. -/
theorem Does.cases (huses : event.uses ≠ some q) (h : v.Does v' event) :
    Untouched q v v' ∨ ∃ p ∈ v.queue q, event.Kills v p ∧ Untouched q (v.remove q p) v' := by
  have husesd : ∀ {q'}, event.uses = some q' → q ≠ q' := fun hq' he => huses (he ▸ hq')
  cases event with
  | resume => exact .inl (Resumes.untouched hq h)
  | entry e =>
      cases e with
      | kill pid => exact KillStep.cases hq h
      | exit => exact KillStep.cases hq h
      | spawn task =>
          obtain rfl | ⟨pid, -, -, rfl⟩ := h
          · exact .inl (Untouched.refl q _)
          · exact .inl (spawn_untouched hq v pid)
      | wait pid =>
          have hwait : ∀ p, q ≠ .wait p := by rintro p rfl; exact hq
          obtain ⟨-, rfl⟩ | ⟨-, p, -, hwaits⟩ := h
          · exact .inl (Untouched.refl q _)
          · exact .inl (Waits.untouched hq (hwait p) hwaits)
      | sleep time =>
          have hsleep : q ≠ .sleep := by rintro rfl; exact hq
          have hset : Untouched q v
              { v with
                awakened := Function.update v.awakened v.current
                  (v.time + time / Kernel.timeSlice) } :=
            untouched_of_queue rfl rfl rfl rfl
          exact .inl (hset.trans (Waits.untouched hq hsleep h))
      | mutexInit lock =>
          rw [show v' = v.setMutex lock _ from h]
          exact .inl (untouched_of_queue rfl rfl rfl rfl)
      | mutexAcquire lock => exact .inl (Acquires.untouched hq h)
      | mutexRelease lock => exact .inl (Releases.untouched hq h)
      | semaphoreInit s value =>
          rw [show v' = v.setSemaphore s _ from h]
          exact .inl (setSemaphore_untouched v (husesd rfl) _)
      | semaphoreUp s =>
          have hset := setSemaphore_untouched v (husesd rfl) ((v.semaphores s).value + 1)
          simp only [Does, Step] at h
          split at h
          · exact .inl (hset.trans (WakesOne.untouched hq (husesd rfl) h))
          · exact .inl (h ▸ hset)
      | semaphoreDown s =>
          have hset := setSemaphore_untouched v (husesd rfl) ((v.semaphores s).value - 1)
          simp only [Does, Step] at h
          split at h
          · exact .inl (hset.trans (Waits.untouched hq (husesd rfl) h))
          · exact .inl (h ▸ hset)
      | conditionInit condition =>
          rw [show v' = v.setCondition condition 0 from h]
          exact .inl (setCondition_untouched v (husesd rfl) _)
      | conditionWait condition lock =>
          have hset := setCondition_untouched v (husesd rfl)
            ((v.conditions condition).waitingNum + 1)
          obtain ⟨v₁, hreleases, hwaits⟩ := h
          exact .inl ((hset.trans (Releases.untouched hq hreleases)).trans
            (Waits.untouched hq (husesd rfl) hwaits))
      | conditionSignal condition =>
          have hset := setCondition_untouched v (husesd rfl)
            ((v.conditions condition).waitingNum - 1)
          simp only [Does, Step] at h
          split at h
          · exact .inl (hset.trans (WakesOne.untouched hq (husesd rfl) h))
          · exact .inl (h ▸ Untouched.refl q v)
      | conditionBroadcast condition =>
          have hset := setCondition_untouched v (husesd rfl) 0
          simp only [Does, Step] at h
          split at h
          · exact .inl (h ▸ hset.trans (wakeAll_untouched hq _ (husesd rfl)))
          · exact .inl (h ▸ Untouched.refl q v)
      | barrierInit barrier goal =>
          rw [show v' = v.setBarrier barrier _ from h]
          exact .inl (setBarrier_untouched v (husesd rfl) _)
      | barrierWait barrier =>
          have hset : ∀ b, Untouched q v (v.setBarrier barrier b) :=
            setBarrier_untouched v (husesd rfl)
          simp only [Does, Step] at h
          split at h
          · exact .inl (h ▸ (hset _).trans (wakeAll_untouched hq _ (husesd rfl)))
          · exact .inl ((hset _).trans (Waits.untouched hq (husesd rfl) h))
      | waitRecv =>
          have hrecv : q ≠ .recv := by rintro rfl; exact hq
          exact .inl (Waits.untouched hq hrecv h)
      | timer =>
          have htick : Untouched q v { v with time := v.time + 1 } :=
            untouched_of_queue rfl rfl rfl rfl
          exact .inl ((htick.trans (wakeSleeper_untouched hq _)).trans (Switches.untouched h))
      | mac =>
          have hrecv : q ≠ .recv := by rintro rfl; exact hq
          exact .inl (WakesOne.untouched hq hrecv h)

/-- Nothing happens to an object while it is not used and its waiters live. -/
theorem Does.untouched (huses : event.uses ≠ some q) (hspares : ∀ p ∈ v.queue q, ¬ event.Kills v p)
    (h : v.Does v' event) : Untouched q v v' := by
  obtain hsame | ⟨p, hp, hkills, -⟩ := Does.cases hq huses h
  · exact hsame
  · exact absurd hkills (hspares p hp)

end

end View

end UcasOs.Sched
