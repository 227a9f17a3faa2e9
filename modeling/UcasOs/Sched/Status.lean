import UcasOs.Sched.Moves

/-!
# Task status and queue

The status of a task is written apart from its queue.  The two agree as long as
no timer interrupt finds a task whose time to wake up has come: `check_sleeping`
marks the running task ready instead of the one it moves.
-/

namespace UcasOs.Sched

open UcasOs.Foundation UcasOs.Libs

/-- The status that goes with a queue, for all but the running task. -/
def QueueId.status : QueueId → TaskStatus
  | .ready => .ready
  | .sleep => .sleeping
  | .wait _ | .barrier _ => .waiting
  | .mutex _ | .semaphore _ | .condition _ | .recv => .blocked

theorem QueueId.status_ne_running (q : QueueId) : q.status ≠ .running := by
  cases q <;> simp [QueueId.status]

variable {k k' : Kernel} {v v' v₁ : View} {event : Event} {q : QueueId} {kont : Kont} {p : Pid}

namespace View

def Agrees (v : View) : Prop :=
  ∀ q p, p ∈ v.queue q → v.status p = if p = v.current then .running else q.status

/-- The queues do not overlap, the running task is ready, and the statuses agree. -/
structure Orderly (v : View) : Prop where
  nodup : ∀ q, (v.queue q).Nodup
  apart : ∀ {q q' p}, p ∈ v.queue q → p ∈ v.queue q' → q = q'
  current : ∀ {q}, v.current ∈ v.queue q → q = .ready
  agrees : v.Agrees

theorem Wf.current_ready (hwf : v.Wf) (hmem : v.current ∈ v.queue q) : q = .ready :=
  hwf.apart hmem (hwf.current (hwf.ne_zero (hwf.live hmem)))

theorem Agrees.orderly (h : v.Agrees) (hwf : v.Wf) : v.Orderly :=
  ⟨hwf.nodup, hwf.apart, hwf.current_ready, h⟩

theorem Orderly.congr (h : v.Orderly) (hqueue : v'.queue = v.queue)
    (hstatus : v'.status = v.status) (hcurrent : v'.current = v.current) : v'.Orderly := by
  refine ⟨?_, ?_, ?_, ?_⟩
  · rw [hqueue]
    exact h.nodup
  · rw [hqueue]
    exact h.apart
  · rw [hqueue, hcurrent]
    exact h.current
  · intro q p hp
    rw [hqueue] at hp
    rw [hstatus, hcurrent]
    exact h.agrees q p hp

/-! ## Switching -/

/-- The statuses agree, or the running task has given its own up already. -/
def Settled (v : View) : Prop :=
  ∀ q p, p ∈ v.queue q →
    v.status p = q.status ∨ (p = v.current ∧ q = .ready ∧ v.status p = .running)

theorem Orderly.settled (h : v.Orderly) : v.Settled := by
  intro q p hp
  have hstatus := h.agrees q p hp
  by_cases hcur : p = v.current
  · rw [if_pos hcur] at hstatus
    exact .inr ⟨hcur, h.current (hcur ▸ hp), hstatus⟩
  · rw [if_neg hcur] at hstatus
    exact .inl hstatus

theorem Settled.switch (h : v.Settled) (kont : Kont) (next : Pid) :
    (v.switch kont next).Agrees := by
  intro q p hp
  change Function.update (Function.update v.status v.current _) next .running p = _
  change _ = if p = next then _ else _
  by_cases hnext : p = next
  · rw [if_pos hnext, hnext, Function.update_self]
  · rw [if_neg hnext, Function.update_of_ne hnext]
    by_cases hcur : p = v.current
    · subst hcur
      rw [Function.update_self]
      obtain hstatus | ⟨-, rfl, hstatus⟩ := h q _ hp
      · rw [hstatus, if_neg q.status_ne_running]
      · rw [if_pos hstatus]
        rfl
    · rw [Function.update_of_ne hcur]
      obtain hstatus | ⟨hcur', -⟩ := h q p hp
      · exact hstatus
      · exact absurd hcur' hcur

theorem Switches.agrees (h : v.Switches kont v') (hsettled : v.Settled) : v'.Agrees := by
  obtain ⟨next, -, rfl⟩ := h
  exact hsettled.switch kont next

theorem Orderly.block (h : v.Orderly) (q : QueueId) : (v.block q q.status).Settled := by
  intro q' p hp
  change p ∈ join (leave v.queue .ready v.current) q v.current q' at hp
  change Function.update v.status v.current q.status p = _ ∨ _
  rw [mem_join] at hp
  by_cases hcur : p = v.current
  · subst hcur
    rw [Function.update_self]
    rcases hp with hp | ⟨rfl, -⟩
    · -- The running task has left the ready queue and is in no other.
      exfalso
      by_cases hready : q' = .ready
      · subst hready
        rw [leave, Function.update_self, (h.nodup _).mem_erase_iff] at hp
        exact hp.1 rfl
      · rw [leave, Function.update_of_ne hready] at hp
        exact hready (h.current hp)
    · exact .inl rfl
  · rw [Function.update_of_ne hcur]
    have hmem : p ∈ v.queue q' := by
      rcases hp with hp | ⟨-, hp⟩
      · by_cases hready : q' = .ready
        · subst hready
          rw [leave, Function.update_self] at hp
          exact List.mem_of_mem_erase hp
        · rwa [leave, Function.update_of_ne hready] at hp
      · exact absurd hp hcur
    have hstatus := h.agrees q' p hmem
    rw [if_neg hcur] at hstatus
    exact .inl hstatus

theorem Waits.agrees (h : v.Waits q q.status kont v') (horderly : v.Orderly) : v'.Agrees :=
  Switches.agrees h (horderly.block q)

/-! ## Waking -/

theorem Orderly.mem_wake (h : v.Orderly) (hp : p ∈ v.queue q) {q' : QueueId} {x : Pid} :
    x ∈ (v.wake q p).queue q' ↔ (x ∈ v.queue q' ∧ x ≠ p) ∨ (q' = .ready ∧ x = p) := by
  change x ∈ join (leave v.queue q p) .ready p q' ↔ _
  rw [mem_join]
  refine or_congr_left ?_
  by_cases hq : q' = q
  · subst hq
    rw [leave, Function.update_self, (h.nodup _).mem_erase_iff, and_comm]
  · rw [leave, Function.update_of_ne hq]
    constructor
    · intro hx
      refine ⟨hx, ?_⟩
      rintro rfl
      exact hq (h.apart hx hp)
    · exact fun hx => hx.1

theorem Orderly.wake (h : v.Orderly) (hq : q ≠ .ready) (hp : p ∈ v.queue q) :
    (v.wake q p).Orderly := by
  have hcur : p ≠ v.current := by
    rintro rfl
    exact hq (h.current hp)
  refine ⟨?_, ?_, ?_, ?_⟩
  · intro q'
    change (join (leave v.queue q p) .ready p q').Nodup
    by_cases hready : q' = .ready
    · subst hready
      have hnot : p ∉ v.queue .ready := fun hmem => hq (h.apart hp hmem)
      simpa [join, leave, hq.symm] using (h.nodup .ready).concat hnot
    · rw [join, Function.update_of_ne hready, leave]
      by_cases hqq : q' = q
      · rw [hqq, Function.update_self]
        exact (h.nodup q).erase p
      · rw [Function.update_of_ne hqq]
        exact h.nodup q'
  · intro q₁ q₂ x h₁ h₂
    rw [h.mem_wake hp] at h₁ h₂
    rcases h₁ with h₁ | h₁ <;> rcases h₂ with h₂ | h₂
    · exact h.apart h₁.1 h₂.1
    · exact absurd h₂.2 h₁.2
    · exact absurd h₁.2 h₂.2
    · rw [h₁.1, h₂.1]
  · intro q' hmem
    rcases (h.mem_wake hp).mp hmem with hmem | hmem
    · exact h.current hmem.1
    · exact hmem.1
  · intro q' x hx
    change Function.update v.status p .ready x = if x = v.current then _ else _
    rcases (h.mem_wake hp).mp hx with ⟨hx, hne⟩ | ⟨rfl, rfl⟩
    · rw [Function.update_of_ne hne]
      exact h.agrees q' x hx
    · rw [Function.update_self, if_neg hcur]
      rfl

theorem WakesOne.orderly (h : v.WakesOne q v') (hq : q ≠ .ready) (horderly : v.Orderly) :
    v'.Orderly := by
  obtain ⟨-, rfl⟩ | ⟨p, hp, rfl⟩ := h
  · exact horderly
  · exact horderly.wake hq hp

/-- Waking all tasks of a queue is waking them one by one. -/
theorem Orderly.wakeAll {l : List Pid} (h : v.Orderly) (hq : q ≠ .ready) (hl : v.queue q = l) :
    (v.wakeAll q).Orderly := by
  induction l generalizing v with
  | nil => rwa [wakeAll_nil hl]
  | cons p rest ih =>
      rw [← wakeAll_wake hq hl]
      refine ih (h.wake hq (by simp [hl])) ?_
      simp [View.wake, join, leave, hq, hl]

theorem Orderly.setMutex (h : v.Orderly) (p : Pid) (n : Int) (lock : Nat) (m : MutexLock) :
    ((v.addLocks p n).setMutex lock m).Orderly :=
  h.congr rfl rfl rfl

/-! ## Mutexes and the death of a task -/

theorem Takes.agrees {lock : Nat} (h : v.Takes lock v') (horderly : v.Orderly) : v'.Agrees := by
  unfold Takes at h
  split at h
  · exact Waits.agrees (q := .mutex lock) h horderly
  · rw [h]
    exact (horderly.setMutex _ _ _ _).agrees

theorem Acquires.agrees {lock : Nat} (h : v.Acquires lock v') (horderly : v.Orderly) :
    v'.Agrees := by
  unfold Acquires at h
  split at h
  · rw [h]
    exact horderly.agrees
  · exact h.agrees horderly

theorem Releases.orderly {lock : Nat} (h : v.Releases lock v') (horderly : v.Orderly) :
    v'.Orderly := by
  unfold Releases at h
  split at h
  · rw [h]
    exact horderly
  · obtain ⟨v₁, hwakes, rfl⟩ := h
    exact (hwakes.orderly (by simp) horderly).setMutex _ _ _ _

theorem KillLocks.orderly {pid : Pid} {locks : List Nat} (h : KillLocks pid locks v v')
    (horderly : v.Orderly) : v'.Orderly := by
  induction locks generalizing v with
  | nil =>
      rw [show v' = v from h]
      exact horderly
  | cons i rest ih =>
      unfold KillLocks at h
      split at h
      · obtain ⟨v₁, hlock, hrest⟩ := h
        refine ih hrest ?_
        unfold KillLock at hlock
        split at hlock
        · obtain ⟨v₂, hwakes, rfl⟩ := hlock
          exact (hwakes.orderly (by simp) horderly).setMutex _ _ _ _
        · rw [hlock]
          exact horderly
      · rw [h]
        exact horderly

theorem Orderly.remove (h : v.Orderly) (q : QueueId) (pid : Pid) : (v.remove q pid).Orderly := by
  have hsub : ∀ q', ((v.remove q pid).queue q').Sublist (v.queue q') := by
    intro q'
    change (leave v.queue q pid q').Sublist _
    by_cases hq : q' = q
    · subst hq
      rw [leave, Function.update_self]
      exact List.erase_sublist
    · rw [leave, Function.update_of_ne hq]
  refine ⟨fun q' => (h.nodup q').sublist (hsub q'), ?_, ?_, ?_⟩
  · exact fun h₁ h₂ => h.apart ((hsub _).subset h₁) ((hsub _).subset h₂)
  · exact fun hmem => h.current ((hsub _).subset hmem)
  · exact fun q' p hp => h.agrees q' p ((hsub q').subset hp)

theorem Kills.agrees {pid : Pid} (h : v.Kills pid v') (horderly : v.Orderly) : v'.Agrees := by
  obtain ⟨q, v₁, -, hlocks, hlast⟩ := h
  have hwoken : (v₁.wakeAll (.wait pid)).Orderly :=
    (hlocks.orderly (horderly.remove q pid)).wakeAll (by simp) rfl
  split at hlast
  · exact hlast.agrees hwoken.settled
  · rw [hlast]
    exact hwoken.agrees

theorem KillStep.agrees {pid : Int} (h : v.KillStep pid v') (horderly : v.Orderly) :
    v'.Agrees := by
  obtain ⟨-, rfl⟩ | ⟨-, p, -, hkills⟩ := h
  · exact horderly.agrees
  · exact hkills.agrees horderly

theorem Orderly.spawn (h : v.Orderly) {pid : Pid} (hdead : ¬ v.live pid) (hwf : v.Wf)
    (hpid : pid ≠ 0) : (v.spawn pid).Agrees := by
  have hcur : pid ≠ v.current := by
    rintro rfl
    exact hdead (hwf.live (hwf.current hpid))
  intro q p hp
  change p ∈ join v.queue .ready pid q at hp
  change Function.update v.status pid .ready p = if p = v.current then _ else _
  rcases mem_join.mp hp with hp | ⟨rfl, rfl⟩
  · have hne : p ≠ pid := fun he => hdead (he ▸ hwf.live hp)
    rw [Function.update_of_ne hne]
    exact h.agrees q p hp
  · rw [Function.update_self, if_neg hcur]
    rfl

/-! ## Events -/

/-- A timer interrupt that wakes no sleeping task. -/
def SparesSleepers (v : View) : Event → Prop
  | .entry .timer => ∀ p ∈ v.queue .sleep, ¬ v.awakened p ≤ v.time + 1
  | _ => True

theorem wakeSleeper_none (h : ∀ p ∈ v.queue .sleep, ¬ v.Due p) : v.wakeSleeper = v := by
  have hfind : (v.queue .sleep).find? (fun p => v.Due p) = none := by
    rw [List.find?_eq_none]
    intro p hp
    rw [decide_eq_true_eq]
    exact h p hp
  rw [wakeSleeper, hfind]
  rfl

theorem Agrees.moves (h : v.Agrees) (hmoves : v.Moves event v')
    (hspares : v.SparesSleepers event) : v'.Agrees := by
  have horderly := h.orderly hmoves.before
  have hdoes := hmoves.does
  cases event with
  | resume =>
      have hparked : (v.park .ret).Orderly := horderly.congr rfl rfl rfl
      change v.Resumes v' at hdoes
      unfold Resumes at hdoes
      split at hdoes
      · rw [hdoes]
        exact h
      · exact Takes.agrees hdoes hparked
      · exact Acquires.agrees hdoes hparked
  | entry e =>
      change v.Step v' e at hdoes
      cases e with
      | spawn task =>
          obtain rfl | ⟨pid, hdead, hpid, rfl⟩ := hdoes
          · exact h
          · exact horderly.spawn hdead hmoves.before hpid
      | kill pid => exact KillStep.agrees hdoes horderly
      | exit => exact KillStep.agrees hdoes horderly
      | wait pid =>
          obtain ⟨-, rfl⟩ | ⟨-, p, -, hwaits⟩ := hdoes
          · exact h
          · exact Waits.agrees (q := .wait p) hwaits horderly
      | sleep time => exact Waits.agrees (q := .sleep) hdoes (horderly.congr rfl rfl rfl)
      | mutexInit lock =>
          rw [show v' = v.setMutex lock _ from hdoes]
          exact h
      | mutexAcquire lock => exact Acquires.agrees hdoes horderly
      | mutexRelease lock => exact (Releases.orderly hdoes horderly).agrees
      | semaphoreInit s value =>
          rw [show v' = v.setSemaphore s _ from hdoes]
          exact h
      | semaphoreUp s =>
          simp only [Step] at hdoes
          split at hdoes
          · exact (WakesOne.orderly hdoes (by simp) (horderly.congr rfl rfl rfl)).agrees
          · rw [hdoes]
            exact h
      | semaphoreDown s =>
          simp only [Step] at hdoes
          split at hdoes
          · exact Waits.agrees (q := .semaphore s) hdoes (horderly.congr rfl rfl rfl)
          · rw [hdoes]
            exact h
      | conditionInit condition =>
          rw [show v' = v.setCondition condition 0 from hdoes]
          exact h
      | conditionWait condition lock =>
          obtain ⟨v₁, hreleases, hwaits⟩ := hdoes
          have hset : (v.setCondition condition
              ((v.conditions condition).waitingNum + 1)).Orderly := horderly.congr rfl rfl rfl
          exact Waits.agrees (q := .condition condition) hwaits (hreleases.orderly hset)
      | conditionSignal condition =>
          simp only [Step] at hdoes
          split at hdoes
          · exact (WakesOne.orderly hdoes (by simp) (horderly.congr rfl rfl rfl)).agrees
          · rw [hdoes]
            exact h
      | conditionBroadcast condition =>
          simp only [Step] at hdoes
          split at hdoes
          · rw [hdoes]
            have hset : (v.setCondition condition 0).Orderly := horderly.congr rfl rfl rfl
            exact (hset.wakeAll (by simp) rfl).agrees
          · rw [hdoes]
            exact h
      | barrierInit barrier goal =>
          rw [show v' = v.setBarrier barrier _ from hdoes]
          exact h
      | barrierWait barrier =>
          have hset : ∀ b, (v.setBarrier barrier b).Orderly := fun b =>
            horderly.congr rfl rfl rfl
          simp only [Step] at hdoes
          split at hdoes
          · rw [hdoes]
            exact ((hset _).wakeAll (by simp) rfl).agrees
          · exact Waits.agrees (q := .barrier barrier) hdoes (hset _)
      | waitRecv => exact Waits.agrees (q := .recv) hdoes horderly
      | timer =>
          have hticked : View.Orderly { v with time := v.time + 1 } := horderly.congr rfl rfl rfl
          have hnone := wakeSleeper_none (v := { v with time := v.time + 1 }) hspares
          simp only [Step] at hdoes
          rw [hnone] at hdoes
          exact Switches.agrees hdoes hticked.settled
      | mac => exact (WakesOne.orderly hdoes (by simp) horderly).agrees

end View

/-! ## Runs -/

/-- The running task is the only live one marked running; all others are marked as their queue. -/
structure StatusAgrees (k : Kernel) : Prop where
  live : k.Live k.currentRunning
  running : (k.pcb k.currentRunning).status = .running
  only : ∀ p, k.Live p → (k.pcb p).status = .running → p = k.currentRunning
  queue : ∀ q p, p ∈ k.items q → p ≠ k.currentRunning → (k.pcb p).status = q.status

/-- A timer interrupt at which no sleeping task's time has come. -/
def Event.SparesSleepers (k : Kernel) : Event → Prop
  | .entry .timer => ∀ p ∈ k.items .sleep, ¬ (k.pcb p).awakenedTime ≤ k.timeElapsed + 1
  | _ => True

instance (k : Kernel) (event : Event) : Decidable (event.SparesSleepers k) := by
  unfold Event.SparesSleepers
  split <;> infer_instance

theorem Event.SparesSleepers.view (h : event.SparesSleepers k) (hseen : Seen noTask True k v) :
    v.SparesSleepers event := by
  cases event with
  | resume => trivial
  | entry e =>
      cases e with
      | timer =>
          intro p hp
          rw [← hseen.items] at hp
          have hdue := h p hp
          rwa [show (k.pcb p).awakenedTime = v.awakened p from
              congrFun (congrArg View.awakened hseen.view) p,
            show k.timeElapsed = v.time from congrArg View.time hseen.view] at hdue
      | _ => trivial

theorem statusAgrees_of_run {k k₁ : Kernel} {events : List Event}
    (hinit : initTask Kernel.zero = .ok k)
    (run : (kernelSystem.restrict fun k event => event.SparesSleepers k).Run k events k₁)
    (hleft : k₁.currentRunning ≠ 0) : StatusAgrees k₁ := by
  obtain ⟨v, hseen, h⟩ := seen_of_run (I := View.Agrees) (fun q p hp => absurd hp List.not_mem_nil)
    (fun v pid hwf h hdead hpid => (h.orderly hwf).spawn hdead hwf hpid)
    (fun hseen hspares hmoves h => h.moves hmoves (hspares.view hseen)) hinit run
  have hstatus : ∀ p, (k₁.pcb p).status = v.status p := fun p =>
    congrFun (congrArg View.status hseen.view) p
  have hready := hseen.current_mem hleft
  refine ⟨hseen.table.live hready, ?_, ?_, ?_⟩
  · rw [hstatus, h _ _ hready, if_pos hseen.current_eq.symm]
  · intro p hp hrunning
    obtain ⟨q, hq⟩ := hseen.table.covered hp id
    rw [hstatus, h q p hq] at hrunning
    by_contra hne
    rw [if_neg (by rw [hseen.current_eq]; exact hne)] at hrunning
    exact q.status_ne_running hrunning
  · intro q p hp hne
    rw [hseen.items] at hp
    rw [hstatus, h q p hp, if_neg (by rw [hseen.current_eq]; exact hne)]

/-- The shell sleeps for a while, and the next interrupt leaves it asleep. -/
theorem statusAgrees_asleep :
    ∃ k₁, kernelSystem.Run ticked [.entry (.sleep 100), .entry .timer] k₁ ∧
      (∃ p, p ∈ k₁.items .sleep) ∧ StatusAgrees k₁ := by
  let k₁ := (ticked.after (.sleep 100)).after .timer
  have hasleep : kernelSystem.step ticked (.entry (.sleep 100)) (ticked.after (.sleep 100)) :=
    step_after (by decide +kernel) (by decide +kernel)
  have hstep : kernelSystem.step (ticked.after (.sleep 100)) (.entry .timer) k₁ :=
    step_after (by decide +kernel) (by decide +kernel)
  have run : (kernelSystem.restrict fun k event => event.SparesSleepers k).Run booted _ k₁ :=
    .snoc (.snoc (.single ⟨by decide +kernel, step_after (by decide +kernel) (by decide +kernel)⟩)
      ⟨by decide +kernel, hasleep⟩) ⟨by decide +kernel, hstep⟩
  exact ⟨k₁, .snoc (.single hasleep) hstep, ⟨2, by decide +kernel⟩,
    statusAgrees_of_run initTask_zero run (by decide +kernel)⟩

/-- A task whose time has come is in the ready queue and still marked as sleeping. -/
theorem woken_sleeping :
    initTask Kernel.zero = .ok booted ∧ (∃ events, kernelSystem.Run booted events spawned) ∧
    ∃ k₁, kernelSystem.Run spawned [.entry (.sleep 5), .entry .timer] k₁ ∧
      k₁.currentRunning = 2 ∧ 3 ∈ k₁.items .ready ∧ (k₁.pcb 3).status = .sleeping ∧
      ¬ StatusAgrees k₁ := by
  refine ⟨initTask_zero, ⟨_, run_spawned⟩, _, run_follow (by decide +kernel), ?_, ?_, ?_, ?_⟩
  · decide +kernel
  · decide +kernel
  · decide +kernel
  · intro h
    exact absurd (h.queue .ready 3 (by decide +kernel) (by decide +kernel)) (by decide +kernel)

end UcasOs.Sched
