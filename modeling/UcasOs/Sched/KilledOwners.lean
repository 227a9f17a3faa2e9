import UcasOs.Sched.LockOwners

/-!
# Killing the owner of a mutex

`kill` gives up the mutexes of its victim that are in `locks[]`.  As long as no
victim owns another one, and no mutex is initialised while it is held, the
death of a task leaves no mutex behind and all counts right.
-/

namespace UcasOs.Sched

open UcasOs.Foundation UcasOs.Libs

/-- The event is a successful kill of `p`. -/
def Event.Victim (k : Kernel) (p : Pid) : Event → Prop
  | .entry (.kill pid) => pid ≠ 1 ∧ pid = p ∧ k.Live p
  | .entry .exit => k.currentRunning ≠ 1 ∧ k.currentRunning = p ∧ k.Live p
  | _ => False

/-- A killed task owns no mutex outside `locks[]`. -/
def Event.SparesLocks (k : Kernel) (event : Event) : Prop :=
  ∀ p, event.Victim k p → ∀ lock, (k.mutexes lock).owner = p → lock < maxLocksNum

/-- No mutex is initialised while it is held. -/
def Event.SparesHeld (k : Kernel) (event : Event) : Prop :=
  ∀ lock, event = .entry (.mutexInit lock) → (k.mutexes lock).owner = 0

variable {k k' : Kernel} {v v' : View} {event : Event} {boot : Prop} {p : Pid}

theorem Seen.kills_iff (h : Seen noTask boot k v) : event.Kills v p ↔ event.Victim k p := by
  cases event with
  | resume => exact Iff.rfl
  | entry e =>
      cases e with
      | kill pid =>
          change (pid ≠ 1 ∧ pid = p ∧ v.live p) ↔ (pid ≠ 1 ∧ pid = p ∧ k.Live p)
          rw [h.live_iff]
      | exit =>
          change ((v.current : Int) ≠ 1 ∧ (v.current : Int) = p ∧ v.live p) ↔
            (k.currentRunning ≠ 1 ∧ k.currentRunning = p ∧ k.Live p)
          rw [h.live_iff, h.current_eq]
          norm_cast
      | _ => exact Iff.rfl

theorem Event.SparesLocks.view (hspares : event.SparesLocks k) (h : Seen noTask boot k v) :
    v.SparesLocks event := by
  intro p hkills
  rw [h.mutexes_eq]
  exact hspares p (h.kills_iff.mp hkills)

/-- The owners of mutexes and the tasks in their queues. -/
structure View.Locks (strict : Prop) (v : View) : Prop where
  held : Held strict v.live v
  queued : Queued v

theorem View.Locks.initial (strict : Prop) : Locks strict View.initial := by
  have hnone : ∀ p, p ≠ 0 → View.initial.owned p = ∅ := by
    intro p hp
    ext l
    simp [View.owned, View.initial, Ne.symm hp]
  refine ⟨⟨?_, ?_, ?_, ?_, ?_, ?_⟩, ?_, ?_⟩
  · exact fun p hp => hp.elim
  · exact fun l => by simp [View.initial]
  · exact fun l hl => absurd rfl hl
  · intro p hp
    rw [hnone p hp]
    exact Set.finite_empty
  · exact fun p hp => hp.elim
  · exact fun _ p hp => hp.elim
  · exact fun l p hp => absurd hp List.not_mem_nil
  · exact fun l p hp => hp.elim

theorem View.Locks.spawn {strict : Prop} {pid : Pid} (h : Locks strict v) (hwf : v.Wf)
    (hdead : ¬ v.live pid) (hpid : pid ≠ 0) : Locks strict (v.spawn pid) :=
  ⟨h.held.spawn hdead hpid, h.queued.spawn hwf hdead⟩

theorem View.Locks.moves {strict : Prop} (h : Locks strict v) (hmoves : v.Moves event v')
    (hspares : v.SparesLocks event)
    (hinit : strict → ∀ l, event = .entry (.mutexInit l) → (v.mutexes l).owner = 0) :
    Locks strict v' :=
  ⟨h.held.moves hmoves hspares hinit, h.queued.moves h.held hmoves hspares⟩

theorem View.KillStep.kills {pid : Int} (h : v.KillStep pid v') (hone : pid ≠ 1)
    (haccepted : v.Accepts pid p) : v.Kills p v' := by
  obtain ⟨hrefused, -⟩ | ⟨-, p', ⟨hpid, -⟩, hkills⟩ := h
  · exact (hrefused.elim hone fun hnone => hnone p haccepted).elim
  · rw [haccepted.1, Int.natCast_inj] at hpid
    exact hpid ▸ hkills

theorem View.Does.kills (h : v.Does v' event) (hkills : event.Kills v p) : v.Kills p v' := by
  cases event with
  | resume => exact hkills.elim
  | entry e =>
      cases e with
      | kill pid => exact View.KillStep.kills h hkills.1 hkills.2
      | exit => exact View.KillStep.kills h hkills.1 hkills.2
      | _ => exact hkills.elim

/-- Runs in which no victim owns a mutex outside `locks[]` and no held mutex is initialised. -/
def lockSafeSystem : Lts Kernel Event :=
  kernelSystem.restrict fun k event => event.SparesLocks k ∧ event.SparesHeld k

theorem locks_of_run {k k₁ : Kernel} {events : List Event}
    (hinit : initTask Kernel.zero = .ok k) (run : lockSafeSystem.Run k events k₁) :
    ∃ v, Seen noTask True k₁ v ∧ v.Locks True := by
  refine seen_of_run (View.Locks.initial True)
    (fun v pid hwf h hdead hpid => h.spawn hwf hdead hpid) ?_ hinit run
  intro k v event v' hseen hallowed hmoves h
  refine h.moves hmoves (hallowed.1.view hseen) fun _ l hl => ?_
  rw [hseen.mutexes_eq]
  exact hallowed.2 l hl

/-- The number of mutexes a task owns. -/
noncomputable def Kernel.ownedNum (k : Kernel) (p : Pid) : Nat :=
  {lock | (k.mutexes lock).owner = p}.ncard

theorem Seen.lockNum_eq {S : Pid → Prop} (h : Seen S boot k v) (p : Pid) :
    (k.pcb p).lockNum = v.lockNum p :=
  congrFun (congrArg View.lockNum h.view) p

theorem killedOwner_of_run {k k₁ k₂ : Kernel} {events : List Event}
    (hinit : initTask Kernel.zero = .ok k) (run : lockSafeSystem.Run k events k₁)
    (hvictim : event.Victim k₁ p) (hstep : lockSafeSystem.step k₁ event k₂) :
    (∀ lock, (k₂.mutexes lock).owner ≠ p) ∧
    (∀ lock, (k₁.mutexes lock).owner = p → (k₂.mutexes lock).status = .unlocked ∧
      (k₁.items (.mutex lock) ≠ [] → ∃ w ∈ k₁.items (.mutex lock), w ∈ k₂.items .ready ∧
        k₂.items (.mutex lock) = (k₁.items (.mutex lock)).erase w)) ∧
    ∀ x, k₂.Live x → (k₂.pcb x).lockNum = k₂.ownedNum x := by
  obtain ⟨v, hseen, h⟩ := locks_of_run hinit run
  obtain ⟨⟨hspares, hheld⟩, hstep'⟩ := hstep
  obtain ⟨v', hseen', hmoves⟩ := hseen.step hstep'
  have hkills := hseen.kills_iff.mpr hvictim
  have hspares' := hspares.view hseen
  have h' := h.moves hmoves hspares' fun _ l hl => by
    rw [hseen.mutexes_eq]
    exact hheld l hl
  obtain ⟨hburied, -, hgone⟩ :=
    (hmoves.does.kills hkills).buried hmoves.before h.held (hspares' p hkills)
  refine ⟨?_, ?_, ?_⟩
  · rw [← hseen'.mutexes_eq]
    exact hgone
  · intro lock howner
    rw [← hseen.mutexes_eq] at howner
    have hnot : p ∉ v.queue (.mutex lock) := fun hmem =>
      h.queued.owner lock p (hmoves.before.live hmem) (h.queued.kont lock p hmem) howner
    obtain ⟨hopen, hqueue⟩ := hburied.opened lock howner hnot
    rw [hseen.items, hseen'.items, hseen'.items, ← hseen'.mutexes_eq, hopen]
    exact ⟨rfl, fun hwaiters => hqueue.resolve_left fun hnil => hwaiters hnil.1⟩
  · intro x hx
    have hslack := h'.held.slack_zero trivial x ((hseen'.live_iff x).mpr hx)
    rw [View.slack, View.owned, hseen'.mutexes_eq] at hslack
    rw [hseen'.lockNum_eq, Kernel.ownedNum]
    omega

/-- The event neither kills a task nor initialises a mutex. -/
def Event.harmless : Event → Bool
  | .entry (.kill _) | .entry .exit | .entry (.mutexInit _) => false
  | _ => true

theorem Event.not_victim (hevent : event.harmless = true) (k : Kernel) (p : Pid) :
    ¬ event.Victim k p := by
  cases event with
  | resume => exact id
  | entry e =>
      cases e with
      | kill | exit => cases hevent
      | _ => exact id

theorem Event.lockSafe (hevent : event.harmless = true) (k : Kernel) :
    event.SparesLocks k ∧ event.SparesHeld k := by
  refine ⟨fun p hvictim => absurd hvictim (Event.not_victim hevent k p), ?_⟩
  rintro lock rfl
  cases hevent

/-- The spawned task has taken `locks[0]`, and another runs. -/
def lockTaken : Kernel := spawned.follow [.entry (.mutexAcquire 0), .entry .timer]

theorem lockTaken_mutexes :
    lockTaken.mutexes = Function.update (fun _ => ⟨.unlocked, 0⟩) 0 ⟨.locked, 3⟩ := rfl

theorem lockTaken_live : lockTaken.Live 3 := ⟨by decide, by decide, rfl⟩

theorem killedOwner_spawned :
    ∃ k₁ k₂, kernelSystem.Run spawned [.entry (.mutexAcquire 0), .entry .timer] k₁ ∧
      kernelSystem.step k₁ (.entry (.kill 3)) k₂ ∧ (k₁.mutexes 0).owner = 3 ∧
      (k₂.mutexes 0).status = .unlocked ∧ (k₂.mutexes 0).owner ≠ 3 := by
  have run₁ : kernelSystem.Run spawned [.entry (.mutexAcquire 0), .entry .timer] lockTaken :=
    run_follow (by decide +kernel)
  have hstep : kernelSystem.step lockTaken (.entry (.kill 3)) (lockTaken.after (.kill 3)) :=
    step_after (by decide +kernel) (by decide +kernel)
  have howner : (lockTaken.mutexes 0).owner = 3 := by rw [lockTaken_mutexes]; rfl
  have hsafe : lockSafeSystem.step lockTaken (.entry (.kill 3)) (lockTaken.after (.kill 3)) := by
    refine ⟨⟨?_, fun _ h => nomatch h⟩, hstep⟩
    rintro p ⟨-, hp, -⟩ lock howner
    obtain rfl : p = 3 := by exact_mod_cast hp.symm
    rw [lockTaken_mutexes] at howner
    by_cases hlock : lock = 0
    · rw [hlock]
      decide
    · simp [hlock] at howner
  have run : lockSafeSystem.Run booted _ lockTaken :=
    (run_spawned.append run₁).restricted fun event hevent =>
      Event.lockSafe (List.all_eq_true.mp (by decide) event hevent)
  have hvictim : (Event.entry (.kill 3)).Victim lockTaken 3 := ⟨by decide, rfl, lockTaken_live⟩
  have h := killedOwner_of_run initTask_zero run hvictim hsafe
  exact ⟨lockTaken, _, run₁, hstep, howner, (h.2.1 0 howner).1, h.1 0⟩

/-- A mutex outside `locks[]` stays locked when its owner is killed. -/
theorem killedOwner_outside :
    initTask Kernel.zero = .ok booted ∧ (∃ events, kernelSystem.Run booted events spawned) ∧
    ∃ k₂, kernelSystem.Run spawned [.entry (.mutexInit 16), .entry (.mutexAcquire 16),
        .entry .timer, .entry (.kill 3)] k₂ ∧
      ¬ k₂.Live 3 ∧ (k₂.mutexes 16).status = .locked ∧ (k₂.mutexes 16).owner = 3 := by
  refine ⟨initTask_zero, ⟨_, run_spawned⟩, _, run_follow (by decide +kernel), ?_, ?_, ?_⟩
  · exact fun h => absurd h.2.2 (by decide +kernel)
  · decide +kernel
  · decide +kernel

end UcasOs.Sched
