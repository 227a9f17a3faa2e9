import UcasOs.Sched.KilledOwners

/-!
# Tasks waiting for a mutex

A release opens the lock and makes one waiter ready, which tries the lock again
when it runs.  The other waiters depend on that task.  As long as nobody kills
the last task on its way back to an open lock, a waiter always has a live owner
or such a task to wait for.
-/

namespace UcasOs.Sched

open UcasOs.Foundation UcasOs.Libs

variable {k k' : Kernel} {v v' : View} {event : Event} {lock : Nat} {strict : Prop} {pid p : Pid}

namespace View

/-- A ready task is inside `do_mutex_lock_acquire(lock)`, about to look at the lock again. -/
def Rechecks (v : View) (lock : Nat) (p : Pid) : Prop :=
  p ∈ v.queue .ready ∧ v.kont p = .acquire lock

def Unstranded (lock : Nat) (v : View) : Prop :=
  v.queue (.mutex lock) ≠ [] → (v.mutexes lock).status = .locked ∨ ∃ p, v.Rechecks lock p

/-- A kill that leaves somebody on the way back to an open lock. -/
def SparesWoken (lock : Nat) (v : View) (event : Event) : Prop :=
  ∀ p, event.Kills v p → v.Rechecks lock p → (v.mutexes lock).status ≠ .locked →
    v.queue (.mutex lock) ≠ [] → ∃ w, w ≠ p ∧ v.Rechecks lock w

/-- The lock is as it was, and so are the tasks on their way back to it. -/
theorem Unstranded.keep (h : Unstranded lock v)
    (hqueue : v'.queue (.mutex lock) ≠ [] → v.queue (.mutex lock) ≠ [])
    (hmutex : v'.mutexes lock = v.mutexes lock)
    (hback : ∀ p, v.Rechecks lock p → v'.Rechecks lock p) : Unstranded lock v' := by
  intro hne
  rw [hmutex]
  exact (h (hqueue hne)).imp id fun ⟨p, hp⟩ => ⟨p, hback p hp⟩

theorem Unstranded.locked (hlocked : (v'.mutexes lock).status = .locked) : Unstranded lock v' :=
  fun _ => .inl hlocked

/-- Whoever was handed the lock over is on the way back to it. -/
theorem HandsOver.unstranded (h : HandsOver lock v v') (hqueued : Queued v)
    (hkont : ∀ w ∈ v.queue (.mutex lock), v'.kont w = v.kont w) : Unstranded lock v' := by
  intro hne
  obtain ⟨-, ⟨-, hnil⟩ | ⟨w, hw, hready, -⟩⟩ := h
  · exact absurd hnil hne
  · exact .inr ⟨w, hready, by rw [hkont w hw, hqueued.kont lock w hw]⟩

theorem Steady.rechecks (h : v.Steady v') (hfresh : v.Fresh) (hp : v.Rechecks lock p) :
    v'.Rechecks lock p := by
  have hne : p ≠ v.current := fun he => hfresh lock (he ▸ hp.2)
  exact ⟨h.ready p hp.1 hne, by rw [h.kont p hne, hp.2]⟩

theorem Unstranded.take {lock' : Nat} (h : Unstranded lock v) (hcomes : v.Comes lock')
    (htakes : v.TakesOpen lock' v') : Unstranded lock v' := by
  obtain ⟨-, v₀, hloop, rfl⟩ := htakes
  by_cases hl : lock = lock'
  · subst hl
    exact .locked (by simp [setMutex])
  · have hsame : v₀.queue = v.queue ∧ v₀.mutexes = v.mutexes := by
      obtain ⟨rfl, -⟩ | rfl := hloop <;> exact ⟨rfl, rfl⟩
    refine h.keep ?_ ?_ ?_
    · change v₀.queue (.mutex lock) ≠ [] → _
      rw [hsame.1]
      exact id
    · simp [setMutex, addLocks, hl, hsame.2]
    · intro p hp
      have hne : p ≠ v.current := fun he => hl (hcomes.2.1 lock (he ▸ hp.2))
      refine ⟨?_, ?_⟩
      · change p ∈ v₀.queue .ready
        rw [hsame.1]
        exact hp.1
      · exact (hloop.kont_other hne).trans hp.2

theorem Unstranded.block {lock' : Nat} (h : Unstranded lock v) (hcomes : v.Comes lock')
    (hblocks : v.BlocksOn lock' v') : Unstranded lock v' := by
  obtain ⟨hlocked, v₀, hloop, next, -, rfl⟩ := hblocks
  have hsame : v₀.queue = v.queue ∧ v₀.mutexes = v.mutexes ∧ v₀.current = v.current := by
    obtain ⟨rfl, -⟩ | rfl := hloop <;> exact ⟨rfl, rfl, rfl⟩
  obtain ⟨hqueue, hmutexes, hcurrent⟩ := hsame
  by_cases hl : lock = lock'
  · subst hl
    refine .locked ?_
    change (v₀.mutexes lock).status = .locked
    rw [hmutexes]
    exact hlocked
  · refine h.keep ?_ ?_ ?_
    · intro hne
      simpa [switch, View.block, join, leave, hl, hqueue] using hne
    · change v₀.mutexes lock = _
      rw [hmutexes]
    · intro p hp
      have hne : p ≠ v.current := fun he => hl (hcomes.2.1 lock (he ▸ hp.2))
      refine ⟨?_, ?_⟩
      · change p ∈ join (leave v₀.queue .ready v₀.current) (.mutex lock') v₀.current .ready
        rw [mem_join, hqueue, hcurrent, leave, Function.update_self]
        exact .inl ((List.mem_erase_of_ne hne).mpr hp.1)
      · rw [switch_kont, Function.update_of_ne (by rw [← hcurrent] at hne; exact hne)]
        exact (hloop.kont_other hne).trans hp.2

theorem Unstranded.give {lock' : Nat} (h : Unstranded lock v) (hwf : v.Wf) (hqueued : Queued v)
    (hfresh : v.Fresh) (hboot : v.current ≠ 0) (hgives : v.GivesUp lock' v') :
    Unstranded lock v' := by
  obtain ⟨-, v₁, hwakes, hsteady⟩ := hgives
  obtain ⟨hwakeful, hhands, hleaves, -, -⟩ := hwakes.handsOver rfl
  have hkont : ∀ p, p ≠ v.current → v'.kont p = v.kont p := by
    intro p hp
    rw [hsteady.kont p (by rw [hwakeful.current]; exact hp), hwakeful.kont]
  by_cases hl : lock = lock'
  · subst hl
    have hother : ∀ w ∈ v.queue (.mutex lock), w ≠ v.current := by
      rintro w hw rfl
      exact nomatch hwf.apart hw (hwf.current hboot)
    have hhands' : HandsOver lock v v' := by
      obtain ⟨hopen, hqueue⟩ := hhands
      refine ⟨by rw [hsteady.mutexes, hopen], ?_⟩
      rw [hsteady.queue lock]
      refine hqueue.imp id fun ⟨w, hw, hready, herase⟩ => ⟨w, hw, ?_, herase⟩
      exact hsteady.ready w hready (by rw [hwakeful.current]; exact hother w hw)
    exact hhands'.unstranded hqueued fun w hw => hkont w (hother w hw)
  · have hsame := hleaves lock hl
    refine h.keep ?_ ?_ ?_
    · rw [hsteady.queue lock, hsame.2]
      exact id
    · rw [hsteady.mutexes, hsame.1]
    · intro p hp
      have hne : p ≠ v.current := fun he => hfresh lock (he ▸ hp.2)
      refine ⟨hsteady.ready p (hwakeful.ready hp.1) (by rw [hwakeful.current]; exact hne), ?_⟩
      rw [hkont p hne, hp.2]

theorem Unstranded.bury (h : Unstranded lock v) (hwf : v.Wf) (hqueued : Queued v)
    (hburied : Buried pid v v')
    (hspares : v.Rechecks lock pid → (v.mutexes lock).status ≠ .locked →
      v.queue (.mutex lock) ≠ [] → ∃ w, w ≠ pid ∧ v.Rechecks lock w) : Unstranded lock v' := by
  have hback : ∀ p, p ≠ pid → v.Rechecks lock p → v'.Rechecks lock p := fun p hne hp =>
    ⟨hburied.ready p hp.1 hne, by rw [hburied.kont p hne, hp.2]⟩
  by_cases howner : (v.mutexes lock).owner = pid
  · have hnot : pid ∉ v.queue (.mutex lock) := fun hmem =>
      hqueued.owner lock pid (hwf.live hmem) (hqueued.kont lock pid hmem) howner
    refine (hburied.opened lock howner hnot).unstranded hqueued fun w hw => hburied.kont w ?_
    rintro rfl
    exact hnot hw
  · obtain ⟨hmutex, hqueue⟩ := hburied.other lock howner
    intro hne
    have hwaiters : v.queue (.mutex lock) ≠ [] := by
      intro hnil
      rw [hqueue, hnil] at hne
      exact hne rfl
    rw [hmutex]
    by_cases hlocked : (v.mutexes lock).status = .locked
    · exact .inl hlocked
    · obtain ⟨p, hp⟩ := (h hwaiters).resolve_left hlocked
      by_cases hpid : p = pid
      · obtain ⟨w, hw, hback'⟩ := hspares (hpid ▸ hp) hlocked hwaiters
        exact .inr ⟨w, hback w hw hback'⟩
      · exact .inr ⟨p, hback p hpid hp⟩

theorem Unstranded.moves (h : Unstranded lock v) (hlocks : Locks strict v)
    (hmoves : v.Moves event v') (hspares : v.SparesLocks event)
    (hwoken : SparesWoken lock v event) : Unstranded lock v' := by
  have hwf := hmoves.before
  obtain ⟨hfresh, hsteady⟩ | ⟨-, pid, hdead, -, rfl⟩ | ⟨-, l, -, hnil, rfl⟩ |
    ⟨l, hcomes, htakes⟩ | ⟨l, hcomes, hblocks⟩ | ⟨hfresh, hboot, l, hgives⟩ |
    ⟨-, pid, hkills, hkilled⟩ := hmoves.lockStep
  · refine h.keep ?_ (by rw [hsteady.mutexes]) fun p hp => hsteady.rechecks hfresh hp
    rw [hsteady.queue lock]
    exact id
  · refine h.keep ?_ rfl ?_
    · simp [spawn, join]
    · rintro p ⟨hready, hkont⟩
      have hne : p ≠ pid := fun he => hdead (he ▸ hwf.live hready)
      refine ⟨by simp [spawn, join, hready], ?_⟩
      change Function.update v.kont pid .ret p = _
      rw [Function.update_of_ne hne, hkont]
  · by_cases hl : lock = l
    · subst hl
      exact fun hne => absurd hnil hne
    · exact h.keep id (by simp [setMutex, hl]) fun p hp => hp
  · exact h.take hcomes htakes
  · exact h.block hcomes hblocks
  · exact h.give hwf hlocks.queued hfresh hboot hgives
  · have hburied := (hkilled.buried hwf hlocks.held (hspares pid hkills)).1
    exact h.bury hwf hlocks.queued hburied (hwoken pid hkills)

end View

/-! ## Runs -/

def Kernel.Rechecks (k : Kernel) (lock : Nat) (p : Pid) : Prop :=
  p ∈ k.items .ready ∧ k.kont p = .acquire lock

/-- A kill that leaves somebody on the way back to every open lock of `locks[]` with waiters. -/
def Event.SparesWoken (k : Kernel) (event : Event) : Prop :=
  ∀ lock, lock < maxLocksNum → ∀ p, event.Victim k p → k.Rechecks lock p →
    (k.mutexes lock).status ≠ .locked → k.items (.mutex lock) ≠ [] →
    ∃ w, w ≠ p ∧ k.Rechecks lock w

theorem Seen.rechecks_iff {boot : Prop} (h : Seen noTask boot k v) :
    v.Rechecks lock p ↔ k.Rechecks lock p := by
  rw [View.Rechecks, Kernel.Rechecks, h.items, h.kont_eq]

theorem Event.SparesWoken.view {boot : Prop} (hspares : event.SparesWoken k)
    (h : Seen noTask boot k v) (hlock : lock < maxLocksNum) : View.SparesWoken lock v event := by
  intro p hkills hback hopen hwaiters
  rw [h.mutexes_eq] at hopen
  rw [← h.items] at hwaiters
  obtain ⟨w, hne, hw⟩ := hspares lock hlock p (h.kills_iff.mp hkills) (h.rechecks_iff.mp hback)
    hopen hwaiters
  exact ⟨w, hne, h.rechecks_iff.mpr hw⟩

/-- Runs in which no victim owns a mutex outside `locks[]` or is the last way on for a waiter. -/
def wakeSafeSystem : Lts Kernel Event :=
  kernelSystem.restrict fun k event => event.SparesLocks k ∧ event.SparesWoken k

theorem mutexWaiters_of_run {k k₁ : Kernel} {events : List Event}
    (hinit : initTask Kernel.zero = .ok k) (run : wakeSafeSystem.Run k events k₁)
    (hlock : lock < maxLocksNum) (hwaiters : k₁.items (.mutex lock) ≠ []) :
    ((k₁.mutexes lock).status = .locked ∧ k₁.Live (k₁.mutexes lock).owner) ∨
      ∃ p, k₁.Live p ∧ k₁.Rechecks lock p := by
  obtain ⟨v, hseen, hlocks, h⟩ := seen_of_run
    (I := fun v => v.Locks False ∧ View.Unstranded lock v)
    ⟨View.Locks.initial False, fun hne => absurd rfl hne⟩
    (by
      rintro v pid hwf ⟨hlocks, h⟩ hdead hpid
      refine ⟨hlocks.spawn hwf hdead hpid, h.keep (by simp [View.spawn, join]) rfl ?_⟩
      rintro p ⟨hready, hkont⟩
      have hne : p ≠ pid := fun he => hdead (he ▸ hwf.live hready)
      refine ⟨by simp [View.spawn, join, hready], ?_⟩
      change Function.update v.kont pid .ret p = _
      rw [Function.update_of_ne hne, hkont])
    (by
      rintro k v event v' hseen ⟨hspares, hwoken⟩ hmoves ⟨hlocks, h⟩
      have hspares' := hspares.view hseen
      exact ⟨hlocks.moves hmoves hspares' fun hfalse => hfalse.elim,
        h.moves hlocks hmoves hspares' (hwoken.view hseen hlock)⟩) hinit run
  rw [hseen.items] at hwaiters
  rw [← hseen.mutexes_eq]
  rcases h hwaiters with hlocked | ⟨p, hp⟩
  · refine .inl ⟨hlocked, (hseen.live_iff _).mp ?_⟩
    exact hlocks.held.owner_alive lock ((hlocks.held.locked lock).mp hlocked)
  · exact .inr ⟨p, hseen.table.live hp.1, hseen.rechecks_iff.mp hp⟩

/-- Three tasks are spawned; task 5 takes `locks[0]` and task 4 waits for it. -/
def contended : List Event :=
  [.entry .timer, .entry .timer, .entry (.spawn ⟨1⟩), .entry (.spawn ⟨1⟩), .entry (.spawn ⟨1⟩),
    .entry .timer, .entry .timer, .entry (.mutexAcquire 0), .entry .timer,
    .entry (.mutexAcquire 0)]

theorem mutexWaiters_contended :
    ∃ k₁, wakeSafeSystem.Run booted contended k₁ ∧ k₁.items (.mutex 0) = [4] ∧
      (((k₁.mutexes 0).status = .locked ∧ k₁.Live (k₁.mutexes 0).owner) ∨
        ∃ p, k₁.Live p ∧ k₁.Rechecks 0 p) := by
  have run : wakeSafeSystem.Run booted contended (booted.follow contended) := by
    refine (run_follow (by decide +kernel)).restricted fun event hevent k => ?_
    have hharmless : event.harmless = true := List.all_eq_true.mp (by decide) event hevent
    exact ⟨(Event.lockSafe hharmless k).1,
      fun _ _ p hvictim => absurd hvictim (Event.not_victim hharmless k p)⟩
  have hitems : (booted.follow contended).items (.mutex 0) = [4] := by decide +kernel
  refine ⟨_, run, hitems, mutexWaiters_of_run initTask_zero run (by decide) ?_⟩
  rw [hitems]
  simp

/--
Task 3 waits as well; the owner releases the lock, which wakes task 3, and kills
task 3 before it runs.  Task 4 waits for an open lock that nobody comes back to.
-/
theorem mutexWaiters_stranded :
    ∃ k₁, kernelSystem.Run booted (contended ++ [.entry (.mutexAcquire 0), .entry .timer,
        .entry .timer, .entry (.mutexRelease 0), .entry (.kill 3)]) k₁ ∧
      k₁.items (.mutex 0) = [4] ∧ (k₁.mutexes 0).status = .unlocked ∧
      ∀ p, ¬ k₁.Rechecks 0 p := by
  let k₁ := booted.follow (contended ++ [.entry (.mutexAcquire 0), .entry .timer,
    .entry .timer, .entry (.mutexRelease 0), .entry (.kill 3)])
  have hnone : ∀ p ∈ k₁.items .ready, k₁.kont p ≠ .acquire 0 := by decide +kernel
  exact ⟨k₁, run_follow (by decide +kernel), by decide +kernel, by decide +kernel,
    fun p hp => hnone p hp.1 hp.2⟩

end UcasOs.Sched
