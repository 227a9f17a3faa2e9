import UcasOs.Sched.Entries

/-!
# Mutual exclusion

Beside the kernel state, `lockSystem` keeps the set of tasks that are between
an acquire of one mutex and its release.  The lock word names the only task
that can be in this set.
-/

namespace UcasOs.Sched

open UcasOs.Foundation UcasOs.Libs

/-- The running task is inside `do_mutex_lock_acquire(lock)` in this event. -/
def Event.Takes (lock : Nat) (k : Kernel) : Event → Prop
  | .entry (.mutexAcquire l) => l = lock
  | .resume =>
      k.kont k.currentRunning = .acquire lock ∨ k.kont k.currentRunning = .reacquire lock
  | _ => False

/-- The running task calls `do_mutex_lock_release(lock)` in this event. -/
def Event.Gives (lock : Nat) : Event → Prop
  | .entry (.mutexRelease l) => l = lock
  | .entry (.conditionWait _ l) => l = lock
  | _ => False

/-- A task begins to hold the lock where acquire returns to it, not where it blocks there. -/
def holders (lock : Nat) (k : Kernel) (event : Event) (k' : Kernel) (held : Pid → Prop) :
    Pid → Prop :=
  fun p => k'.Live p ∧
    ((p = k.currentRunning ∧ event.Takes lock k ∧ k'.kont p = .ret) ∨
      (held p ∧ ¬ (p = k.currentRunning ∧ (event.Takes lock k ∨ event.Gives lock))))

def lockSystem (lock : Nat) : Lts (Kernel × (Pid → Prop)) Event where
  step s event s' :=
    kernelSystem.step s.1 event s'.1 ∧ event ≠ .entry (.mutexInit lock) ∧
      s'.2 = holders lock s.1 event s'.1 s.2

/-- The lock word agrees with the tasks that hold the lock. -/
structure Guarded (lock : Nat) (k : Kernel) (held : Pid → Prop) : Prop where
  inv : Inv k noTask True
  locked_of_owner : (k.mutexes lock).owner ≠ 0 → (k.mutexes lock).status = .locked
  word : ∀ p, held p → k.Live p ∧ k.mutexes lock = ⟨.locked, p⟩

variable {lock : Nat} {k k' : Kernel} {held : Pid → Prop} {event : Event}

/-- An event outside acquire that leaves the lock word and the live tasks as they were. -/
theorem Guarded.idle (h : Guarded lock k held) (hinv : Inv k' noTask True)
    (hword : k'.mutexes lock = k.mutexes lock) (htakes : ¬ event.Takes lock k) :
    Guarded lock k' (holders lock k event k' held) := by
  refine ⟨hinv, ?_, ?_⟩
  · rw [hword]
    exact h.locked_of_owner
  · rintro p ⟨hlive, hnow | hbefore⟩
    · exact absurd hnow.2.1 htakes
    · exact ⟨hlive, hword ▸ (h.word p hbefore.1).2⟩

/-- The lock is opened, and its holder has released it or is dead. -/
theorem Guarded.opened (h : Guarded lock k held) (hinv : Inv k' noTask True)
    (hword : k'.mutexes lock = ⟨.unlocked, 0⟩) (htakes : ¬ event.Takes lock k)
    (howner : ¬ k'.Live (k.mutexes lock).owner ∨
      ((k.mutexes lock).owner = k.currentRunning ∧ event.Gives lock)) :
    Guarded lock k' (holders lock k event k' held) := by
  refine ⟨hinv, ?_, ?_⟩
  · simp [hword]
  · rintro p ⟨hlive, hnow | hbefore⟩
    · exact absurd hnow.2.1 htakes
    · have hp : (k.mutexes lock).owner = p := by rw [(h.word p hbefore.1).2]
      rw [hp] at howner
      rcases howner with hdead | ⟨hcur, hgives⟩
      · exact absurd hlive hdead
      · exact absurd ⟨hcur, .inr hgives⟩ hbefore.2

theorem Guarded.released (h : Guarded lock k held) (hinv : Inv k' noTask True) {l : Nat}
    (hreleased : Released l k k') (htakes : ¬ event.Takes lock k)
    (hgives : l = lock → event.Gives lock) :
    Guarded lock k' (holders lock k event k' held) := by
  obtain ⟨-, ⟨-, hmutexes⟩ | ⟨howner, hmutexes⟩⟩ := hreleased
  · exact h.idle hinv (by rw [hmutexes]) htakes
  · by_cases hl : l = lock
    · subst hl
      exact h.opened hinv (by simp [hmutexes]) htakes (.inr ⟨howner, hgives rfl⟩)
    · exact h.idle hinv (by simp [hmutexes, Ne.symm hl]) htakes

/-- `k₀` is `k` with the continuation of the running task taken up. -/
theorem Guarded.acquired (h : Guarded lock k held) (hinv : Inv k' noTask True)
    {k₀ : Kernel} (hacquired : Acquired lock k₀ k') (hmutexes₀ : k₀.mutexes = k.mutexes)
    (hcur₀ : k₀.currentRunning = k.currentRunning) (hboot : k.currentRunning ≠ 0) :
    Guarded lock k' (holders lock k event k' held) := by
  obtain ⟨-, ⟨howner, rfl⟩ | ⟨hopen, -, hmutexes⟩ | ⟨-, hmutexes, hkont⟩⟩ := hacquired
  · -- The running task owns the lock already.
    rw [hmutexes₀, hcur₀] at howner
    have hword : k.mutexes lock = ⟨.locked, k.currentRunning⟩ := by
      rw [← howner, ← h.locked_of_owner (by rw [howner]; exact hboot)]
    refine ⟨hinv, ?_, ?_⟩
    · rw [hmutexes₀]
      exact h.locked_of_owner
    · rintro p ⟨hlive, ⟨rfl, -⟩ | hbefore⟩
      · exact ⟨hlive, by rw [hmutexes₀, hword]⟩
      · exact ⟨hlive, by rw [hmutexes₀]; exact (h.word p hbefore.1).2⟩
  · -- The lock was open, so nobody held it.
    rw [hmutexes₀, hcur₀] at hmutexes
    rw [hmutexes₀] at hopen
    refine ⟨hinv, by simp [hmutexes], ?_⟩
    rintro p ⟨hlive, ⟨rfl, -⟩ | hbefore⟩
    · exact ⟨hlive, by simp [hmutexes]⟩
    · rw [(h.word p hbefore.1).2] at hopen
      cases hopen
  · -- The running task blocks and has not returned.
    rw [hmutexes₀] at hmutexes
    refine ⟨hinv, ?_, ?_⟩
    · rw [hmutexes]
      exact h.locked_of_owner
    · rintro p ⟨hlive, ⟨rfl, -, hret⟩ | hbefore⟩
      · rw [hkont, hcur₀, Function.update_self] at hret
        cases hret
      · exact ⟨hlive, by rw [hmutexes]; exact (h.word p hbefore.1).2⟩

/-- Acquiring another lock changes nothing here. -/
theorem Acquired.other {l : Nat} (hacquired : Acquired l k k') (hl : l ≠ lock) :
    k'.mutexes lock = k.mutexes lock := by
  obtain ⟨-, ⟨-, rfl⟩ | ⟨-, -, hmutexes⟩ | ⟨-, hmutexes, -⟩⟩ := hacquired
  · rfl
  · simp [hmutexes, Ne.symm hl]
  · rw [hmutexes]

theorem Guarded.killed (h : Guarded lock k held) (hinv : Inv k' noTask True)
    (hkilled : Killed k k') (htakes : ¬ event.Takes lock k) :
    Guarded lock k' (holders lock k event k' held) := by
  rcases hkilled with ⟨-, hmutexes, -⟩ | ⟨pid, -, hlive, hopened, -⟩
  · exact h.idle hinv (by rw [hmutexes]) htakes
  · rcases hopened lock with hword | ⟨howner, hword⟩
    · exact h.idle hinv hword htakes
    · refine h.opened hinv hword htakes (.inl fun hl => ?_)
      exact ((hlive _).mp hl).1 howner

theorem Guarded.entry {e : Entry} (h : Guarded lock k held)
    (henabled : (Event.entry e).Enabled k) (hexec : k.enter e = .ok k')
    (hinit : e ≠ .mutexInit lock) :
    Guarded lock k' (holders lock k (.entry e) k' held) := by
  obtain ⟨hinv, heffect⟩ := (enter_inv h.inv (fun _ => id) henabled).of_ok hexec
  cases e with
  | spawn task => exact h.idle hinv (by rw [heffect.1]) id
  | kill pid => exact h.killed hinv heffect.1 id
  | exit => exact h.killed hinv heffect.1 id
  | mutexInit l =>
      have hl : lock ≠ l := fun he => hinit (by rw [he])
      exact h.idle hinv (by simp [heffect.2, hl]) id
  | mutexAcquire l =>
      by_cases hl : l = lock
      · subst hl
        exact h.acquired hinv heffect rfl rfl henabled.2.1
      · exact h.idle hinv (heffect.other hl) hl
  | mutexRelease l => exact h.released hinv heffect id id
  | conditionWait condition l => exact h.released hinv heffect id id
  | wait | sleep | semaphoreInit | semaphoreUp | semaphoreDown | conditionInit
  | conditionSignal | conditionBroadcast | barrierInit | barrierWait | waitRecv | timer
  | mac =>
      exact h.idle hinv (by rw [heffect.2]) id

theorem Guarded.resume (h : Guarded lock k held) (henabled : Event.resume.Enabled k)
    (hexec : k.resume = .ok k') : Guarded lock k' (holders lock k .resume k' held) := by
  obtain ⟨hinv, l, hkont, hacquired⟩ := (resume_inv h.inv henabled).of_ok hexec
  by_cases hl : l = lock
  · subst hl
    exact h.acquired hinv hacquired rfl rfl henabled.1
  · refine h.idle hinv (hacquired.other hl) ?_
    rintro (htakes | htakes) <;> rcases hkont with hkont | hkont <;>
      simp_all

theorem Guarded.step {s s' : Kernel × (Pid → Prop)} (h : Guarded lock s.1 s.2)
    (hstep : (lockSystem lock).step s event s') : Guarded lock s'.1 s'.2 := by
  obtain ⟨⟨henabled, hexec⟩, hinit, hheld⟩ := hstep
  rw [hheld]
  cases event with
  | entry e => exact h.entry henabled hexec fun he => hinit (by rw [he])
  | resume => exact h.resume henabled hexec

theorem mutualExclusion_of_run {k k₁ k₂ : Kernel} {events more : List Event}
    {held : Pid → Prop} (hinit : initTask Kernel.zero = .ok k)
    (run₁ : kernelSystem.Run k events k₁)
    (hmutex : (Event.entry (.mutexInit lock)).Enabled k₁)
    (run₂ : (lockSystem lock).Run (k₁.doMutexLockInit lock, fun _ => False) more (k₂, held)) :
    (∀ p, held p → k₂.Live p ∧ (k₂.mutexes lock).status = .locked ∧
      (k₂.mutexes lock).owner = p) ∧
    ∀ p p', held p → held p' → p = p' := by
  have hstart : Guarded lock (k₁.doMutexLockInit lock) fun _ => False := by
    have hinv₁ := inv_of_run hinit run₁
    have hinv := (exec_inv hinv₁ (fun _ => id) hmutex).of_ok (rfl : _ = Except.ok _)
    exact ⟨hinv, by simp [Kernel.doMutexLockInit, Kernel.setMutex], fun p hp => hp.elim⟩
  have hend : Guarded lock k₂ held :=
    run₂.invariant (I := fun s => Guarded lock s.1 s.2) (fun _ _ _ => Guarded.step) hstart
  constructor
  · intro p hp
    obtain ⟨hlive, hword⟩ := hend.word p hp
    exact ⟨hlive, by rw [hword], by rw [hword]⟩
  · intro p p' hp hp'
    have hword := (hend.word p hp).2.symm.trans (hend.word p' hp').2
    injection hword

/-- The I/O task holds `locks[0]` after the first tick, an initialisation and an acquire. -/
theorem mutualExclusion_ticked :
    ∃ k₂ held, (lockSystem 0).Run (ticked.doMutexLockInit 0, fun _ => False)
        [.entry (.mutexAcquire 0)] (k₂, held) ∧ held 2 ∧
      (k₂.mutexes 0).status = .locked ∧ (k₂.mutexes 0).owner = 2 := by
  let k₂ := ((ticked.doMutexLockInit 0).modifyPcb 2 fun p =>
    { p with lockNum := p.lockNum + 1 }).setMutex 0 ⟨.locked, 2⟩
  have hstep : (lockSystem 0).step (ticked.doMutexLockInit 0, fun _ => False)
      (.entry (.mutexAcquire 0)) (k₂, holders 0 (ticked.doMutexLockInit 0)
        (.entry (.mutexAcquire 0)) k₂ fun _ => False) :=
    ⟨⟨⟨rfl, fun h => absurd h (by decide), trivial⟩, rfl⟩, by simp, rfl⟩
  have hheld : holders 0 (ticked.doMutexLockInit 0) (.entry (.mutexAcquire 0)) k₂
      (fun _ => False) 2 :=
    ⟨⟨by decide, by decide, rfl⟩, .inl ⟨rfl, rfl, rfl⟩⟩
  have h := mutualExclusion_of_run initTask_zero run_ticked
    ⟨rfl, fun h => absurd h (by decide), rfl⟩ (.single hstep)
  exact ⟨k₂, _, .single hstep, hheld, (h.1 2 hheld).2⟩

end UcasOs.Sched
