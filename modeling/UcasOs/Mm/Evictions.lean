import UcasOs.Mm.IoProc
import UcasOs.Sched.Absence
import UcasOs.Sched.Steps

/-!
# Wake-ups while a task is out of its queue

`swap_out` takes the task whose page it evicts out of its queue and pushes it
back on the same queue after its request.  Whoever wakes the tasks of that queue
in between does not find it there.
-/

namespace UcasOs.Mm

open UcasOs.Foundation UcasOs.Libs UcasOs.Sched

/-- `swap_out` up to where it waits, as the queues see it. -/
def beginSwapOut (k : Kernel) (v : Pid) : Except Fault Kernel := do
  let k ← IoState.takeOut k v
  let k ← k.doSemaphoreUp ioTasks
  k.doSemaphoreDown ioDone

/-- The exception of `Mm.IoProc` does so when it evicts a page. -/
theorem proceed_beginSwapOut {s s' : IoState} {v : Pid} {ioTask : IoTask} {pc : SwapPc}
    {m : Machine} (h : s.proceed (.post (some v) ioTask pc m) = .ok s') :
    beginSwapOut s.kernel v = .ok s'.kernel := by
  obtain ⟨k₁, htake, h⟩ := bind_eq_ok.mp h
  obtain ⟨k₂, hup, h⟩ := bind_eq_ok.mp h
  obtain ⟨k₃, hdown, h⟩ := bind_eq_ok.mp h
  cases h
  exact bind_eq_ok.mpr ⟨k₁, htake, bind_eq_ok.mpr ⟨k₂, hup, hdown⟩⟩

/-- The two entries with which a request is posted. -/
def posting : List Event := [.entry (.semaphoreUp ioTasks), .entry (.semaphoreDown ioDone)]

/-- The running task evicts a page of `v`, which waits in the queue `q` of an object. -/
structure Blocked (k : Kernel) (v : Pid) (q : QueueId) : Prop where
  boot : k.currentRunning ≠ 0
  user : k.kont k.currentRunning = .ret
  other : v ≠ k.currentRunning
  waits : v ∈ k.items q
  object : q ≠ .ready ∧ q ≠ .sleep

/-- What the other tasks do while `p` waits in `swap_out` for the page of `v` to be written. -/
def windowSystem (p v : Pid) (q : QueueId) : Lts Kernel Event :=
  kernelSystem.restrict fun k e => k.currentRunning ≠ p ∧ e.Respects k p q ∧ e.Respects k v q

/-- The same with nobody waking the tasks of `q`. -/
def sparingSystem (p v : Pid) (q : QueueId) : Lts Kernel Event :=
  (windowSystem p v q).restrict fun k e => ¬ e.WakesOn k q

/--
What `swap_out` leaves in `k'`, against the runs in which `v` stays in its
queue: if it would have been made ready it is ready, and the objects have
counted the waiting tasks as they would have.
-/
structure Unnoticed (k : Kernel) (v : Pid) (events : List Event) (k' : Kernel) : Prop where
  ready : ∀ first k₁, first <+: events → kernelSystem.Run k (posting ++ first) k₁ →
    v ∈ k₁.items .ready → v ∈ k'.items .ready
  counted : ∃ k₁, kernelSystem.Run k (posting ++ events) k₁ ∧ k' = { k₁ with heap := k'.heap } ∧
    ∀ q, (k'.items q).Perm (k₁.items q)

variable {k k₁ k' : Kernel} {v p : Pid} {q : QueueId} {L : QueueId → List Pid}
  {events : List Event}

theorem kernelSystem_unique (k : Kernel) (e : Event) (k₁ k₂ : Kernel)
    (h₁ : kernelSystem.step k e k₁) (h₂ : kernelSystem.step k e k₂) : k₁ = k₂ :=
  Except.ok.inj (h₁.2.symm.trans h₂.2)

theorem step_inv {boot : Prop} {e : Event} (hinv : Inv k noTask boot)
    (hstep : kernelSystem.step k e k') : Inv k' noTask boot :=
  (exec_inv hinv (fun _ => id) hstep.1).of_ok hstep.2

/-- The task is taken out of its queue, and nothing else. -/
theorem takeOut_absent (ht : Table k L noTask) (hblocked : Blocked k v q) :
    ∃ k₁, IoState.takeOut k v = .ok k₁ ∧ Absent v q k₁ k := by
  have hv : v ∈ L q := by
    rw [← ht.items]
    exact hblocked.waits
  obtain ⟨heap, hremove, hholds⟩ := ht.remove hv
  refine ⟨{ k with heap }, ?_, k.heap, leave L q v, L, rfl, hholds, ht.holds, ?_⟩
  · rw [IoState.takeOut, if_pos hblocked.other.symm, ht.queue_eq hv]
    exact hremove
  · obtain ⟨l₁, l₂, hsplit⟩ := List.append_of_mem hv
    have hnodup := (ht.holds.represents q).nodup
    rw [hsplit, List.nodup_middle, List.nodup_cons, List.mem_append, not_or] at hnodup
    have herase : (L q).erase v = l₁ ++ l₂ := by
      rw [hsplit, List.erase_append_right _ hnodup.1.1, List.erase_cons_head]
    refine ⟨l₁, l₂, ?_, ?_⟩
    · rw [leave, Function.update_self, herase]
    · rw [leave, Function.update_idem, ← hsplit, Function.update_eq_self]

theorem doSemaphoreUp_returns {boot : Prop} (hinv : Inv k noTask boot) (s : Nat) :
    Meets IsPanic (fun k' => k'.currentRunning = k.currentRunning ∧ k'.kont = k.kont)
      (k.doSemaphoreUp s) := by
  have hset : Inv (k.setSemaphore s ((k.semaphores s).value + 1)) noTask boot :=
    hinv.congr rfl rfl rfl fun _ => Pcb.Keeps.refl _
  simp only [Kernel.doSemaphoreUp]
  split
  · exact (doUnblockOne_inv hset _).mono fun k' hk' => ⟨hk'.2.2, hk'.2.1.kont⟩
  · exact ⟨rfl, rfl⟩

/-- `v` is taken out and the request is posted. -/
theorem beginSwapOut_absent (hinv : Inv k noTask True) (hblocked : Blocked k v q)
    (hpost : ¬ (Event.entry (.semaphoreUp ioTasks)).WakesOn k q)
    (hbegin : beginSwapOut k v = .ok k₁) :
    ∃ k₁', kernelSystem.Run k posting k₁' ∧ Inv k₁' noTask True ∧ Absent v q k₁ k₁' := by
  obtain ⟨L, ht, -, -⟩ := id hinv
  obtain ⟨k₀, htake, habsent⟩ := takeOut_absent ht hblocked
  unfold beginSwapOut at hbegin
  rw [htake, ok_bind] at hbegin
  obtain ⟨k₂, hup, hdown⟩ := bind_eq_ok.mp hbegin
  have hboot := hblocked.boot
  have huser := hblocked.user
  obtain ⟨hready, hsleep⟩ := hblocked.object
  have hupStep : kernelSystem.step k₀ (.entry (.semaphoreUp ioTasks)) k₂ := by
    obtain ⟨heap, L₀, L₀', rfl, -⟩ := habsent
    exact ⟨⟨huser, fun h0 => absurd h0 hboot, trivial⟩, hup⟩
  have hspares : ¬ (Event.entry (.semaphoreUp ioTasks)).WakesOn k₀ q := by
    obtain ⟨heap, L₀, L₀', rfl, -⟩ := habsent
    exact hpost
  obtain ⟨k₂', hstep, habsent₂⟩ :=
    habsent.step hinv hready hsleep hupStep ⟨by simp [Entry.target], by simp [Entry.inits]⟩ hspares
  have hinv₂ := step_inv hinv hstep
  obtain ⟨hcur, hkont⟩ := (doSemaphoreUp_returns hinv ioTasks).of_ok hstep.2
  have hdownStep : kernelSystem.step k₂ (.entry (.semaphoreDown ioDone)) k₁ := by
    obtain ⟨heap, L₂, L₂', rfl, -⟩ := habsent₂
    rw [← hkont, ← hcur] at huser
    exact ⟨⟨huser, fun h0 => absurd (hcur.symm.trans h0) hboot, trivial⟩, hdown⟩
  obtain ⟨k₁', hstep', habsent₁⟩ := habsent₂.step hinv₂ hready hsleep hdownStep
    ⟨by simp [Entry.target], by simp [Entry.inits]⟩ id
  exact ⟨k₁', (Lts.Run.single hstep).snoc hstep', step_inv hinv₂ hstep', habsent₁⟩

/-- In the window, both kernels take the same steps. -/
theorem window_absent (window : (sparingSystem p v q).Run k₁ events k') {k₁' : Kernel}
    (hinv : Inv k₁' noTask True) (habsent : Absent v q k₁ k₁') (hready : q ≠ .ready)
    (hsleep : q ≠ .sleep) :
    ∃ k'', kernelSystem.Run k₁' events k'' ∧ Inv k'' noTask True ∧ Absent v q k' k'' := by
  refine window.simulate (A := kernelSystem) (R := fun k k' => Inv k' noTask True ∧ Absent v q k k')
    (I := fun _ => True) (P := fun _ => True) (fun _ _ _ _ _ => trivial)
    (fun _ _ _ _ _ _ => trivial) ?_ trivial ⟨hinv, habsent⟩ trivial
  rintro s a e t - ⟨ha, hsa⟩ ⟨hspares, ⟨-, -, hrespects⟩, hstep⟩ -
  obtain ⟨b, hb, htb⟩ := hsa.step ha hready hsleep hstep hrespects hspares
  exact ⟨b, hb, step_inv ha hb, htb⟩

/-- `v` comes back to the queue that the other kernel has kept it in. -/
theorem putBack_unnoticed (hinv : Inv k₁ noTask True) (habsent : Absent v q k' k₁)
    (hother : k'.currentRunning ≠ v) :
    ∃ k'', IoState.putBack k' v = .ok k'' ∧ k'' = { k₁ with heap := k''.heap } ∧
      ∀ q', (k''.items q').Perm (k₁.items q') := by
  obtain ⟨heap, L, L', rfl, htwin⟩ := habsent
  obtain ⟨ht, -, -⟩ := htwin.stays hinv
  obtain ⟨l₁, l₂, hsplit, hL'⟩ := htwin.inserted
  have hv : v ∈ L' q := by simp [hL']
  have hqueue : (k'.pcb v).queue = some q := ht.queue_eq hv
  obtain ⟨heap', hpush, hholds⟩ := queuePush_holds (q := q) htwin.holds htwin.not_mem
  have hperm : ∀ q', (Function.update L q (L q ++ [v]) q').Perm (L' q') := by
    intro q'
    by_cases hq : q' = q
    · rw [hq, hL', Function.update_self, Function.update_self, hsplit, List.append_assoc]
      exact List.Perm.append_left l₁ (List.perm_append_singleton v l₂)
    · rw [hL', Function.update_of_ne hq, Function.update_of_ne hq]
  refine ⟨{ k' with heap := heap' }, ?_, rfl, ?_⟩
  · rw [IoState.putBack, if_pos hother, hqueue]
    dsimp only
    rw [Kernel.push, hpush]
    rfl
  · intro q'
    rw [(ht.perm hholds hperm).items, ht.items]
    exact hperm q'

/--
As long as nobody wakes the tasks of the queue of `v` while `swap_out` waits,
`swap_out` pushes `v` back and nobody notices.
-/
theorem unnoticed_of_window {before : List Event} (reach : kernelSystem.Run booted before k)
    (hblocked : Blocked k v q) (hpost : ¬ (Event.entry (.semaphoreUp ioTasks)).WakesOn k q)
    (hbegin : beginSwapOut k v = .ok k₁)
    (window : (sparingSystem k.currentRunning v q).Run k₁ events k')
    (hreturns : k'.currentRunning = k.currentRunning) :
    ∃ k'', IoState.putBack k' v = .ok k'' ∧ Unnoticed k v events k'' := by
  obtain ⟨hready, hsleep⟩ := hblocked.object
  have hinv := inv_of_run initTask_zero reach
  obtain ⟨k₁', hposting, hinv₁, habsent₁⟩ := beginSwapOut_absent hinv hblocked hpost hbegin
  obtain ⟨k₂, run, hinv₂, habsent₂⟩ := window_absent window hinv₁ habsent₁ hready hsleep
  obtain ⟨k'', hput, hsame, hperm⟩ :=
    putBack_unnoticed hinv₂ habsent₂ (by rw [hreturns]; exact hblocked.other.symm)
  refine ⟨k'', hput, ?_, k₂, hposting.append run, hsame, hperm⟩
  -- In the run in which `v` stays, it is still in its queue after every entry.
  rintro first k₃ ⟨rest, rfl⟩ run₃ hmem
  obtain ⟨k₄, window₄, -⟩ := window.split
  obtain ⟨k₄', run₄, hinv₄, habsent₄⟩ := window_absent window₄ hinv₁ habsent₁ hready hsleep
  obtain rfl := (hposting.append run₄).unique kernelSystem_unique run₃
  obtain ⟨heap, L, L', rfl, htwin⟩ := habsent₄
  obtain ⟨ht, -, -⟩ := htwin.stays hinv₄
  obtain ⟨l₁, l₂, -, hL'⟩ := htwin.inserted
  rw [ht.items] at hmem
  exact absurd (ht.holds.apart (show v ∈ L' q by simp [hL']) hmem) hready

/-! ## An eviction -/

private def preparation : List Event :=
  [.entry .timer, .entry (.semaphoreInit ioTasks 0), .entry (.semaphoreInit ioDone 0),
    .entry (.semaphoreInit freeIoTasks 1), .entry (.semaphoreDown ioTasks),
    .entry (.semaphoreInit 5 0), .entry (.spawn ⟨1⟩), .entry (.spawn ⟨1⟩), .entry .timer,
    .entry (.semaphoreDown 5), .entry .timer]

/-- The second task of the shell waits on a semaphore, and the shell runs. -/
private def prepared : Kernel := booted.follow preparation

private def evicting : Kernel := (beginSwapOut prepared 4).toOption.getD prepared

private theorem run_prepared : kernelSystem.Run booted preparation prepared :=
  run_follow (by decide +kernel)

private theorem prepared_blocked : Blocked prepared 4 (.semaphore 5) where
  boot := by decide +kernel
  user := by decide +kernel
  other := by decide +kernel
  waits := by decide +kernel
  object := by decide

private theorem begin_evicting : beginSwapOut prepared 4 = .ok evicting :=
  eq_ok_getD (by decide +kernel) prepared

private theorem window_after {e : Entry} {k : Kernel} (henabled : (Event.entry e).Enabled k)
    (hok : (k.enter e).isOk = true) (hcur : k.currentRunning ≠ prepared.currentRunning)
    (htarget : e.target k = none) (hinits : e.inits = none) :
    (windowSystem prepared.currentRunning 4 (.semaphore 5)).step k (.entry e) (k.after e) := by
  refine ⟨⟨hcur, ⟨?_, ?_⟩, ⟨?_, ?_⟩⟩, step_after henabled hok⟩
  · simp [htarget]
  · simp [hinits]
  · simp [htarget]
  · simp [hinits]

/-- The I/O task serves the request and waits for the next one. -/
theorem unnoticed_quiet : ∃ k'',
    IoState.putBack ((evicting.after (.semaphoreUp ioDone)).after (.semaphoreDown ioTasks)) 4 =
        .ok k'' ∧
      Unnoticed prepared 4 [.entry (.semaphoreUp ioDone), .entry (.semaphoreDown ioTasks)] k'' := by
  have hup := window_after (e := .semaphoreUp ioDone) (k := evicting) (by decide +kernel)
    (by decide +kernel) (by decide +kernel) rfl rfl
  have hdown := window_after (e := .semaphoreDown ioTasks)
    (k := evicting.after (.semaphoreUp ioDone)) (by decide +kernel) (by decide +kernel)
    (by decide +kernel) rfl rfl
  have hspares : ∀ (s : Nat) (k : Kernel), s ≠ 5 →
      ¬ (Event.entry (.semaphoreUp s)).WakesOn k (.semaphore 5) := by
    intro s k hs hwakes
    cases hwakes.1
    exact hs rfl
  have window : (sparingSystem prepared.currentRunning 4 (.semaphore 5)).Run evicting _ _ :=
    .snoc (.single ⟨hspares _ _ (by decide), hup⟩) ⟨id, hdown⟩
  exact unnoticed_of_window run_prepared prepared_blocked (hspares _ _ (by decide))
    begin_evicting window (by decide +kernel)

private def wakeup : List Event := [.entry .timer, .entry (.semaphoreUp 5)]

/-- The other task of the shell ups the semaphore before the I/O task serves the request. -/
private def window : List Event :=
  wakeup ++ [.entry .timer, .entry (.semaphoreUp ioDone), .entry (.semaphoreDown ioTasks)]

/-- The wake-up is counted and lost, and the task waits on. -/
theorem wakeup_lost : ∃ (before : List Event) (k : Kernel) (v : Pid) (q : QueueId) (k₁ : Kernel)
    (events : List Event) (k' k'' : Kernel),
    kernelSystem.Run booted before k ∧ Blocked k v q ∧ beginSwapOut k v = .ok k₁ ∧
      (windowSystem k.currentRunning v q).Run k₁ events k' ∧
      k'.currentRunning = k.currentRunning ∧ IoState.putBack k' v = .ok k'' ∧
      ¬ Unnoticed k v events k'' := by
  have h₁ := window_after (e := .timer) (k := evicting) (by decide +kernel) (by decide +kernel)
    (by decide +kernel) rfl rfl
  have h₂ := window_after (e := .semaphoreUp 5) (k := evicting.after .timer) (by decide +kernel)
    (by decide +kernel) (by decide +kernel) rfl rfl
  have h₃ := window_after (e := .timer) (k := (evicting.after .timer).after (.semaphoreUp 5))
    (by decide +kernel) (by decide +kernel) (by decide +kernel) rfl rfl
  have h₄ := window_after (e := .semaphoreUp ioDone)
    (k := ((evicting.after .timer).after (.semaphoreUp 5)).after .timer)
    (by decide +kernel) (by decide +kernel) (by decide +kernel) rfl rfl
  have h₅ := window_after (e := .semaphoreDown ioTasks)
    (k := (((evicting.after .timer).after (.semaphoreUp 5)).after .timer).after
      (.semaphoreUp ioDone))
    (by decide +kernel) (by decide +kernel) (by decide +kernel) rfl rfl
  have run := ((((Lts.Run.single h₁).snoc h₂).snoc h₃).snoc h₄).snoc h₅
  refine ⟨preparation, prepared, 4, .semaphore 5, evicting, window, _, _, run_prepared,
    prepared_blocked, begin_evicting, run, by decide +kernel,
    eq_ok_getD (by decide +kernel) prepared, fun h => ?_⟩
  have hready := h.ready wakeup _ ⟨_, rfl⟩ (run_follow (by decide +kernel)) (by decide +kernel)
  exact absurd hready (by decide +kernel)

end UcasOs.Mm
