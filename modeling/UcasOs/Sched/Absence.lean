import UcasOs.Sched.Entries

/-!
# A kernel without one of its waiting tasks

`Absent v q k k'`: the kernel `k` is `k'` with the task `v` taken out of the
queue `q`.  As long as nothing wakes the tasks of `q`, both kernels take the
same steps.
-/

namespace UcasOs.Sched

open UcasOs.Foundation UcasOs.Libs

/-- `L'` has `v` in the queue `q`, at some place, and is otherwise `L`. -/
def Inserted (v : Pid) (q : QueueId) (L L' : QueueId → List Pid) : Prop :=
  ∃ l₁ l₂, L q = l₁ ++ l₂ ∧ L' = Function.update L q (l₁ ++ v :: l₂)

structure Twin (v : Pid) (q : QueueId) (heap heap' : LinkHeap Pid QueueId)
    (L L' : QueueId → List Pid) : Prop where
  holds : heap.Holds L
  holds' : heap'.Holds L'
  inserted : Inserted v q L L'

def Absent (v : Pid) (q : QueueId) (k k' : Kernel) : Prop :=
  ∃ heap L L', k' = { k with heap } ∧ Twin v q k.heap heap L L'

variable {k : Kernel} {v x : Pid} {q q' : QueueId} {heap heap' : LinkHeap Pid QueueId}
  {L L' : QueueId → List Pid}

/-! ## The lists -/

theorem Inserted.of_ne (h : Inserted v q L L') (hne : q' ≠ q) : L' q' = L q' := by
  obtain ⟨l₁, l₂, -, rfl⟩ := h
  exact Function.update_of_ne hne _ _

theorem Inserted.mem (h : Inserted v q L L') (hx : x ∈ L q') : x ∈ L' q' := by
  obtain ⟨l₁, l₂, hsplit, rfl⟩ := h
  by_cases hq : q' = q
  · subst hq
    rw [Function.update_self]
    rw [hsplit, List.mem_append] at hx
    rw [List.mem_append, List.mem_cons]
    exact hx.imp_right .inr
  · rwa [Function.update_of_ne hq]

theorem Inserted.of_mem (h : Inserted v q L L') (hx : x ∈ L' q') (hxv : x ≠ v) : x ∈ L q' := by
  obtain ⟨l₁, l₂, hsplit, rfl⟩ := h
  by_cases hq : q' = q
  · subst hq
    rw [Function.update_self, List.mem_append, List.mem_cons] at hx
    rw [hsplit, List.mem_append]
    exact hx.imp_right fun hx => hx.resolve_left hxv
  · rwa [Function.update_of_ne hq] at hx

/-- Both lists of a queue other than `q` change. -/
theorem Inserted.update (h : Inserted v q L L') (hne : q' ≠ q) (l : List Pid) :
    Inserted v q (Function.update L q' l) (Function.update L' q' l) := by
  obtain ⟨l₁, l₂, hsplit, rfl⟩ := h
  refine ⟨l₁, l₂, ?_, ?_⟩
  · rw [Function.update_of_ne hne.symm, hsplit]
  · rw [Function.update_comm hne.symm]

theorem Inserted.join (h : Inserted v q L L') (q' : QueueId) (x : Pid) :
    Inserted v q (join L q' x) (join L' q' x) := by
  by_cases hq : q' = q
  · subst hq
    obtain ⟨l₁, l₂, hsplit, rfl⟩ := h
    refine ⟨l₁, l₂ ++ [x], ?_, ?_⟩
    · simp [Sched.join, hsplit]
    · simp [Sched.join]
  · unfold Sched.join
    rw [h.of_ne hq]
    exact h.update hq _

theorem Inserted.leave (h : Inserted v q L L') (hxv : x ≠ v) (q' : QueueId) :
    Inserted v q (leave L q' x) (leave L' q' x) := by
  by_cases hq : q' = q
  · subst hq
    obtain ⟨l₁, l₂, hsplit, rfl⟩ := h
    have hcons : ∀ l : List Pid, (v :: l).erase x = v :: l.erase x := fun l =>
      List.erase_cons_tail (by simpa using hxv.symm)
    by_cases hx : x ∈ l₁
    · refine ⟨l₁.erase x, l₂, ?_, ?_⟩
      · simp [Sched.leave, hsplit, List.erase_append_left _ hx]
      · simp [Sched.leave, List.erase_append_left _ hx]
    · refine ⟨l₁, l₂.erase x, ?_, ?_⟩
      · simp [Sched.leave, hsplit, List.erase_append_right _ hx]
      · simp [Sched.leave, List.erase_append_right _ hx, hcons]
  · unfold Sched.leave
    rw [h.of_ne hq]
    exact h.update hq _

namespace Twin

theorem not_mem (h : Twin v q heap heap' L L') (q' : QueueId) : v ∉ L q' := by
  intro hv
  have hself : v ∈ L' q := by
    obtain ⟨l₁, l₂, -, rfl⟩ := h.inserted
    simp
  obtain rfl := h.holds'.apart (h.inserted.mem hv) hself
  have hnodup := (h.holds'.represents q').nodup
  obtain ⟨l₁, l₂, hsplit, rfl⟩ := h.inserted
  rw [Function.update_self, List.nodup_middle, List.nodup_cons] at hnodup
  rw [hsplit] at hv
  exact hnodup.1 hv

theorem ne_of_mem (h : Twin v q heap heap' L L') (hx : x ∈ L q') : x ≠ v := by
  rintro rfl
  exact h.not_mem q' hx

/-! ## Queues -/

theorem queueIsEmpty_eq (h : Twin v q heap heap' L L') (hne : q' ≠ q) :
    queueIsEmpty heap' q' = queueIsEmpty heap q' := by
  rw [Bool.eq_iff_iff, queueIsEmpty_iff h.holds, queueIsEmpty_iff h.holds', h.inserted.of_ne hne]

theorem queueInit (h : Twin v q heap heap' L L') (hne : q' ≠ q) (hnil : L q' = []) :
    Twin v q (queueInit heap q') (queueInit heap' q') L L' :=
  ⟨queueInit_holds h.holds hnil, queueInit_holds h.holds' ((h.inserted.of_ne hne).trans hnil),
    h.inserted⟩

theorem scan_eq (h : Twin v q k.heap heap L L') (hne : q' ≠ q) (key : Pcb → Int)
    (selected : Option Pid) : { k with heap }.scan key q' selected = k.scan key q' selected := by
  have hrep := h.holds.represents q'
  have hrep' := h.holds'.represents q'
  rw [h.inserted.of_ne hne] at hrep'
  unfold Kernel.scan
  dsimp only
  rw [hrep.head_eq, hrep'.head_eq, LinkHeap.walk_congr _ hrep'.seg hrep.seg]

theorem remove (h : Twin v q k.heap heap L L') (hx : x ∈ L q') :
    ∃ h₁ h₂, k.remove q' x = .ok { k with heap := h₁ } ∧
      { k with heap }.remove q' x = .ok { k with heap := h₂ } ∧
      Twin v q h₁ h₂ (leave L q' x) (leave L' q' x) := by
  obtain ⟨l₁, l₂, hsplit⟩ := List.append_of_mem hx
  obtain ⟨l₁', l₂', hsplit'⟩ := List.append_of_mem (h.inserted.mem hx)
  obtain ⟨h₁, hremove, hholds⟩ := queueRemove_holds h.holds hsplit
  obtain ⟨h₂, hremove', hholds'⟩ := queueRemove_holds h.holds' hsplit'
  refine ⟨h₁, h₂, by rw [Kernel.remove, hremove]; rfl, ?_, hholds, hholds',
    h.inserted.leave (h.ne_of_mem hx) q'⟩
  unfold Kernel.remove
  dsimp only
  rw [hremove']
  rfl

theorem push (h : Twin v q k.heap heap L L') (hxv : x ≠ v) (hx : ∀ q', x ∉ L q') (q' : QueueId) :
    ∃ h₁ h₂, k.push q' x = .ok { k with heap := h₁ } ∧
      { k with heap }.push q' x = .ok { k with heap := h₂ } ∧
      Twin v q h₁ h₂ (join L q' x) (join L' q' x) := by
  have hx' : ∀ q', x ∉ L' q' := fun q' hmem => hx q' (h.inserted.of_mem hmem hxv)
  obtain ⟨h₁, hpush, hholds⟩ := queuePush_holds (q := q') h.holds hx
  obtain ⟨h₂, hpush', hholds'⟩ := queuePush_holds (q := q') h.holds' hx'
  refine ⟨h₁, h₂, by rw [Kernel.push, hpush]; rfl, ?_, hholds, hholds', h.inserted.join q' x⟩
  unfold Kernel.push
  dsimp only
  rw [hpush']
  rfl

theorem not_mem_leave (h : Twin v q heap heap' L L') (hx : x ∈ L q') (q₁ : QueueId) :
    x ∉ leave L q' x q₁ := by
  unfold leave
  by_cases hq : q₁ = q'
  · rw [hq, Function.update_self]
    exact (h.holds.represents q').nodup.not_mem_erase
  · rw [Function.update_of_ne hq]
    exact fun hx' => hq (h.holds.apart hx' hx)

/-- A task moves from one queue to another. -/
theorem move (h : Twin v q k.heap heap L L') (hx : x ∈ L q') (q₁ : QueueId) :
    ∃ h₁ h₂ h₃ h₄, k.remove q' x = .ok { k with heap := h₁ } ∧
      { k with heap }.remove q' x = .ok { k with heap := h₂ } ∧
      { k with heap := h₁ }.push q₁ x = .ok { k with heap := h₃ } ∧
      { k with heap := h₂ }.push q₁ x = .ok { k with heap := h₄ } ∧
      Twin v q h₃ h₄ (join (leave L q' x) q₁ x) (join (leave L' q' x) q₁ x) := by
  obtain ⟨h₁, h₂, hremove, hremove', htwin⟩ := h.remove hx
  obtain ⟨h₃, h₄, hpush, hpush', htwin'⟩ := Twin.push (k := { k with heap := h₁ }) htwin
    (h.ne_of_mem hx) (h.not_mem_leave hx) q₁
  exact ⟨h₁, h₂, h₃, h₄, hremove, hremove', hpush, hpush', htwin'⟩

end Twin

theorem Absent.intro (h : Twin v q k.heap heap L L') : Absent v q k { k with heap } :=
  ⟨heap, L, L', rfl, h⟩

/-! ## Functions of the scheduler -/

theorem doScheduler_follows (h : Twin v q k.heap heap L L') (hready : q ≠ .ready) (kont : Kont) :
    Follows (Absent v q) (k.doScheduler kont) ({ k with heap }.doScheduler kont) := by
  unfold Kernel.doScheduler Kernel.scheduler
  dsimp only
  rw [h.queueIsEmpty_eq hready.symm]
  split
  · exact nofun
  · generalize hk₁ : Kernel.saveCurrent { k with kont := _ } = k₁
    have htwin : Twin v q k₁.heap heap L L' := by
      rw [← hk₁]
      exact h
    have hsaved : Kernel.saveCurrent
        { k with heap, kont := Function.update k.kont k.currentRunning kont } =
          { k₁ with heap } := by
      rw [← hk₁]
      rfl
    rw [hsaved, htwin.scan_eq hready.symm]
    intro k' hk'
    obtain ⟨s, hscan, hk'⟩ := bind_eq_ok.mp hk'
    cases hk'
    refine ⟨_, bind_eq_ok.mpr ⟨s, hscan, rfl⟩, heap, L, L', rfl, ?_⟩
    exact htwin

theorem doWait_follows (h : Twin v q k.heap heap L L') (hready : q ≠ .ready)
    (hx : x ∈ L .ready) (queue : QueueId) (status : TaskStatus) (kont : Kont) :
    Follows (Absent v q) (k.doWait x queue status kont)
      ({ k with heap }.doWait x queue status kont) := by
  obtain ⟨h₁, h₂, h₃, h₄, hremove, hremove', hpush, hpush', htwin⟩ := h.move hx queue
  unfold Kernel.doWait
  rw [hremove, ok_bind, hpush, ok_bind, hremove', ok_bind, hpush', ok_bind]
  exact doScheduler_follows (k := Kernel.modifyPcb { k with heap := h₃ } x _) htwin hready kont

theorem wake_follows (h : Twin v q k.heap heap L L') (hx : x ∈ L q') :
    Follows (Absent v q) (k.wake q' x) ({ k with heap }.wake q' x) := by
  unfold Kernel.wake
  generalize hk₁ : k.modifyPcb x _ = k₁
  have htwin : Twin v q k₁.heap heap L L' := by
    rw [← hk₁]
    exact h
  have hmodified : Kernel.modifyPcb { k with heap } x
      (fun p => { p with waitTime := 0, schedulerPriority := p.schedulerPriority + 1 }) =
        { k₁ with heap } := by
    rw [← hk₁]
    rfl
  obtain ⟨h₁, h₂, h₃, h₄, hremove, hremove', hpush, hpush', htwin'⟩ := htwin.move hx .ready
  dsimp only
  rw [hmodified, hremove, ok_bind, hpush, ok_bind, hremove', ok_bind, hpush', ok_bind]
  exact Follows.ok ⟨h₄, _, _, rfl, htwin'⟩

/-- A scan that starts without a choice chooses a task of the queue. -/
theorem scan_selected_mem (h : k.heap.Holds L) {key : Pcb → Int} {s : Kernel.Scan}
    (hscan : k.scan key q' none = .ok s) (hselected : s.selected = some x) : x ∈ L q' := by
  have hfold : ∀ (l : List Pid) (s₀ : Kernel.Scan),
      (l.foldl (Kernel.scanStep key) s₀).selected = some x → s₀.selected = some x ∨ x ∈ l := by
    intro l
    induction l with
    | nil => exact fun s₀ hs₀ => .inl hs₀
    | cons y l ih =>
        intro s₀ hs₀
        rcases ih _ hs₀ with hfirst | hrest
        · rcases scanStep_selected key s₀ y with hself | hkept
          · rw [hself, Option.some.injEq] at hfirst
            exact .inr (by simp [hfirst])
          · exact .inl (hkept ▸ hfirst)
        · exact .inr (List.mem_cons_of_mem _ hrest)
  unfold Kernel.scan at hscan
  split at hscan
  · rename_i s₁ hwalk
    cases hscan
    rw [(h.represents q').head_eq] at hwalk
    have heq := k.heap.walk_eq_some (h.represents q').seg hwalk
    rw [heq] at hselected
    exact (hfold _ _ hselected).resolve_left (by simp)
  · cases hscan

theorem doUnblockOne_follows (h : Twin v q k.heap heap L L') (hne : q' ≠ q) :
    Follows (Absent v q) (k.doUnblockOne q') ({ k with heap }.doUnblockOne q') := by
  unfold Kernel.doUnblockOne
  dsimp only
  rw [h.queueIsEmpty_eq hne, h.scan_eq hne]
  split
  · exact Follows.ok (.intro h)
  · intro k' hk'
    obtain ⟨s, hscan, hk'⟩ := bind_eq_ok.mp hk'
    cases hselected : s.selected with
    | none =>
        rw [hselected] at hk'
        cases hk'
    | some x =>
        rw [hselected] at hk'
        have hx := scan_selected_mem h.holds hscan hselected
        obtain ⟨c, hc, habsent⟩ := wake_follows (k := { k with pcb := s.pcb }) h hx k' hk'
        refine ⟨c, bind_eq_ok.mpr ⟨s, hscan, ?_⟩, habsent⟩
        rw [hselected]
        exact hc

theorem unblockAllLoop_follows (hne : q' ≠ q) (fuel : Nat) {k : Kernel}
    {heap : LinkHeap Pid QueueId} {L L' : QueueId → List Pid}
    (h : Twin v q k.heap heap L L') :
    Follows (Absent v q) (Kernel.unblockAllLoop q' fuel k)
      (Kernel.unblockAllLoop q' fuel { k with heap }) := by
  induction fuel generalizing k heap L L' with
  | zero =>
      unfold Kernel.unblockAllLoop
      dsimp only
      rw [h.queueIsEmpty_eq hne]
      split
      · exact Follows.ok (.intro h)
      · intro b hb
        cases hb
  | succ fuel ih =>
      unfold Kernel.unblockAllLoop
      dsimp only
      rw [h.queueIsEmpty_eq hne]
      split
      · exact Follows.ok (.intro h)
      · rename_i hempty
        cases hlist : L q' with
        | nil => exact absurd ((queueIsEmpty_iff h.holds).mpr hlist) hempty
        | cons x rest =>
            have hx : x ∈ L q' := by simp [hlist]
            have hlist' : L' q' = x :: rest := (h.inserted.of_ne hne).trans hlist
            obtain ⟨h₁, hdequeue, hholds⟩ := queueDequeue_holds h.holds hlist
            obtain ⟨h₂, hdequeue', hholds'⟩ := queueDequeue_holds h.holds' hlist'
            have htwin : Twin v q h₁ h₂ (Function.update L q' rest) (Function.update L' q' rest) :=
              ⟨hholds, hholds', h.inserted.update hne rest⟩
            have hout : ∀ q₁, x ∉ Function.update L q' rest q₁ := by
              have herase : (L q').erase x = rest := by rw [hlist, List.erase_cons_head]
              rw [← herase]
              exact h.not_mem_leave hx
            obtain ⟨h₃, h₄, hpush, hpush', htwin'⟩ := Twin.push (k := { k with heap := h₁ }) htwin
              (h.ne_of_mem hx) hout .ready
            rw [hdequeue, ok_bind, hdequeue', ok_bind]
            dsimp only at hpush hpush' ⊢
            rw [hpush, ok_bind, hpush', ok_bind]
            exact ih (k := Kernel.modifyPcb { k with heap := h₃ } x _) htwin'

theorem checkSleepingLoop_follows (hsleep : q ≠ .sleep) (fuel : Nat) {k : Kernel}
    {heap : LinkHeap Pid QueueId} {L L' : QueueId → List Pid} {before l : List Pid}
    (h : Twin v q k.heap heap L L') (hl : L .sleep = before ++ l) :
    Follows (Absent v q) (Kernel.checkSleepingLoop fuel l.head? k)
      (Kernel.checkSleepingLoop fuel l.head? { k with heap }) := by
  induction fuel generalizing k heap L L' before l with
  | zero =>
      cases l with
      | nil => exact Follows.ok (.intro h)
      | cons x rest => exact nofun
  | succ fuel ih =>
      cases l with
      | nil => exact Follows.ok (.intro h)
      | cons x rest =>
          have hx : x ∈ L .sleep := by simp [hl]
          rw [List.head?_cons, Kernel.checkSleepingLoop, Kernel.checkSleepingLoop]
          by_cases hdue : (k.pcb x).awakenedTime ≤ k.getTicks
          · obtain ⟨h₁, h₂, h₃, h₄, hremove, hremove', hpush, hpush', htwin⟩ := h.move hx .ready
            have hlast : ∀ {heap : LinkHeap Pid QueueId} {L : QueueId → List Pid},
                heap.Holds (join L .ready x) → heap.next x = none := by
              intro heap L hholds
              have hrep := hholds.represents .ready
              rw [show join L .ready x .ready = L .ready ++ x :: [] by simp [join]] at hrep
              exact hrep.links.2
            have hnext := hlast htwin.holds
            have hnext' := hlast htwin.holds'
            have hdue' : (({ k with heap } : Kernel).pcb x).awakenedTime ≤
                ({ k with heap } : Kernel).getTicks := hdue
            rw [if_pos hdue, if_pos hdue']
            simp only [hremove, hremove', ok_bind, hpush, hpush', pure_bind, Kernel.modifyPcb,
              hnext, hnext', checkSleepingLoop_none]
            exact Follows.ok ⟨h₄, _, _, rfl, htwin⟩
          · have hnext : k.heap.next x = rest.head? := by
              have hrep := h.holds.represents .sleep
              rw [hl] at hrep
              exact hrep.links.2
            have hnext' : heap.next x = rest.head? := by
              have hrep := h.holds'.represents .sleep
              rw [h.inserted.of_ne hsleep.symm, hl] at hrep
              exact hrep.links.2
            have hdue' : ¬ (({ k with heap } : Kernel).pcb x).awakenedTime ≤
                ({ k with heap } : Kernel).getTicks := hdue
            rw [if_neg hdue, if_neg hdue']
            simp only [pure_bind, hnext, hnext']
            have hl' : L .sleep = (before ++ [x]) ++ rest := by simp [hl]
            exact ih h hl'

/-- A table whose lists are held in another order. -/
theorem Table.perm {S : Pid → Prop} {L' : QueueId → List Pid} {heap : LinkHeap Pid QueueId}
    (ht : Table k L S) (hholds : heap.Holds L') (hperm : ∀ q, (L' q).Perm (L q)) :
    Table { k with heap } L' S := by
  have hmem : ∀ {q x}, x ∈ L' q ↔ x ∈ L q := fun {q x} => (hperm q).mem_iff
  refine ⟨hholds, ht.free, fun hx => ht.queue_eq (hmem.mp hx), fun hx => ht.live (hmem.mp hx), ?_,
    fun hS hx => ht.outside hS (hmem.mp hx), ht.live_of_outside, ht.pid_eq, ht.eligible⟩
  intro x hx hS
  obtain ⟨q, hq⟩ := ht.covered hx hS
  exact ⟨q, hmem.mpr hq⟩

/-! ## Entries -/

/-- The table of the kernel in which `v` has stayed in its queue. -/
structure Stays (boot : Prop) (k : Kernel) (heap : LinkHeap Pid QueueId)
    (L' : QueueId → List Pid) : Prop where
  table : Table { k with heap } L' noTask
  waitNil : WaitNil { k with heap } L'
  current : CurrentReady boot { k with heap } L'

variable {boot : Prop}

theorem Twin.stays (h : Twin v q k.heap heap L L') (hinv : Inv { k with heap } noTask boot) :
    Stays boot k heap L' := by
  obtain ⟨L₁, ht, hwait, hready⟩ := hinv
  obtain rfl := ht.holds.unique h.holds'
  exact ⟨ht, hwait, hready⟩

theorem Stays.current_mem (hstays : Stays boot k heap L') (h : Twin v q k.heap heap L L')
    (hready : q ≠ .ready) (hboot : k.currentRunning ≠ 0) : k.currentRunning ∈ L .ready := by
  rw [← h.inserted.of_ne hready.symm]
  exact hstays.current.resolve_left fun h0 => hboot h0.2

theorem acquireLoop_follows (h : Twin v q k.heap heap L L') (hready : q ≠ .ready)
    (hcur : k.currentRunning ∈ L .ready) (lock : Nat) :
    Follows (Absent v q) (k.acquireLoop lock) ({ k with heap }.acquireLoop lock) := by
  unfold Kernel.acquireLoop
  dsimp only
  split
  · exact doWait_follows h hready hcur _ _ _
  · exact Follows.ok ⟨heap, L, L', rfl, h⟩

theorem doMutexLockAcquire_follows (h : Twin v q k.heap heap L L') (hready : q ≠ .ready)
    (hcur : k.currentRunning ∈ L .ready) (lock : Nat) :
    Follows (Absent v q) (k.doMutexLockAcquire lock) ({ k with heap }.doMutexLockAcquire lock) := by
  unfold Kernel.doMutexLockAcquire
  dsimp only
  split
  · exact Follows.ok (.intro h)
  · exact acquireLoop_follows h hready hcur lock

theorem doMutexLockRelease_follows (h : Twin v q k.heap heap L L') {lock : Nat}
    (hspares : ¬ (q = .mutex lock ∧ (k.mutexes lock).owner = (k.pcb k.currentRunning).pid)) :
    Follows (Absent v q) (k.doMutexLockRelease lock) ({ k with heap }.doMutexLockRelease lock) := by
  unfold Kernel.doMutexLockRelease
  dsimp only
  split
  · exact Follows.ok (.intro h)
  · rename_i howner
    rw [not_not] at howner
    have hne : QueueId.mutex lock ≠ q := fun he => hspares ⟨he.symm, howner⟩
    refine (doUnblockOne_follows h hne).bind fun k₁ c _ _ habsent => ?_
    obtain ⟨heap₁, L₁, L₁', rfl, htwin⟩ := habsent
    exact Follows.ok ⟨heap₁, L₁, L₁', rfl, htwin⟩

theorem doSemaphoreUp_follows (h : Twin v q k.heap heap L L') {s : Nat}
    (hspares : ¬ (q = .semaphore s ∧ (k.semaphores s).value + 1 ≤ 0)) :
    Follows (Absent v q) (k.doSemaphoreUp s) ({ k with heap }.doSemaphoreUp s) := by
  unfold Kernel.doSemaphoreUp
  simp only [Kernel.setSemaphore, Function.update_self]
  split
  · rename_i hvalue
    have hne : QueueId.semaphore s ≠ q := fun he => hspares ⟨he.symm, hvalue⟩
    exact doUnblockOne_follows (k := k.setSemaphore s _) h hne
  · exact Follows.ok ⟨heap, L, L', rfl, h⟩

theorem doSemaphoreDown_follows (h : Twin v q k.heap heap L L') (hready : q ≠ .ready)
    (hcur : k.currentRunning ∈ L .ready) (s : Nat) :
    Follows (Absent v q) (k.doSemaphoreDown s) ({ k with heap }.doSemaphoreDown s) := by
  unfold Kernel.doSemaphoreDown
  simp only [Kernel.setSemaphore, Function.update_self]
  split
  · exact doWait_follows (k := k.setSemaphore s _) h hready hcur _ _ _
  · exact Follows.ok ⟨heap, L, L', rfl, h⟩

theorem doConditionSignal_follows (h : Twin v q k.heap heap L L') {condition : Nat}
    (hspares : ¬ (q = .condition condition ∧ (k.conditions condition).waitingNum > 0)) :
    Follows (Absent v q) (k.doConditionSignal condition)
      ({ k with heap }.doConditionSignal condition) := by
  unfold Kernel.doConditionSignal
  dsimp only
  split
  · rename_i hwaiting
    have hne : QueueId.condition condition ≠ q := fun he => hspares ⟨he.symm, hwaiting⟩
    exact doUnblockOne_follows (k := k.setCondition condition _) h hne
  · exact Follows.ok (.intro h)

theorem doConditionBroadcast_follows (h : Twin v q k.heap heap L L') {condition : Nat}
    (hspares : ¬ (q = .condition condition ∧ (k.conditions condition).waitingNum > 0)) :
    Follows (Absent v q) (k.doConditionBroadcast condition)
      ({ k with heap }.doConditionBroadcast condition) := by
  unfold Kernel.doConditionBroadcast
  dsimp only
  split
  · rename_i hwaiting
    have hne : QueueId.condition condition ≠ q := fun he => hspares ⟨he.symm, hwaiting⟩
    exact unblockAllLoop_follows (k := k.setCondition condition 0) hne _ h
  · exact Follows.ok (.intro h)

theorem doBarrierWait_follows (h : Twin v q k.heap heap L L') (hready : q ≠ .ready)
    (hcur : k.currentRunning ∈ L .ready) {barrier : Nat}
    (hspares : ¬ (q = .barrier barrier ∧
      (k.barriers barrier).arrived + 1 = (k.barriers barrier).goal)) :
    Follows (Absent v q) (k.doBarrierWait barrier) ({ k with heap }.doBarrierWait barrier) := by
  unfold Kernel.doBarrierWait
  dsimp only
  split
  · rename_i hlast
    have hne : QueueId.barrier barrier ≠ q := fun he => hspares ⟨he.symm, hlast⟩
    exact unblockAllLoop_follows
      (k := (k.setBarrier barrier _).setBarrier barrier { k.barriers barrier with arrived := 0 })
      hne _ h
  · exact doWait_follows (k := k.setBarrier barrier _) h hready hcur _ _ _

theorem doConditionWait_follows (h : Twin v q k.heap heap L L')
    (hinv : Inv { k with heap } noTask boot) (hready : q ≠ .ready) (hboot : k.currentRunning ≠ 0)
    {condition lock : Nat}
    (hspares : ¬ (q = .mutex lock ∧ (k.mutexes lock).owner = (k.pcb k.currentRunning).pid)) :
    Follows (Absent v q) (k.doConditionWait condition lock)
      ({ k with heap }.doConditionWait condition lock) := by
  unfold Kernel.doConditionWait
  refine (doMutexLockRelease_follows (k := k.setCondition condition _) h hspares).bind
    fun k₁ c _ hreleased habsent => ?_
  have hset : Inv (Kernel.setCondition { k with heap } condition
      ((k.conditions condition).waitingNum + 1)) noTask boot :=
    hinv.congr rfl rfl rfl fun _ => Pcb.Keeps.refl _
  obtain ⟨hinv₁, -, hsame⟩ := (doMutexLockRelease_inv hset lock).of_ok hreleased
  obtain ⟨heap₁, L₁, L₁', rfl, htwin⟩ := habsent
  have hboot₁ : k₁.currentRunning ≠ 0 := by
    intro h0
    exact hboot (hsame.symm.trans h0)
  exact doWait_follows htwin hready ((htwin.stays hinv₁).current_mem htwin hready hboot₁) _ _ _

theorem irqTimer_follows (h : Twin v q k.heap heap L L') (hready : q ≠ .ready)
    (hsleep : q ≠ .sleep) :
    Follows (Absent v q) k.irqTimer { k with heap }.irqTimer := by
  unfold Kernel.irqTimer Kernel.checkSleeping
  dsimp only
  rw [(h.holds'.represents .sleep).head_eq, h.inserted.of_ne hsleep.symm,
    ← (h.holds.represents .sleep).head_eq, (h.holds.represents .sleep).head_eq]
  refine (checkSleepingLoop_follows (k := { k with timeElapsed := k.timeElapsed + 1 }) hsleep _ h
    (show L .sleep = [] ++ L .sleep from rfl)).bind fun k₁ c _ _ habsent => ?_
  obtain ⟨heap₁, L₁, L₁', rfl, htwin⟩ := habsent
  exact doScheduler_follows htwin hready .ret

theorem irqMac_follows (h : Twin v q k.heap heap L L') (hrecv : q ≠ .recv) :
    Follows (Absent v q) k.irqMac { k with heap }.irqMac := by
  unfold Kernel.irqMac
  dsimp only
  rw [h.queueIsEmpty_eq hrecv.symm]
  split
  · exact Follows.ok (.intro h)
  · exact doUnblockOne_follows h hrecv.symm

theorem push_follows (h : Twin v q k.heap heap L L') (hxv : x ≠ v) (hx : ∀ q', x ∉ L q')
    (q' : QueueId) :
    Follows
      (fun k₁ k₁' => ∃ h₁ h₂, k₁ = { k with heap := h₁ } ∧ k₁' = { k with heap := h₂ } ∧
        Twin v q h₁ h₂ (join L q' x) (join L' q' x))
      (k.push q' x) ({ k with heap }.push q' x) := by
  obtain ⟨h₁, h₂, hpush, hpush', htwin⟩ := h.push hxv hx q'
  rw [hpush, hpush']
  exact Follows.ok ⟨h₁, h₂, rfl, rfl, htwin⟩

theorem wait_follows (h : Twin v q k.heap heap L L') (hready : q ≠ .ready)
    (hcur : k.currentRunning ∈ L .ready) (pid : Int) :
    Follows (Absent v q) (k.wait pid) ({ k with heap }.wait pid) := by
  unfold Kernel.wait
  dsimp only
  split
  · exact Follows.ok ⟨heap, L, L', rfl, h⟩
  · exact doWait_follows (k := k.setReg2 1) h hready hcur _ _ _

theorem doSleep_follows (h : Twin v q k.heap heap L L') (hready : q ≠ .ready)
    (hcur : k.currentRunning ∈ L .ready) (time : BitVec 32) :
    Follows (Absent v q) (k.doSleep time) ({ k with heap }.doSleep time) := by
  unfold Kernel.doSleep
  exact doWait_follows (k := k.modifyPcb k.currentRunning _) h hready hcur _ _ _

theorem initPcb_follows (h : Twin v q k.heap heap L L') (hstays : Stays boot k heap L')
    (task : TaskInfo) :
    Follows (Absent v q) (k.initPcb task) ({ k with heap }.initPcb task) := by
  have hself : v ∈ L' q := by
    obtain ⟨l₁, l₂, -, he⟩ := h.inserted
    simp [he]
  obtain ⟨free, hfree⟩ := hstays.table.free
  have hfree' : Implements k.pidList maxTaskNum free := hfree
  unfold Kernel.initPcb
  dsimp only
  cases free with
  | nil =>
      rw [slistAlloc_nil hfree']
      simp only [if_true]
      exact Follows.ok ⟨heap, L, L', rfl, h⟩
  | cons pid free =>
      obtain ⟨hpid, -, hpos, -, -⟩ := slistAlloc_cons hfree'
      have hdead : ¬ ({ k with heap } : Kernel).Live pid := hfree.not_allocated (by simp)
      have hnil : L' (.wait pid) = [] := hstays.waitNil pid hdead
      have hne : QueueId.wait pid ≠ q := by
        rintro rfl
        rw [hnil] at hself
        cases hself
      have hnew : pid ≠ v := by
        rintro rfl
        exact hdead (hstays.table.live hself)
      have hout : ∀ q', pid ∉ L q' := fun q' hp => hdead (hstays.table.live (h.inserted.mem hp))
      obtain ⟨alloc, hsplit⟩ : ∃ alloc, slistAlloc k.pidList = (pid, alloc) :=
        ⟨_, Prod.ext hpid rfl⟩
      rw [hsplit]
      simp only [show pid ≠ 0 by omega, if_false]
      have hnil₁ : join L .ready pid (.wait pid) = [] := by
        rw [join, Function.update_of_ne (by simp), ← h.inserted.of_ne hne]
        exact hnil
      refine (push_follows (k := Kernel.modifyPcb { k with pidList := alloc } pid _) h hnew hout
        .ready).bind fun k₁ c _ _ hpushed => ?_
      obtain ⟨h₁, h₂, rfl, rfl, htwin⟩ := hpushed
      exact Follows.ok ⟨queueInit h₂ (.wait pid), _, _, rfl, htwin.queueInit hne hnil₁⟩

theorem wake_mutexes {k₁ : Kernel} (hwake : k.wake q' x = .ok k₁) : k₁.mutexes = k.mutexes := by
  obtain ⟨k₂, hremove, hwake⟩ := bind_eq_ok.mp hwake
  obtain ⟨k₃, hpush, hwake⟩ := bind_eq_ok.mp hwake
  obtain ⟨s, -, hremove⟩ := bind_eq_ok.mp hremove
  obtain ⟨heap₃, -, hpush⟩ := bind_eq_ok.mp hpush
  cases hremove
  cases hpush
  cases hwake
  rfl

theorem doUnblockOne_mutexes {k₁ : Kernel} (hunblock : k.doUnblockOne q' = .ok k₁) :
    k₁.mutexes = k.mutexes := by
  unfold Kernel.doUnblockOne at hunblock
  split at hunblock
  · cases hunblock
    rfl
  · obtain ⟨s, -, hunblock⟩ := bind_eq_ok.mp hunblock
    cases hselected : s.selected with
    | none =>
        rw [hselected] at hunblock
        cases hunblock
    | some x =>
        rw [hselected] at hunblock
        exact wake_mutexes (k := { k with pcb := s.pcb }) hunblock

/-- The loop of `kill` over the locks, none of which has `v` in its queue. -/
theorem killLocks_follows {pid : Pid} (locks : List Nat) {k : Kernel}
    {heap : LinkHeap Pid QueueId} {L L' : QueueId → List Pid} (h : Twin v q k.heap heap L L')
    (hspares : ∀ lock, q = .mutex lock → (k.mutexes lock).owner ≠ pid) :
    Follows (Absent v q) (Kernel.killLocks pid locks k)
      (Kernel.killLocks pid locks { k with heap }) := by
  induction locks generalizing k heap L L' with
  | nil => exact Follows.ok (.intro h)
  | cons i rest ih =>
      unfold Kernel.killLocks
      dsimp only
      split
      · refine Follows.bind (R := fun k₁ k₁' => Absent v q k₁ k₁' ∧
          ∀ lock, q = .mutex lock → k₁.mutexes lock = k.mutexes lock) ?_ ?_
        · unfold Kernel.killLock
          dsimp only
          split
          · rename_i howner
            have hne : QueueId.mutex i ≠ q := fun he => hspares i he.symm howner
            refine (doUnblockOne_follows h hne).bind fun k₁ c hunblock _ habsent => ?_
            obtain ⟨heap₁, L₁, L₁', rfl, htwin⟩ := habsent
            refine Follows.ok ⟨⟨heap₁, L₁, L₁', rfl, htwin⟩, fun lock hlock => ?_⟩
            have hdiff : lock ≠ i := fun he => hne (he ▸ hlock.symm)
            change Function.update k₁.mutexes i ⟨.unlocked, 0⟩ lock = _
            rw [Function.update_of_ne hdiff, doUnblockOne_mutexes hunblock]
          · exact Follows.ok ⟨.intro h, fun _ _ => rfl⟩
        · rintro k₁ c - - ⟨⟨heap₁, L₁, L₁', rfl, htwin⟩, hmutexes⟩
          refine ih htwin fun lock hlock => ?_
          rw [hmutexes lock hlock]
          exact hspares lock hlock
      · exact Follows.ok (.intro h)

/-- Killing `pid` makes tasks of the queue ready: those that wait for it or for its locks. -/
def Kernel.KillWakes (k : Kernel) (q : QueueId) (pid : Int) : Prop :=
  pid ≠ 1 ∧ slistIsValid k.pidList pid maxTaskNum = true ∧
    (q = .wait pid.toNat ∨ ∃ lock, q = .mutex lock ∧ (k.mutexes lock).owner = pid.toNat)

theorem kill_follows (h : Twin v q k.heap heap L L') (hstays : Stays boot k heap L')
    (hready : q ≠ .ready) {pid : Int} (hv : pid ≠ v) (hspares : ¬ k.KillWakes q pid) :
    Follows (Absent v q) (k.kill pid) ({ k with heap }.kill pid) := by
  have hrefused : Absent v q (k.setReg2 0) (Kernel.setReg2 { k with heap } 0) :=
    ⟨heap, L, L', rfl, h⟩
  unfold Kernel.kill
  dsimp only
  by_cases hone : pid = 1
  · rw [if_pos hone, if_pos hone]
    exact Follows.ok hrefused
  rw [if_neg hone, if_neg hone]
  cases hvalid : slistIsValid k.pidList pid maxTaskNum with
  | false =>
      rw [slistFree_invalid hvalid]
      exact Follows.ok hrefused
  | true =>
      obtain ⟨i, rfl, hlive⟩ := slistIsValid_iff.mp hvalid
      obtain ⟨free, hfree⟩ := hstays.table.free
      obtain ⟨htrue, -, -⟩ := slistFree_allocated hfree hlive
      obtain ⟨pidList, hsplit⟩ : ∃ pidList, slistFree k.pidList i maxTaskNum = (true, pidList) :=
        ⟨_, Prod.ext htrue rfl⟩
      have hiv : i ≠ v := by exact_mod_cast hv
      obtain ⟨q', hq'⟩ := hstays.table.covered hlive id
      have hqueue : (k.pcb i).queue = some q' := hstays.table.queue_eq hq'
      obtain ⟨h₁, h₂, hremove, hremove', htwin⟩ := Twin.remove (k := { k with pidList }) h
        (h.inserted.of_mem hq' hiv)
      have hwait : QueueId.wait i ≠ q := fun he =>
        hspares ⟨hone, hvalid, .inl (by rw [Int.toNat_natCast, he])⟩
      have hlocks : ∀ lock, q = .mutex lock → (k.mutexes lock).owner ≠ i := fun lock hlock howner =>
        hspares ⟨hone, hvalid, .inr ⟨lock, hlock, howner⟩⟩
      simp only [hsplit, Int.toNat_natCast, hqueue]
      dsimp only at hremove'
      rw [hremove, hremove', ok_bind, ok_bind]
      refine (killLocks_follows (k := { k with pidList, heap := h₁ }) _ htwin hlocks).bind
        fun k₂ c _ _ habsent => ?_
      obtain ⟨heap₂, L₂, L₂', rfl, htwin₂⟩ := habsent
      refine (unblockAllLoop_follows hwait _ htwin₂).bind fun k₃ c _ _ habsent => ?_
      obtain ⟨heap₃, L₃, L₃', rfl, htwin₃⟩ := habsent
      dsimp only
      split
      · exact doScheduler_follows htwin₃ hready .ret
      · exact Follows.ok ⟨heap₃, L₃, L₃', rfl, htwin₃⟩

/-! ## Events -/

/-- The queue of the object that the entry initialises. -/
def Entry.inits : Entry → Option QueueId
  | .mutexInit lock => some (.mutex lock)
  | .semaphoreInit s _ => some (.semaphore s)
  | .conditionInit condition => some (.condition condition)
  | .barrierInit barrier _ => some (.barrier barrier)
  | _ => none

/-- The pid that the entry kills, if it is allocated. -/
def Entry.target (k : Kernel) : Entry → Option Int
  | .kill pid => some pid
  | .exit => some (k.pcb k.currentRunning).pid
  | _ => none

/-- The entry makes tasks of the queue ready, if there are any. -/
def Entry.WakesOn (k : Kernel) (q : QueueId) : Entry → Prop
  | .kill pid => k.KillWakes q pid
  | .exit => k.KillWakes q (k.pcb k.currentRunning).pid
  | .mutexRelease lock | .conditionWait _ lock =>
      q = .mutex lock ∧ (k.mutexes lock).owner = (k.pcb k.currentRunning).pid
  | .semaphoreUp s => q = .semaphore s ∧ (k.semaphores s).value + 1 ≤ 0
  | .conditionSignal condition | .conditionBroadcast condition =>
      q = .condition condition ∧ (k.conditions condition).waitingNum > 0
  | .barrierWait barrier =>
      q = .barrier barrier ∧ (k.barriers barrier).arrived + 1 = (k.barriers barrier).goal
  | .mac => q = .recv
  | .timer => q = .sleep
  | _ => False

/-- Nobody kills `p` and nobody initialises the object of the queue `q`. -/
def Event.Respects (k : Kernel) (p : Pid) (q : QueueId) : Event → Prop
  | .entry e => e.target k ≠ some p ∧ e.inits ≠ some q
  | .resume => True

def Event.WakesOn (k : Kernel) (q : QueueId) : Event → Prop
  | .entry e => e.WakesOn k q
  | .resume => False

theorem enter_follows (h : Twin v q k.heap heap L L') (hinv : Inv { k with heap } noTask boot)
    (hready : q ≠ .ready) {e : Entry} (henabled : (Event.entry e).Enabled k)
    (hrespects : (Event.entry e).Respects k v q) (hspares : ¬ e.WakesOn k q)
    (hsleep : q ≠ .sleep) :
    Follows (Absent v q) (k.enter e) ({ k with heap }.enter e) := by
  obtain ⟨-, hinterrupt, hallowed⟩ := henabled
  have hstays := h.stays hinv
  have hcur : ¬ e.IsInterrupt → k.currentRunning ∈ L .ready := fun hcall =>
    hstays.current_mem h hready fun h0 => hcall (hinterrupt h0)
  have hinit : ∀ {q'}, e.inits = some q' → queueIsEmpty k.heap q' = true →
      Twin v q (queueInit k.heap q') (queueInit heap q') L L' := by
    intro q' hq' hempty
    have hne : q' ≠ q := by
      rintro rfl
      exact hrespects.2 hq'
    exact h.queueInit hne ((queueIsEmpty_iff h.holds).mp hempty)
  cases e with
  | spawn task => exact initPcb_follows h hstays task
  | kill pid =>
      exact kill_follows h hstays hready (fun he => hrespects.1 (congrArg some he)) hspares
  | exit => exact kill_follows h hstays hready (fun he => hrespects.1 (congrArg some he)) hspares
  | wait pid => exact wait_follows h hready (hcur id) pid
  | sleep time => exact doSleep_follows h hready (hcur id) time
  | mutexInit lock => exact Follows.ok ⟨_, L, L', rfl, hinit rfl hallowed⟩
  | mutexAcquire lock => exact doMutexLockAcquire_follows h hready (hcur id) lock
  | mutexRelease lock => exact doMutexLockRelease_follows h hspares
  | semaphoreInit s value => exact Follows.ok ⟨_, L, L', rfl, hinit rfl hallowed⟩
  | semaphoreUp s => exact doSemaphoreUp_follows h hspares
  | semaphoreDown s => exact doSemaphoreDown_follows h hready (hcur id) s
  | conditionInit condition => exact Follows.ok ⟨_, L, L', rfl, hinit rfl hallowed⟩
  | conditionWait condition lock =>
      exact doConditionWait_follows h hinv hready (fun h0 => hinterrupt h0) hspares
  | conditionSignal condition => exact doConditionSignal_follows h hspares
  | conditionBroadcast condition => exact doConditionBroadcast_follows h hspares
  | barrierInit barrier goal => exact Follows.ok ⟨_, L, L', rfl, hinit rfl hallowed⟩
  | barrierWait barrier => exact doBarrierWait_follows h hready (hcur id) hspares
  | waitRecv => exact doWait_follows h hready (hcur id) _ _ _
  | timer => exact irqTimer_follows h hready hsleep
  | mac => exact irqMac_follows h hspares

theorem resume_follows (h : Twin v q k.heap heap L L') (hready : q ≠ .ready)
    (hcur : k.currentRunning ∈ L .ready) :
    Follows (Absent v q) k.resume { k with heap }.resume := by
  unfold Kernel.resume
  dsimp only
  split
  · exact Follows.ok (.intro h)
  · exact acquireLoop_follows (k := k.park .ret) h hready hcur _
  · exact doMutexLockAcquire_follows (k := k.park .ret) h hready hcur _

/-- An event that wakes nobody in the queue does the same with and without `v` there. -/
theorem exec_follows {k' : Kernel} (h : Absent v q k k') (hinv : Inv k' noTask boot)
    (hready : q ≠ .ready) (hsleep : q ≠ .sleep) {event : Event} (henabled : event.Enabled k)
    (hrespects : event.Respects k v q) (hspares : ¬ event.WakesOn k q) :
    Follows (Absent v q) (k.exec event) (k'.exec event) := by
  obtain ⟨heap, L, L', rfl, htwin⟩ := h
  cases event with
  | entry e => exact enter_follows htwin hinv hready henabled hrespects hspares hsleep
  | resume =>
      exact resume_follows htwin hready ((htwin.stays hinv).current_mem htwin hready henabled.1)

theorem Absent.enabled {k' : Kernel} (h : Absent v q k k') {event : Event}
    (henabled : event.Enabled k) (hrespects : event.Respects k v q) : event.Enabled k' := by
  obtain ⟨heap, L, L', rfl, htwin⟩ := h
  cases event with
  | resume => exact henabled
  | entry e =>
      obtain ⟨hkont, hinterrupt, hallowed⟩ := henabled
      refine ⟨hkont, hinterrupt, ?_⟩
      have hinit : ∀ {q'}, e.inits = some q' → queueIsEmpty k.heap q' = true →
          queueIsEmpty heap q' = true := by
        intro q' hq' hempty
        have hne : q' ≠ q := by
          rintro rfl
          exact hrespects.2 hq'
        rw [htwin.queueIsEmpty_eq hne]
        exact hempty
      cases e with
      | spawn task => exact hallowed
      | mutexInit | semaphoreInit | conditionInit | barrierInit => exact hinit rfl hallowed
      | kill | exit | wait | sleep | mutexAcquire | mutexRelease | semaphoreUp | semaphoreDown
      | conditionWait | conditionSignal | conditionBroadcast | barrierWait | waitRecv | timer
      | mac => trivial

/-- A step that wakes nobody in the queue is a step of the kernel that has `v` there. -/
theorem Absent.step {k' k₁ : Kernel} (h : Absent v q k k') (hinv : Inv k' noTask boot)
    (hready : q ≠ .ready) (hsleep : q ≠ .sleep) {event : Event}
    (hstep : kernelSystem.step k event k₁) (hrespects : event.Respects k v q)
    (hspares : ¬ event.WakesOn k q) :
    ∃ k₁', kernelSystem.step k' event k₁' ∧ Absent v q k₁ k₁' := by
  obtain ⟨henabled, hexec⟩ := hstep
  obtain ⟨k₁', hexec', habsent⟩ :=
    exec_follows h hinv hready hsleep henabled hrespects hspares k₁ hexec
  exact ⟨k₁', ⟨h.enabled henabled hrespects, hexec'⟩, habsent⟩

end UcasOs.Sched
