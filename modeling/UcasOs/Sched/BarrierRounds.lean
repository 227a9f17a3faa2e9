import UcasOs.Sched.SemaphoreLedger

/-!
# The rounds of a barrier

The calls of `do_barrier_wait` split into groups of the size of the goal.  The
tasks in the queue are the callers of the group that is not complete; the last
call of a group releases them all.
-/

namespace UcasOs.Sched

open UcasOs.Foundation UcasOs.Libs

variable {k k' : Kernel} {v v' : View} {event : Event} {q : QueueId} {barrier : Nat}

/-- The barrier counts its waiters, and they are fewer than its goal. -/
def View.BarrierAgrees (v : View) (barrier : Nat) : Prop :=
  (v.barriers barrier).arrived = (v.queue (.barrier barrier)).length ∧
    (v.barriers barrier).arrived < (v.barriers barrier).goal

theorem View.Waits.barriers {status : TaskStatus} {kont : Kont}
    (h : v.Waits q status kont v') : v'.barriers = v.barriers := by
  obtain ⟨next, -, rfl⟩ := h
  rfl

theorem barrierWait_cases (h : v.Step v' (.barrierWait barrier)) :
    ((v.barriers barrier).arrived + 1 = (v.barriers barrier).goal ∧
      v' = (v.setBarrier barrier { v.barriers barrier with arrived := 0 }).wakeAll
        (.barrier barrier)) ∨
    ((v.barriers barrier).arrived + 1 ≠ (v.barriers barrier).goal ∧
      (v.setBarrier barrier
        { v.barriers barrier with arrived := (v.barriers barrier).arrived + 1 }).Waits
          (.barrier barrier) .waiting .ret v') := by
  simp only [View.Step] at h
  split at h
  · exact .inl ⟨‹_›, h⟩
  · exact .inr ⟨‹_›, h⟩

theorem View.BarrierAgrees.wait (hagrees : v.BarrierAgrees barrier)
    (h : v.Step v' (.barrierWait barrier)) : v'.BarrierAgrees barrier := by
  obtain ⟨harrived, hgoal⟩ := hagrees
  obtain ⟨-, rfl⟩ | ⟨hmore, hwaits⟩ := barrierWait_cases h
  · constructor
    · simp [View.wakeAll, View.setBarrier]
    · simp only [View.wakeAll, View.setBarrier, Function.update_self]
      omega
  · constructor
    · rw [hwaits.queue_self (by simp), hwaits.barriers, List.length_append,
        List.length_singleton]
      simp only [View.setBarrier, Function.update_self]
      omega
    · rw [hwaits.barriers]
      simp only [View.setBarrier, Function.update_self]
      omega

/-- The waiters of a barrier stay counted while none of them is killed. -/
theorem View.BarrierAgrees.moves (hagrees : v.BarrierAgrees barrier) (h : v.Moves event v')
    (hspares : ∀ p ∈ v.queue (.barrier barrier), ¬ event.Kills v p) :
    v'.BarrierAgrees barrier := by
  by_cases huses : event.uses = some (.barrier barrier)
  · cases event with
    | resume => cases huses
    | entry e =>
        cases e with
        | barrierInit b goal =>
            obtain rfl : b = barrier := by simpa [Event.uses, Entry.uses] using huses
            obtain rfl := h.does
            have hnil : v.queue (.barrier b) = [] := h.enabled.2.2
            constructor
            · simp [View.setBarrier, hnil]
            · simp only [View.setBarrier, Function.update_self]
              split <;> omega
        | barrierWait b =>
            obtain rfl : b = barrier := by simpa [Event.uses, Entry.uses] using huses
            exact hagrees.wait h.does
        | _ => simp [Event.uses, Entry.uses] at huses
  · have huntouched := View.Does.untouched (q := .barrier barrier) trivial huses hspares h.does
    unfold View.BarrierAgrees
    rw [huntouched.queue, huntouched.barrier barrier rfl]
    exact hagrees

/-! ## The rounds of a barrier -/

def Event.arrives (barrier : Nat) (caller : Pid) : Event → List Pid
  | .entry (.barrierWait b) => if b = barrier then [caller] else []
  | _ => []

/-- The kernel with the tasks that called `do_barrier_wait`, in the order of their calls. -/
def barrierSystem (barrier : Nat) : Lts (Kernel × List Pid) Event where
  step c event c' :=
    kernelSystem.step c.1 event c'.1 ∧ (∀ goal, event ≠ .entry (.barrierInit barrier goal)) ∧
      event.Spares c.1 (.barrier barrier) ∧
      c'.2 = c.2 ++ event.arrives barrier c.1.currentRunning

/-- The size of the groups: goals below one count as one. -/
def groupSize (goal : Int) : Nat := (max 1 goal).toNat

/-- The callers after the last complete group of `n`. -/
def incomplete (n : Nat) (callers : List Pid) : List Pid :=
  callers.drop (callers.length / n * n)

structure Rounds (barrier n : Nat) (v : View) (callers : List Pid) : Prop where
  goal : (v.barriers barrier).goal = n
  arrived : (v.barriers barrier).arrived = (callers.length % n : Nat)
  queue : v.queue (.barrier barrier) = incomplete n callers

theorem length_incomplete (n : Nat) (callers : List Pid) :
    (incomplete n callers).length = callers.length % n := by
  rw [incomplete, List.length_drop, Nat.mod_eq_sub_div_mul]

section

variable {n : Nat} (callers : List Pid) (p : Pid)

/-- A call that does not complete the group joins it. -/
theorem incomplete_concat (hmore : callers.length % n + 1 < n) :
    incomplete n (callers ++ [p]) = incomplete n callers ++ [p] ∧
      (callers ++ [p]).length % n = callers.length % n + 1 := by
  have hsplit : callers.length + 1 =
      (callers.length % n + 1) + n * (callers.length / n) := by
    have := Nat.div_add_mod callers.length n
    omega
  have hmod : (callers.length + 1) % n = callers.length % n + 1 := by
    rw [hsplit, Nat.add_mul_mod_self_left, Nat.mod_eq_of_lt hmore]
  have hdiv : (callers.length + 1) / n = callers.length / n := by
    rw [hsplit, Nat.add_mul_div_left _ _ (by omega), Nat.div_eq_of_lt hmore, Nat.zero_add]
  have hle : callers.length / n * n ≤ callers.length := Nat.div_mul_le_self _ _
  rw [incomplete, incomplete, List.length_append, List.length_singleton, hmod, hdiv,
    List.drop_append_of_le_length hle]
  exact ⟨rfl, rfl⟩

/-- A call that completes the group leaves an empty one. -/
theorem incomplete_last (hlast : callers.length % n + 1 = n) :
    incomplete n (callers ++ [p]) = [] ∧ (callers ++ [p]).length % n = 0 := by
  have hsplit : callers.length + 1 = n * (callers.length / n + 1) := by
    have := Nat.div_add_mod callers.length n
    rw [Nat.mul_add, Nat.mul_one]
    omega
  have hmod : (callers ++ [p]).length % n = 0 := by
    rw [List.length_append, List.length_singleton, hsplit, Nat.mul_mod_right]
  refine ⟨List.length_eq_zero_iff.mp ?_, hmod⟩
  rw [length_incomplete, hmod]

end

theorem Rounds.step {n : Nat} {callers callers' : List Pid} (hseen : Seen noTask True k v)
    (h : Rounds barrier n v callers) (hpos : 0 < n) (hmoves : v.Moves event v')
    (hinit : ∀ goal, event ≠ .entry (.barrierInit barrier goal))
    (hspares : event.Spares k (.barrier barrier))
    (hcallers : callers' = callers ++ event.arrives barrier k.currentRunning) :
    Rounds barrier n v' callers' := by
  rw [← hseen.current_eq] at hcallers
  obtain ⟨hgoal, harrived, hqueue⟩ := h
  have hlt := Nat.mod_lt callers.length hpos
  by_cases huses : event.uses = some (.barrier barrier)
  · cases event with
    | resume => cases huses
    | entry e =>
        cases e with
        | barrierInit b goal =>
            obtain rfl : b = barrier := by simpa [Event.uses, Entry.uses] using huses
            exact absurd rfl (hinit goal)
        | barrierWait b =>
            obtain rfl : b = barrier := by simpa [Event.uses, Entry.uses] using huses
            have hcallers' : callers' = callers ++ [v.current] := by
              simpa [Event.arrives] using hcallers
            subst hcallers'
            obtain ⟨hlast, rfl⟩ | ⟨hmore, hwaits⟩ := barrierWait_cases hmoves.does
            · rw [hgoal, harrived] at hlast
              obtain ⟨hnil, hzero⟩ := incomplete_last callers v.current
                (show callers.length % n + 1 = n by omega)
              refine ⟨?_, ?_, ?_⟩
              · simpa [View.wakeAll, View.setBarrier] using hgoal
              · rw [hzero]
                simp [View.wakeAll, View.setBarrier]
              · rw [hnil]
                simp [View.wakeAll]
            · rw [hgoal, harrived] at hmore
              obtain ⟨hconcat, hmod⟩ :=
                incomplete_concat callers v.current (show callers.length % n + 1 < n by omega)
              refine ⟨?_, ?_, ?_⟩
              · rw [hwaits.barriers]
                simpa [View.setBarrier] using hgoal
              · rw [hwaits.barriers, hmod]
                simp [View.setBarrier, harrived]
              · rw [hwaits.queue_self (by simp), hconcat, ← hqueue]
                rfl
        | _ => simp [Event.uses, Entry.uses] at huses
  · have huntouched := View.Does.untouched (q := .barrier barrier) trivial huses
      (hspares.kills hseen trivial) hmoves.does
    have harrives : event.arrives barrier v.current = [] := by
      cases event with
      | resume => rfl
      | entry e =>
          cases e with
          | barrierWait b =>
              have hne : b ≠ barrier := fun he => huses (he ▸ rfl)
              simp [Event.arrives, hne]
          | _ => rfl
    rw [harrives, List.append_nil] at hcallers
    subst hcallers
    refine ⟨?_, ?_, ?_⟩
    · rw [huntouched.barrier barrier rfl, hgoal]
    · rw [huntouched.barrier barrier rfl, harrived]
    · rw [huntouched.queue, hqueue]

/-- The caller waits with the rest of its group. -/
def JoinsGroup (q : QueueId) (k k' : Kernel) : Prop :=
  k'.items q = k.items q ++ [k.currentRunning] ∧ k.currentRunning ∉ k'.items .ready ∧
    (k'.pcb k.currentRunning).status = .waiting

/-- All tasks of the group are ready again, and the caller goes on. -/
def ReleasesGroup (q : QueueId) (k k' : Kernel) : Prop :=
  k'.items q = [] ∧ k'.items .ready = k.items .ready ++ k.items q ∧
    (∀ p ∈ k.items q, (k'.pcb p).status = .ready) ∧ k'.currentRunning = k.currentRunning

theorem joinsGroup_of_waits {v₁ : View} (hseen : Seen noTask True k v)
    (hseen' : Seen noTask True k' v') (hqueue : v₁.queue = v.queue)
    (hcurrent : v₁.current = v.current) (hq : q ≠ .ready)
    (hwaits : v₁.Waits q .waiting .ret v') : JoinsGroup q k k' := by
  have hjoined : v'.queue q = v.queue q ++ [v.current] := by
    rw [hwaits.queue_self hq, hqueue, hcurrent]
  have hnotready : v.current ∉ v'.queue .ready := fun hready =>
    hq (hseen'.wf.apart (by rw [hjoined]; simp) hready)
  refine ⟨?_, ?_, ?_⟩
  · rw [hseen'.items, hseen.items, ← hseen.current_eq, hjoined]
  · rwa [hseen'.items, ← hseen.current_eq]
  · rw [hseen'.status_eq, ← hseen.current_eq]
    obtain ⟨next, hnext, rfl⟩ := hwaits
    have hne : v.current ≠ next := by
      rintro rfl
      exact hnotready hnext
    simp [View.switch, View.block, hcurrent, hne]

theorem releasesGroup_of_wakeAll {v₁ : View} (hseen : Seen noTask True k v)
    (hseen' : Seen noTask True k' (v₁.wakeAll q)) (hqueue : v₁.queue = v.queue)
    (hcurrent : v₁.current = v.current) (hq : q ≠ .ready) : ReleasesGroup q k k' := by
  refine ⟨?_, ?_, ?_, ?_⟩
  · rw [hseen'.items]
    simp [View.wakeAll, hq]
  · rw [hseen'.items, hseen.items, hseen.items]
    simp [View.wakeAll, hqueue]
  · intro p hp
    rw [hseen.items] at hp
    rw [hseen'.status_eq]
    simp [View.wakeAll, hqueue, hp]
  · rw [← hseen'.current_eq, ← hseen.current_eq]
    exact hcurrent

theorem doBarrierInit_seen {goal : Int} (hseen : Seen noTask True k v)
    (henabled : (Event.entry (.barrierInit barrier goal)).Enabled k) :
    Seen noTask True (k.doBarrierInit barrier goal)
        (v.setBarrier barrier ⟨groupSize goal, 0⟩) ∧
      v.queue (.barrier barrier) = [] := by
  have hnil := (hseen.queueIsEmpty_iff _).mp henabled.2.2
  have hgoal : (if goal < 1 then 1 else goal) = groupSize goal := by
    rw [groupSize]
    split <;> omega
  rw [Kernel.doBarrierInit, hgoal]
  exact ⟨(hseen.setBarrier barrier _).queueInit henabled.2.2, hnil⟩

theorem barrierRounds_of_run {k k₁ k₂ : Kernel} {events more : List Event} {callers : List Pid}
    {goal : Int} (hinit : initTask Kernel.zero = .ok k) (run₁ : kernelSystem.Run k events k₁)
    (hbarrier : (Event.entry (.barrierInit barrier goal)).Enabled k₁)
    (run₂ : (barrierSystem barrier).Run (k₁.doBarrierInit barrier goal, []) more
      (k₂, callers)) :
    ((k₂.barriers barrier).arrived = (k₂.items (.barrier barrier)).length ∧
      (k₂.barriers barrier).arrived < groupSize goal ∧
      k₂.items (.barrier barrier) = incomplete (groupSize goal) callers) ∧
    ((callers.length + 1) % groupSize goal ≠ 0 →
      ∀ k₃, kernelSystem.step k₂ (.entry (.barrierWait barrier)) k₃ →
        JoinsGroup (.barrier barrier) k₂ k₃) ∧
    ((callers.length + 1) % groupSize goal = 0 →
      ∃ k₃, k₂.enter (.barrierWait barrier) = .ok k₃ ∧
        ReleasesGroup (.barrier barrier) k₂ k₃) ∧
    ∀ event k₃ callers₃, (barrierSystem barrier).step (k₂, callers) event (k₃, callers₃) →
      event ≠ .entry (.barrierWait barrier) →
      k₃.items (.barrier barrier) = k₂.items (.barrier barrier) := by
  have hpos : 0 < groupSize goal := by
    rw [groupSize]
    omega
  obtain ⟨v₁, hseen₁⟩ := (inv_of_run hinit run₁).seen
  obtain ⟨hstart, hnil⟩ := doBarrierInit_seen hseen₁ hbarrier
  have hrounds : Rounds barrier (groupSize goal)
      (v₁.setBarrier barrier ⟨groupSize goal, 0⟩) [] :=
    ⟨by simp [View.setBarrier], by simp [View.setBarrier],
      by simp [View.setBarrier, hnil, incomplete]⟩
  obtain ⟨v₂, hseen₂, hgoal, harrived, hqueue⟩ := run₂.invariant
    (I := fun c => ∃ v, Seen noTask True c.1 v ∧ Rounds barrier (groupSize goal) v c.2)
    (by
      rintro c event c' ⟨v, hseen, h⟩ ⟨hstep, hnoinit, hspares, hcallers⟩
      obtain ⟨v', hseen', hmoves⟩ := hseen.step hstep
      exact ⟨v', hseen', h.step hseen hpos hmoves hnoinit hspares hcallers⟩)
    ⟨_, hstart, hrounds⟩
  change (v₂.barriers barrier).arrived = (callers.length % groupSize goal : Nat) at harrived
  change v₂.queue (.barrier barrier) = incomplete (groupSize goal) callers at hqueue
  have hlt := Nat.mod_lt callers.length hpos
  have hmod : (callers.length + 1) % groupSize goal = 0 ↔
      (v₂.barriers barrier).arrived + 1 = (v₂.barriers barrier).goal := by
    rw [hgoal, harrived]
    by_cases hlast : callers.length % groupSize goal + 1 = groupSize goal
    · have := (incomplete_last callers 0 hlast).2
      rw [List.length_append, List.length_singleton] at this
      exact iff_of_true this (by exact_mod_cast hlast)
    · have := (incomplete_concat callers 0 (show _ < groupSize goal by omega)).2
      rw [List.length_append, List.length_singleton] at this
      exact iff_of_false (by omega) (by exact_mod_cast hlast)
  refine ⟨⟨?_, ?_, ?_⟩, ?_, ?_, ?_⟩
  · rw [hseen₂.items, ← hseen₂.barriers_eq, harrived, hqueue, length_incomplete]
  · rw [← hseen₂.barriers_eq, harrived]
    exact_mod_cast hlt
  · rw [hseen₂.items, hqueue]
  · intro hmore k₃ hstep
    obtain ⟨v₃, hseen₃, hmoves⟩ := hseen₂.step hstep
    obtain ⟨hlast, -⟩ | ⟨-, hwaits⟩ := barrierWait_cases hmoves.does
    · exact absurd (hmod.mpr hlast) hmore
    · have hset : ∀ b, (v₂.setBarrier barrier b).queue = v₂.queue := fun _ => rfl
      exact joinsGroup_of_waits hseen₂ hseen₃ (hset _) rfl (by simp) hwaits
  · intro hlast
    rw [hmod, hseen₂.barriers_eq] at hlast
    obtain ⟨k₃, hwait, hseen₃, -⟩ := (doBarrierWait_seen_last hseen₂ hlast).returns
    have hset : ∀ b, (v₂.setBarrier barrier b).queue = v₂.queue := fun _ => rfl
    exact ⟨k₃, hwait, releasesGroup_of_wakeAll hseen₂ hseen₃ (hset _) rfl (by simp)⟩
  · rintro event k₃ callers₃ ⟨hstep, hnoinit, hspares, -⟩ hother
    obtain ⟨v₃, hseen₃, hmoves⟩ := hseen₂.step hstep
    have huses : event.uses ≠ some (.barrier barrier) := by
      intro huses
      cases event with
      | resume => cases huses
      | entry e =>
          cases e with
          | barrierInit b goal =>
              obtain rfl : b = barrier := by simpa [Event.uses, Entry.uses] using huses
              exact hnoinit goal rfl
          | barrierWait b =>
              obtain rfl : b = barrier := by simpa [Event.uses, Entry.uses] using huses
              exact hother rfl
          | _ => simp [Event.uses, Entry.uses] at huses
    have huntouched := View.Does.untouched (q := .barrier barrier) trivial huses
      (hspares.kills hseen₂ trivial) hmoves.does
    rw [hseen₃.items, hseen₂.items, huntouched.queue]

/-- The first of two tasks waits. -/
theorem barrierRounds_spawned :
    ∃ k₂, (barrierSystem 0).Run (spawned.doBarrierInit 0 2, []) [.entry (.barrierWait 0)]
        (k₂, [3]) ∧ k₂.items (.barrier 0) = [3] ∧ (k₂.barriers 0).arrived = 1 := by
  let k₂ := (spawned.doBarrierInit 0 2).after (.barrierWait 0)
  have hstep : (barrierSystem 0).step (spawned.doBarrierInit 0 2, []) (.entry (.barrierWait 0))
      (k₂, [3]) :=
    ⟨step_after ⟨by decide +kernel, fun h => absurd h (by decide +kernel), trivial⟩
      (by decide +kernel), by simp, by simp [Event.Spares], by decide +kernel⟩
  have h := barrierRounds_of_run initTask_zero run_spawned
    ⟨by decide +kernel, fun h => absurd h (by decide +kernel),
      show queueIsEmpty spawned.heap (.barrier 0) = true by decide +kernel⟩ (.single hstep)
  have hitems : k₂.items (.barrier 0) = [3] := h.1.2.2
  refine ⟨k₂, .single hstep, hitems, ?_⟩
  rw [h.1.1, hitems]
  rfl

end UcasOs.Sched
