import UcasOs.Sched.Waiting

/-!
# How long a task sleeps

A sleeper is not woken before as many ticks as its time makes.  After them a
tick wakes the first sleeper whose time has come, so one that has `n` others
before it waits for at most `n` ticks more.
-/

namespace UcasOs.Sched

open UcasOs.Foundation UcasOs.Libs

def Event.isTick : Event → Bool
  | .entry .timer => true
  | _ => false

def ticks (events : List Event) : Nat := events.countP Event.isTick

theorem ticks_concat (events : List Event) (event : Event) :
    ticks (events ++ [event]) = ticks events + if event.isTick then 1 else 0 := by
  rw [ticks, List.countP_append, List.countP_singleton]
  rfl

theorem Event.isTick_eq_true {event : Event} : event.isTick = true ↔ event = .entry .timer := by
  unfold isTick
  split <;> simp_all

/-! ## Places in a queue -/

section

variable {α : Type} [DecidableEq α] {l : List α} {a b : α}

theorem idxOf_erase_le (hne : a ≠ b) (l : List α) : (l.erase a).idxOf b ≤ l.idxOf b := by
  induction l with
  | nil => exact Nat.le_refl _
  | cons x l ih =>
      by_cases hx : x = a
      · subst hx
        rw [List.erase_cons_head, List.idxOf_cons_ne _ hne]
        exact Nat.le_succ _
      · rw [List.erase_cons_tail (by simpa using hx)]
        by_cases hxb : x = b
        · simp [hxb]
        · rw [List.idxOf_cons_ne _ hxb, List.idxOf_cons_ne _ hxb]
          exact Nat.succ_le_succ ih

/-- What stands before `b` and leaves brings `b` forward. -/
theorem idxOf_erase_lt {as bs : List α} (ha : a ∉ as) (hb : b ∉ as) (hne : a ≠ b) :
    ((as ++ a :: bs).erase a).idxOf b < (as ++ a :: bs).idxOf b := by
  rw [List.erase_append_right _ ha, List.erase_cons_head, List.idxOf_append_of_notMem hb,
    List.idxOf_append_of_notMem hb, List.idxOf_cons_ne _ hne]
  exact Nat.lt_succ_self _

end

namespace View

variable {v v' : View} {event : Event} {p : Pid} {deadline : BitVec 32} {ahead : Nat}

/-- The task `p` sleeps until `deadline`, with at most `ahead` sleepers before it. -/
structure Sleeping (p : Pid) (deadline : BitVec 32) (ahead : Nat) (v : View) : Prop where
  mem : p ∈ v.queue .sleep
  awakened : v.awakened p = deadline
  ahead : (v.queue .sleep).idxOf p ≤ ahead

theorem sleep_enters {time : BitVec 32} (h : v.Step v' (.sleep time)) :
    v'.queue .sleep = v.queue .sleep ++ [v.current] ∧ v'.time = v.time ∧
      v'.awakened = Function.update v.awakened v.current (v.time + time / Kernel.timeSlice) := by
  obtain ⟨next, -, rfl⟩ := h
  refine ⟨?_, rfl, rfl⟩
  simp [switch, block, join, leave]

theorem Still.sleeping (hstill : Still .sleep v v') (h : v.Sleeping p deadline ahead) :
    v'.Sleeping p deadline ahead := by
  refine ⟨?_, ?_, ?_⟩
  · rw [hstill.queue]
    exact h.mem
  · rw [hstill.awakened]
    exact h.awakened
  · rw [hstill.queue]
    exact h.ahead

/-- The end of another task. -/
theorem Kills.sleeping {pid : Pid} (hkills : v.Kills pid v') (hne : pid ≠ p)
    (h : v.Sleeping p deadline ahead) : v'.Sleeping p deadline ahead ∧ v'.time = v.time := by
  obtain ⟨q', -, hstill⟩ := Kills.still (q := .sleep) trivial (by simp) hkills
  refine ⟨Still.sleeping hstill ?_, hstill.time⟩
  by_cases hq : QueueId.sleep = q'
  · subst hq
    have hqueue : (v.remove .sleep pid).queue .sleep = (v.queue .sleep).erase pid := by
      simp [remove, leave]
    refine ⟨?_, h.awakened, ?_⟩
    · rw [hqueue]
      exact (List.mem_erase_of_ne hne.symm).mpr h.mem
    · rw [hqueue]
      exact (idxOf_erase_le hne _).trans h.ahead
  · have hqueue : (v.remove q' pid).queue .sleep = v.queue .sleep := by
      simp [remove, leave, hq]
    refine ⟨?_, h.awakened, ?_⟩
    · rw [hqueue]
      exact h.mem
    · rw [hqueue]
      exact h.ahead

/-- Between the ticks a sleeper does not fall back. -/
theorem Moves.sleeping (hm : v.Moves event v') (htick : event.isTick = false)
    (hlives : ¬ event.Kills v p) (h : v.Sleeping p deadline ahead) :
    v'.Sleeping p deadline ahead ∧ v'.time = v.time := by
  have hcurrent : p ≠ v.current := by
    rintro rfl
    cases hm.before.apart h.mem (hm.before.current (hm.before.ne_zero (hm.before.live h.mem)))
  have hdoes := hm.does
  obtain hplain | rfl | ⟨time, rfl⟩ | ⟨i, rfl⟩ := event.plain_or
  · obtain hstill | ⟨x, hends, hkills⟩ := Does.still (q := .sleep) trivial hplain hdoes
    · exact ⟨hstill.sleeping h, hstill.time⟩
    · exact hkills.sleeping (fun hx => hlives (hx ▸ hends)) h
  · cases htick
  · obtain ⟨hqueue, htime, hawakened⟩ := sleep_enters hdoes
    refine ⟨⟨?_, ?_, ?_⟩, htime⟩
    · rw [hqueue]
      exact List.mem_append_left _ h.mem
    · rw [hawakened, Function.update_of_ne hcurrent]
      exact h.awakened
    · rw [hqueue, List.idxOf_append_of_mem h.mem]
      exact h.ahead
  · obtain ⟨-, rfl⟩ | ⟨-, x, -, hwaits⟩ := hdoes
    · exact ⟨h, rfl⟩
    · have hstill := Waits.still (q := .sleep) trivial (by simp) hwaits
      exact ⟨hstill.sleeping h, hstill.time⟩

theorem timer_queue (h : v.Step v' .timer) :
    v'.time = v.time + 1 ∧ v'.awakened = v.awakened ∧
      v'.queue = ((v.queue .sleep).find? fun p => v.awakened p ≤ v.time + 1).elim v.queue
        fun p => join (leave v.queue .sleep p) .ready p := by
  obtain ⟨next, -, rfl⟩ := h
  have hwoken : View.wakeSleeper { v with time := v.time + 1 } =
      ((v.queue .sleep).find? fun p => v.awakened p ≤ v.time + 1).elim { v with time := v.time + 1 }
        (View.awaken { v with time := v.time + 1 }) := rfl
  rw [hwoken]
  cases (v.queue .sleep).find? fun p => v.awakened p ≤ v.time + 1 with
  | none => exact ⟨rfl, rfl, rfl⟩
  | some p => exact ⟨rfl, rfl, rfl⟩

/-- A tick wakes a sleeper whose time has come, or one that stands before it. -/
theorem timer_sleeping (hdoes : v.Step v' .timer) (h : v.Sleeping p deadline ahead) :
    v'.time = v.time + 1 ∧
      ((¬ deadline ≤ v.time + 1 ∧ v'.Sleeping p deadline ahead) ∨
        (deadline ≤ v.time + 1 ∧
          (p ∈ v'.queue .ready ∨ ∃ n < ahead, v'.Sleeping p deadline n))) := by
  obtain ⟨htime, hawakened, hqueue⟩ := timer_queue hdoes
  refine ⟨htime, ?_⟩
  cases hfind : (v.queue .sleep).find? fun p => v.awakened p ≤ v.time + 1 with
  | none =>
      rw [hfind] at hqueue
      have hlate := List.find?_eq_none.mp hfind p h.mem
      rw [decide_eq_true_eq, h.awakened] at hlate
      refine .inl ⟨hlate, ?_, ?_, ?_⟩
      · rw [hqueue]
        exact h.mem
      · rw [hawakened]
        exact h.awakened
      · rw [hqueue]
        exact h.ahead
  | some x =>
      rw [hfind] at hqueue
      obtain ⟨hdue, as, bs, hsplit, hbefore⟩ := List.find?_eq_some_iff_append.mp hfind
      have hready : v'.queue .ready = v.queue .ready ++ [x] := by
        rw [hqueue]
        simp [join, leave]
      have hsleep : v'.queue .sleep = (v.queue .sleep).erase x := by
        rw [hqueue]
        simp [join, leave]
      by_cases hxp : x = p
      · subst hxp
        rw [decide_eq_true_eq, h.awakened] at hdue
        refine .inr ⟨hdue, .inl ?_⟩
        rw [hready]
        simp
      have hmem : p ∈ v'.queue .sleep := by
        rw [hsleep]
        exact (List.mem_erase_of_ne (Ne.symm hxp)).mpr h.mem
      by_cases hlate : deadline ≤ v.time + 1
      · -- the one that is woken stands before `p`, which is due as well
        refine .inr ⟨hlate, .inr ⟨(v'.queue .sleep).idxOf p, ?_, hmem, ?_, Nat.le_refl _⟩⟩
        · refine lt_of_lt_of_le ?_ h.ahead
          have hx : x ∉ as := by
            intro hx
            have hnot := hbefore x hx
            rw [hdue] at hnot
            cases hnot
          have hp : p ∉ as := by
            intro hp
            have hnot := hbefore p hp
            rw [h.awakened, decide_eq_true hlate] at hnot
            cases hnot
          rw [hsleep, hsplit]
          exact idxOf_erase_lt hx hp hxp
        · rw [hawakened]
          exact h.awakened
      · refine .inl ⟨hlate, hmem, ?_, ?_⟩
        · rw [hawakened]
          exact h.awakened
        · rw [hsleep]
          exact (idxOf_erase_le hxp _).trans h.ahead

end View

/-! ## Runs -/

/-- `p` has slept for `n` ticks from the time `start`, of the `span` ticks that it asked for, and
had `others` sleepers before it. -/
structure Asleep (p : Pid) (start span others n : Nat) (v : View) : Prop where
  time : v.time.toNat = start + n
  sleeping : ∃ ahead, v.Sleeping p (BitVec.ofNat 32 (start + span)) ahead ∧
    ahead + (n + 1 - max 1 span) ≤ others

section

variable {v v' : View} {event : Event} {p : Pid} {start span others n : Nat}

theorem Asleep.moves (h : Asleep p start span others n v) (hm : v.Moves event v')
    (hlives : ¬ event.Kills v p) (htick : event.isTick = false) :
    Asleep p start span others n v' := by
  obtain ⟨ahead, hsleeping, hahead⟩ := h.sleeping
  obtain ⟨hsleeping', htime⟩ := hm.sleeping htick hlives hsleeping
  exact ⟨by rw [htime, h.time], ahead, hsleeping', hahead⟩

/-- After the tick number `n + 1` the task sleeps on, or it has been woken in time. -/
theorem Asleep.tick (h : Asleep p start span others n v) (hdoes : v.Step v' .timer)
    (hclock : start + n + 1 < 2 ^ 32) (hspan : start + span < 2 ^ 32) :
    Asleep p start span others (n + 1) v' ∨
      (p ∈ v'.queue .ready ∧ span ≤ n + 1 ∧ n + 1 ≤ max 1 span + others) := by
  obtain ⟨ahead, hsleeping, hahead⟩ := h.sleeping
  obtain ⟨htime, hcases⟩ := View.timer_sleeping hdoes hsleeping
  have hnow : (v.time + 1).toNat = start + n + 1 := by
    rw [BitVec.toNat_add, h.time, show (1 : BitVec 32).toNat = 1 from rfl]
    exact Nat.mod_eq_of_lt hclock
  have hdue : BitVec.ofNat 32 (start + span) ≤ v.time + 1 ↔ span ≤ n + 1 := by
    rw [BitVec.le_def, hnow, BitVec.toNat_ofNat, Nat.mod_eq_of_lt hspan]
    omega
  rw [hdue] at hcases
  obtain ⟨hearly, hsleeping'⟩ | ⟨hlate, hready | ⟨m, hm, hsleeping'⟩⟩ := hcases
  · refine .inl ⟨by rw [htime, hnow, Nat.add_assoc], ahead, hsleeping', ?_⟩
    omega
  · exact .inr ⟨hready, hlate, by omega⟩
  · refine .inl ⟨by rw [htime, hnow, Nat.add_assoc], m, hsleeping', ?_⟩
    omega

end

variable {k k₁ k₂ k₃ : Kernel} {v : View} {p : Pid} {before events : List Event}
  {start span others : Nat}

/-- `p` was ready after a part of the run that has not fewer ticks than `span`, and not more than
it may take. -/
def WokenIn (k₂ : Kernel) (p : Pid) (span others : Nat) (events : List Event) : Prop :=
  ∃ first rest k', events = first ++ rest ∧ (surviving [p]).Run k₂ first k' ∧
    p ∈ k'.items .ready ∧ span ≤ ticks first ∧ ticks first ≤ max 1 span + others

theorem asleep_or_woken (hseen : Seen noTask True k₂ v) (hstart : Asleep p start span others 0 v)
    (hspan : start + span < 2 ^ 32) (run : (surviving [p]).Run k₂ events k₃)
    (hclock : start + ticks events < 2 ^ 32) :
    (∃ v', Seen noTask True k₃ v' ∧ Asleep p start span others (ticks events) v') ∨
      WokenIn k₂ p span others events := by
  induction run with
  | nil => exact .inl ⟨v, hseen, hstart⟩
  | @snoc t u labels event run hstep ih =>
      have hcount := ticks_concat labels event
      obtain ⟨w, hseen', hasleep⟩ | ⟨first, rest, k', rfl, hwoken⟩ := ih (by omega)
      · obtain ⟨w', hseen'', hmoves⟩ := hseen'.step hstep.2
        by_cases htick : event.isTick = true
        · obtain rfl := Event.isTick_eq_true.mp htick
          replace hcount : ticks (labels ++ [.entry .timer]) = ticks labels + 1 := hcount
          rw [hcount]
          obtain hasleep' | ⟨hready, hlong, hshort⟩ :=
            hasleep.tick hmoves.does (by omega) hspan
          · exact .inl ⟨w', hseen'', hasleep'⟩
          · refine .inr ⟨_, [], u, (List.append_nil _).symm, .snoc run hstep, ?_, ?_⟩
            · rw [hseen''.items]
              exact hready
            · rw [hcount]
              exact ⟨hlong, hshort⟩
        · rw [Bool.not_eq_true] at htick
          rw [hcount, htick]
          refine .inl ⟨w', hseen'', hasleep.moves hmoves (fun hkills => ?_) htick⟩
          exact hstep.1 p (by simp) (hkills.ends hseen')
      · exact .inr ⟨first, rest ++ [event], k', by simp, hwoken⟩

/-- What `sleep` begins with. -/
theorem asleep_of_sleep {time : BitVec 32} (hinit : initTask Kernel.zero = .ok k)
    (run : kernelSystem.Run k before k₁)
    (hsleep : kernelSystem.step k₁ (.entry (.sleep time)) k₂) :
    ∃ v, Seen noTask True k₂ v ∧ Asleep k₁.currentRunning k₁.timeElapsed.toNat
      (time / Kernel.timeSlice).toNat (k₁.items .sleep).length 0 v := by
  obtain ⟨v₁, hseen₁⟩ := seen_after hinit run
  obtain ⟨v₂, hseen₂, hmoves⟩ := hseen₁.step hsleep
  obtain ⟨hqueue, htime, hawakened⟩ := View.sleep_enters hmoves.does
  have hclock : v₁.time = k₁.timeElapsed := congrArg View.time hseen₁.view.symm
  have hcurrent := hseen₁.current_eq
  have hrunning : v₁.current ≠ 0 := fun hboot => (hmoves.enabled.2.1 hboot).elim
  have hout : v₁.current ∉ v₁.queue .sleep := by
    intro hmem
    cases hseen₁.wf.apart hmem (hseen₁.wf.current hrunning)
  rw [← hcurrent]
  refine ⟨v₂, hseen₂, ?_, (v₁.queue .sleep).length, ⟨?_, ?_, ?_⟩, ?_⟩
  · rw [htime, hclock, Nat.add_zero]
  · rw [hqueue]
    simp
  · rw [hawakened, Function.update_self, hclock]
    apply BitVec.eq_of_toNat_eq
    rw [BitVec.toNat_add, BitVec.toNat_ofNat]
  · rw [hqueue, List.idxOf_append_of_notMem hout]
    simp
  · rw [hseen₁.items]
    omega

/-- A task that has called `sleep` sleeps as long as fewer ticks have come than its time makes. -/
theorem sleeps_long_enough {time : BitVec 32} (hinit : initTask Kernel.zero = .ok k)
    (run : kernelSystem.Run k before k₁)
    (hsleep : kernelSystem.step k₁ (.entry (.sleep time)) k₂)
    (hspan : k₁.timeElapsed.toNat + (time / Kernel.timeSlice).toNat < 2 ^ 32)
    (run' : (surviving [k₁.currentRunning]).Run k₂ events k₃)
    (hticks : ticks events < (time / Kernel.timeSlice).toNat) :
    k₁.currentRunning ∈ k₃.items .sleep ∧ k₃.currentRunning ≠ k₁.currentRunning := by
  obtain ⟨v, hseen, hasleep⟩ := asleep_of_sleep hinit run hsleep
  obtain ⟨v', hseen', hasleep'⟩ | ⟨first, rest, k', rfl, -, -, hlong, -⟩ :=
    asleep_or_woken hseen hasleep hspan run' (by omega)
  · obtain ⟨ahead, hsleeping, -⟩ := hasleep'.sleeping
    refine ⟨by rw [hseen'.items]; exact hsleeping.mem, fun hcurrent => ?_⟩
    rw [← hseen'.current_eq] at hcurrent
    have hready := hseen'.wf.current (hcurrent ▸ hseen'.wf.ne_zero (hseen'.wf.live hsleeping.mem))
    rw [hcurrent] at hready
    cases hseen'.wf.apart hsleeping.mem hready
  · have happend : ticks (first ++ rest) = ticks first + ticks rest := List.countP_append
    omega

/-- Task 2 sleeps for two ticks. -/
def dozing : Kernel := parent.after (.sleep 20)

theorem step_dozing : kernelSystem.step parent (.entry (.sleep 20)) dozing := by
  have hrunning : parent.currentRunning ≠ 0 := by
    rw [current_parent]
    decide
  exact step_after ⟨by decide +kernel, fun hboot => absurd hboot hrunning, trivial⟩
    (by decide +kernel)

theorem run_dozing : (surviving [parent.currentRunning]).Run dozing [.entry .timer]
    (dozing.after .timer) :=
  .single ⟨fun _ _ => id, step_after ⟨by decide +kernel, fun _ => trivial, trivial⟩
    (by decide +kernel)⟩

theorem sleeps_long_enough_dozing :
    parent.currentRunning ∈ (dozing.after .timer).items .sleep ∧
      (dozing.after .timer).currentRunning ≠ parent.currentRunning :=
  sleeps_long_enough initTask_zero run_parent step_dozing (by decide +kernel) run_dozing
    (by decide +kernel)

/-- A task is ready again after at most as many ticks as its time makes and one for each sleeper
that was there before it, unless it is killed. -/
theorem woken_in_time {time : BitVec 32} (hinit : initTask Kernel.zero = .ok k)
    (run : kernelSystem.Run k before k₁)
    (hsleep : kernelSystem.step k₁ (.entry (.sleep time)) k₂)
    (run' : (surviving [k₁.currentRunning]).Run k₂ events k₃)
    (hclock : k₁.timeElapsed.toNat + ticks events < 2 ^ 32)
    (hticks : max 1 (time / Kernel.timeSlice).toNat + (k₁.items .sleep).length ≤ ticks events) :
    ∃ first rest k', events = first ++ rest ∧
      (surviving [k₁.currentRunning]).Run k₂ first k' ∧ k₁.currentRunning ∈ k'.items .ready ∧
      (time / Kernel.timeSlice).toNat ≤ ticks first ∧
      ticks first ≤ max 1 (time / Kernel.timeSlice).toNat + (k₁.items .sleep).length := by
  have hspan : k₁.timeElapsed.toNat + (time / Kernel.timeSlice).toNat < 2 ^ 32 := by omega
  obtain ⟨v, hseen, hasleep⟩ := asleep_of_sleep hinit run hsleep
  obtain ⟨v', hseen', hasleep'⟩ | hwoken := asleep_or_woken hseen hasleep hspan run' hclock
  · obtain ⟨ahead, -, hahead⟩ := hasleep'.sleeping
    omega
  · exact hwoken

theorem woken_in_time_dozing :
    ∃ first rest k', [.entry .timer] ++ [.entry .timer] = first ++ rest ∧
      (surviving [parent.currentRunning]).Run dozing first k' ∧
      parent.currentRunning ∈ k'.items .ready ∧
      ((20 : BitVec 32) / Kernel.timeSlice).toNat ≤ ticks first ∧
      ticks first ≤ max 1 ((20 : BitVec 32) / Kernel.timeSlice).toNat +
        (parent.items .sleep).length :=
  woken_in_time initTask_zero run_parent step_dozing
    (.snoc run_dozing ⟨fun _ _ => id,
      step_after ⟨by decide +kernel, fun _ => trivial, trivial⟩ (by decide +kernel)⟩)
    (by decide +kernel) (by decide +kernel)

end UcasOs.Sched
