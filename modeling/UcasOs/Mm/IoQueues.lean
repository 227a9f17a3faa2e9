import UcasOs.Mm.FrameTable
import UcasOs.Sched.ProcessTable
import UcasOs.Sched.Semaphore

/-!
# The queues while tasks swap

Tasks run, wait for requests or wait for their completion; `swap_out` takes the
task whose page it evicts out of its queue until the page is written.
-/

namespace UcasOs.Mm

open UcasOs.Foundation UcasOs.Libs UcasOs.Sched

/-! ## The queues -/

section

variable {k : Kernel} {L : QueueId → List Pid} {S : Pid → Prop}

/--
The process table while tasks only run, wait for requests and wait for their
completion.  A task in `S` comes back to the ready queue.
-/
structure Queues (k : Kernel) (L : QueueId → List Pid) (S : Pid → Prop) : Prop where
  table : Table k L S
  others : ∀ q, q ≠ .ready → q ≠ .semaphore ioTasks → q ≠ .semaphore ioDone → L q = []
  current : CurrentReady True k L
  named : ∀ p, S p → (k.pcb p).queue = some .ready

/-- The data of the kernel that taking a task out of its queue leaves alone. -/
structure SameData (k k' : Kernel) : Prop where
  pidList : k'.pidList = k.pidList
  semaphores : k'.semaphores = k.semaphores
  current : k'.currentRunning = k.currentRunning

theorem Queues.congr_outside {S' : Pid → Prop} (h : Queues k L S) (hS : ∀ p, S' p ↔ S p) :
    Queues k L S' := by
  have heq : S' = S := funext fun p => propext (hS p)
  rw [heq]
  exact h

theorem Queues.running_not_outside (h : Queues k L S) (hcur : k.currentRunning ∈ L .ready) :
    ¬ S k.currentRunning :=
  fun hS => h.table.outside hS hcur

theorem Queues.waitNil (h : Queues k L S) : WaitNil k L :=
  fun p _ => h.others (.wait p) (by simp) (by simp) (by simp)

theorem Queues.takeOut (h : Queues k L S) (hcur : k.currentRunning ∈ L .ready) {v : Pid}
    (hv : v ∈ L .ready) :
    ∃ k' L', IoState.takeOut k v = .ok k' ∧
      Queues k' L' (fun p => S p ∨ (p = v ∧ v ≠ k.currentRunning)) ∧ SameData k k' ∧
      k.currentRunning ∈ L' .ready ∧ ∀ q, q ≠ .ready → L' q = L q := by
  unfold IoState.takeOut
  by_cases hself : k.currentRunning = v
  · rw [if_neg (by simpa using hself)]
    refine ⟨k, L, rfl, h.congr_outside fun p => ?_, ⟨rfl, rfl, rfl⟩, hcur, fun _ _ => rfl⟩
    simp [hself]
  · rw [if_pos hself, h.table.queue_eq hv]
    obtain ⟨heap, hremove, hholds⟩ := h.table.remove hv
    have hother : ∀ q, q ≠ .ready → leave L .ready v q = L q :=
      fun q hq => Function.update_of_ne hq _ _
    have hcur' : k.currentRunning ∈ leave L .ready v .ready :=
      (h.table.mem_leave hv).mpr ⟨hcur, hself⟩
    have hqueues : Queues { k with heap } (leave L .ready v) (fun p => S p ∨ p = v) := by
      refine ⟨h.table.unlinked hv hholds, ?_, .inr hcur', ?_⟩
      · intro q hq htasks hdone
        rw [hother q hq]
        exact h.others q hq htasks hdone
      · rintro p (hp | rfl)
        · exact h.named p hp
        · exact h.table.queue_eq hv
    refine ⟨_, _, hremove, hqueues.congr_outside fun p => ?_, ⟨rfl, rfl, rfl⟩, hcur', hother⟩
    simp [Ne.symm hself]

theorem Queues.putBack (h : Queues k L S) (hcur : k.currentRunning ∈ L .ready) {v : Pid}
    (hv : v ≠ k.currentRunning → S v) :
    ∃ k' L', IoState.putBack k v = .ok k' ∧ Queues k' L' (fun p => S p ∧ p ≠ v) ∧
      SameData k k' ∧ k.currentRunning ∈ L' .ready ∧ ∀ q, q ≠ .ready → L' q = L q := by
  unfold IoState.putBack
  by_cases hself : k.currentRunning = v
  · rw [if_neg (by simpa using hself)]
    refine ⟨k, L, rfl, h.congr_outside fun p => ?_, ⟨rfl, rfl, rfl⟩, hcur, fun _ _ => rfl⟩
    have hnot := h.running_not_outside hcur
    rw [hself] at hnot
    exact ⟨fun hp => hp.1, fun hp => ⟨hp, fun he => hnot (he ▸ hp)⟩⟩
  · have hS := hv (Ne.symm hself)
    rw [if_pos hself, h.named v hS]
    obtain ⟨heap, hpush, htable⟩ := h.table.push hS .ready
    have hother : ∀ q, q ≠ .ready → join L .ready v q = L q :=
      fun q hq => Function.update_of_ne hq _ _
    have hlive := h.table.live_of_outside hS
    have hcur' : k.currentRunning ∈ join L .ready v .ready := mem_join.mpr (.inl hcur)
    refine ⟨_, _, hpush, ⟨?_, ?_, .inr hcur', fun p hp => h.named p hp.1⟩, ⟨rfl, rfl, rfl⟩,
      hcur', hother⟩
    · exact htable _ rfl rfl (fun _ _ => Pcb.Keeps.refl _) (h.named v hS)
        (h.table.pid_eq (.inl hlive)) (h.table.eligible hlive)
    · intro q hq htasks hdone
      rw [hother q hq]
      exact h.others q hq htasks hdone

theorem Queues.setSemaphore (h : Queues k L S) (s : Nat) (value : Int) :
    Queues (k.setSemaphore s value) L S :=
  ⟨h.table.congr rfl rfl fun _ => Pcb.Keeps.refl _, h.others, h.current, h.named⟩

theorem Queues.initSemaphore (h : Queues k L S) {s : Nat} (hnil : L (.semaphore s) = [])
    (value : Int) : Queues (k.doSemaphoreInit s value) L S := by
  have ht := (h.setSemaphore s (if value < 0 then 0 else value)).table
  have hholds := queueInit_holds ht.holds hnil
  exact ⟨⟨hholds, ht.free, ht.queue_eq, ht.live, ht.covered, ht.outside, ht.live_of_outside,
    ht.pid_eq, ht.eligible⟩, h.others, h.current, h.named⟩

theorem Queues.keeps {k' : Kernel} (h : Queues k L S) (hkeeps : KeepsReady k k') :
    ∀ p, S p → (k'.pcb p).queue = some .ready := by
  intro p hp
  refine hkeeps p ?_ (h.named p hp)
  rintro rfl
  rcases h.current with h0 | hcur
  · have hlive := (h.table.live_of_outside hp).1
    rw [h0.2] at hlive
    exact absurd hlive (by decide)
  · exact h.table.outside hp hcur

/-- The one waiter of a semaphore is made ready. -/
theorem Queues.up (h : Queues k L S) {s : Nat} {p : Pid} (hqueue : L (.semaphore s) = [p])
    (hvalue : (k.semaphores s).value = -1) :
    Meets IsPanic
      (fun k' => ∃ L', Queues k' L' S ∧ k'.pidList = k.pidList ∧
        k'.semaphores = Function.update k.semaphores s ⟨0⟩ ∧
        k'.currentRunning = k.currentRunning ∧ L .ready ⊆ L' .ready ∧
        ∀ q, q ≠ .ready → L' q = Function.update L (.semaphore s) [] q)
      (k.doSemaphoreUp s) := by
  have hother : ∀ q, q ≠ .ready →
      join (leave L (.semaphore s) p) .ready p q = Function.update L (.semaphore s) [] q := by
    intro q hq
    rw [join, Function.update_of_ne hq, leave, hqueue, List.erase_cons_head]
  have hmem : p ∈ L (.semaphore s) := by simp [hqueue]
  refine ((doSemaphoreUp_wakes h.table hqueue hvalue).and (doSemaphoreUp_queue k s)).mono
    fun k' hk' => ?_
  obtain ⟨⟨ht, hcur, hpids, hsem⟩, hkeeps⟩ := hk'
  have hready := (h.table.wakes_ready hmem).ready
  refine ⟨_, ⟨ht, ?_, ?_, h.keeps hkeeps⟩, hpids, hsem, hcur, hready, hother⟩
  · intro q hq htasks hdone
    rw [hother q hq]
    by_cases hs : q = .semaphore s
    · rw [hs, Function.update_self]
    · rw [Function.update_of_ne hs]
      exact h.others q hq htasks hdone
  · rw [CurrentReady, hcur]
    exact h.current.imp_right fun hm => hready hm

/-- The running task waits at a semaphore. -/
theorem Queues.down (h : Queues k L S) (hcur : k.currentRunning ∈ L .ready) {s : Nat}
    (hs : s = ioTasks ∨ s = ioDone) (hnil : L (.semaphore s) = [])
    (hvalue : (k.semaphores s).value = 0) :
    Meets IsPanic
      (fun k' => ∃ L', Queues k' L' S ∧ k'.pidList = k.pidList ∧
        k'.semaphores = Function.update k.semaphores s ⟨-1⟩ ∧
        (∀ p ∈ L .ready, p ≠ k.currentRunning → p ∈ L' .ready) ∧
        ∀ q, q ≠ .ready → L' q = Function.update L (.semaphore s) [k.currentRunning] q)
      (k.doSemaphoreDown s) := by
  have hother : ∀ q, q ≠ .ready →
      join (leave L .ready k.currentRunning) (.semaphore s) k.currentRunning q =
        Function.update L (.semaphore s) [k.currentRunning] q := by
    intro q hq
    by_cases hqs : q = .semaphore s
    · rw [hqs, join, Function.update_self, Function.update_self, leave,
        Function.update_of_ne (by simp), hnil, List.nil_append]
    · rw [join, Function.update_of_ne hqs, Function.update_of_ne hqs, leave,
        Function.update_of_ne hq]
  have hready : join (leave L .ready k.currentRunning) (.semaphore s) k.currentRunning .ready =
      leave L .ready k.currentRunning .ready := Function.update_of_ne (by simp) _ _
  refine ((doSemaphoreDown_blocks h.table hcur (by omega)).and (doSemaphoreDown_queue k s)).mono
    fun k' hk' => ?_
  obtain ⟨⟨ht, hnext, hpids, hsem⟩, hkeeps⟩ := hk'
  rw [hvalue] at hsem
  refine ⟨_, ⟨ht, ?_, .inr (hready ▸ hnext), h.keeps hkeeps⟩, hpids, hsem, ?_, hother⟩
  · intro q hq htasks hdone
    have hqs : q ≠ .semaphore s := by
      rintro rfl
      rcases hs with rfl | rfl
      · exact htasks rfl
      · exact hdone rfl
    rw [hother q hq, Function.update_of_ne hqs]
    exact h.others q hq htasks hdone
  · intro p hp hne
    rw [hready]
    exact (h.table.mem_leave hcur).mpr ⟨hp, hne⟩

theorem Queues.timer (h : Queues k L S) :
    Meets IsPanic
      (fun k' => Queues k' L S ∧ k'.pidList = k.pidList ∧ k'.semaphores = k.semaphores)
      k.irqTimer := by
  have hsleep : L .sleep = [] := h.others .sleep (by simp) (by simp) (by simp)
  have hnone : k.heap.head .sleep = none := by
    rw [(h.table.holds.represents .sleep).head_eq, hsleep]
    rfl
  have ht : Table { k with timeElapsed := k.timeElapsed + 1 } L S :=
    h.table.congr rfl rfl fun _ => Pcb.Keeps.refl _
  unfold Kernel.irqTimer Kernel.checkSleeping
  dsimp only
  rw [hnone, checkSleepingLoop_none, ok_bind]
  refine ((doScheduler_spec ht .ret).and (doScheduler_queue _ .ret)).mono fun k' hk' => ?_
  obtain ⟨⟨ht', hframe, hcur⟩, hkeeps⟩ := hk'
  exact ⟨⟨ht', h.others, .inr hcur, h.keeps hkeeps⟩, hframe.pidList, hframe.semaphores⟩

theorem Queues.spawn (h : Queues k L S) {task : TaskInfo} (htask : 1 ≤ task.priority) :
    Meets IsPanic
      (fun k' => ∃ L', Queues k' L' S ∧ k'.pidList = (slistAlloc k.pidList).2 ∧
        k'.semaphores = k.semaphores ∧ L .ready ⊆ L' .ready ∧ ∀ q, q ≠ .ready → L' q = L q)
      (k.initPcb task) := by
  refine (initPcb_spec h.table h.waitNil htask).mono fun k' hk' => ?_
  obtain ⟨⟨-, hcur, hpids, -⟩, hsem, hqueue, htable⟩ := hk'
  have hnamed : ∀ p, S p → (k'.pcb p).queue = some .ready := by
    intro p hp
    rw [hqueue p (h.table.live_of_outside hp)]
    exact h.named p hp
  obtain htable | ⟨pid, -, htable⟩ := htable
  · refine ⟨L, ⟨htable, h.others, ?_, hnamed⟩, hpids, hsem, List.Subset.refl _, fun _ _ => rfl⟩
    rw [CurrentReady, hcur]
    exact h.current
  · have hother : ∀ q, q ≠ .ready → join L .ready pid q = L q :=
      fun q hq => Function.update_of_ne hq _ _
    have hready : L .ready ⊆ join L .ready pid .ready := fun p hp => mem_join.mpr (.inl hp)
    refine ⟨_, ⟨htable, ?_, ?_, hnamed⟩, hpids, hsem, hready, hother⟩
    · intro q hq htasks hdone
      rw [hother q hq]
      exact h.others q hq htasks hdone
    · rw [CurrentReady, hcur]
      exact h.current.imp_right fun hm => hready hm

end

/-! ## Tasks whose pages are on their way out -/

section

variable {pc : Pid → SwapPc} {p v w : Pid} {new : SwapPc}

/-- Another task evicts a page of `v` and has taken `v` out of its queue. -/
def TakenOut (pc : Pid → SwapPc) (v : Pid) : Prop :=
  ∃ p, (pc p).victim = some v ∧ v ≠ p

/-- No task is taken out twice. -/
def Once (pc : Pid → SwapPc) : Prop :=
  ∀ p p' v, (pc p).victim = some v → v ≠ p → (pc p').victim = some v → v ≠ p' → p = p'

theorem takenOut_update :
    TakenOut (Function.update pc p new) v ↔
      (∃ x, x ≠ p ∧ (pc x).victim = some v ∧ v ≠ x) ∨ (new.victim = some v ∧ v ≠ p) := by
  constructor
  · rintro ⟨x, hx, hne⟩
    by_cases hxp : x = p
    · subst hxp
      rw [Function.update_self] at hx
      exact .inr ⟨hx, hne⟩
    · rw [Function.update_of_ne hxp] at hx
      exact .inl ⟨x, hxp, hx, hne⟩
  · rintro (⟨x, hxp, hx, hne⟩ | ⟨hx, hne⟩)
    · exact ⟨x, by rwa [Function.update_of_ne hxp], hne⟩
    · exact ⟨p, by rwa [Function.update_self], hne⟩

/-- A task begins to evict a page. -/
theorem takenOut_begin (hold : (pc p).victim = none) :
    TakenOut (Function.update pc p new) v ↔
      TakenOut pc v ∨ (new.victim = some v ∧ v ≠ p) := by
  rw [takenOut_update]
  refine or_congr ⟨fun ⟨x, _, hx⟩ => ⟨x, hx⟩, fun ⟨x, hx⟩ => ⟨x, ?_, hx⟩⟩ Iff.rfl
  rintro rfl
  rw [hold] at hx
  cases hx.1

theorem Once.begin (h : Once pc) (hold : (pc p).victim = none)
    (hnew : ∀ v, new.victim = some v → ¬ TakenOut pc v) : Once (Function.update pc p new) := by
  have hself : ∀ x v, (Function.update pc p new x).victim = some v → v ≠ x →
      (x = p ∧ new.victim = some v) ∨ (pc x).victim = some v := by
    intro x v hx _
    by_cases hxp : x = p
    · subst hxp
      rw [Function.update_self] at hx
      exact .inl ⟨rfl, hx⟩
    · rw [Function.update_of_ne hxp] at hx
      exact .inr hx
  intro x x' v hx hne hx' hne'
  rcases hself x v hx hne with ⟨rfl, hv⟩ | hv <;> rcases hself x' v hx' hne' with ⟨rfl, hv'⟩ | hv'
  · rfl
  · exact absurd ⟨x', hv', hne'⟩ (hnew v hv)
  · exact absurd ⟨x, hv, hne⟩ (hnew v hv')
  · exact h x x' v hv hne hv' hne'

/-- A task is done with an eviction. -/
theorem takenOut_end (h : Once pc) (hold : (pc p).victim = some w) (hnew : new.victim = none)
    (hself : ¬ TakenOut pc p) :
    TakenOut (Function.update pc p new) v ↔ TakenOut pc v ∧ v ≠ w := by
  rw [takenOut_update, hnew]
  constructor
  · rintro (⟨x, hxp, hx, hne⟩ | hv)
    · refine ⟨⟨x, hx, hne⟩, ?_⟩
      rintro rfl
      by_cases hvp : v = p
      · exact hself (hvp ▸ ⟨x, hx, hne⟩)
      · exact hxp (h x p v hx hne hold hvp)
    · cases hv.1
  · rintro ⟨⟨x, hx, hne⟩, hvw⟩
    refine .inl ⟨x, ?_, hx, hne⟩
    rintro rfl
    rw [hold, Option.some.injEq] at hx
    exact hvw hx.symm

theorem takenOut_drop (hnew : new.victim = none) (hv : TakenOut (Function.update pc p new) v) :
    TakenOut pc v := by
  rw [takenOut_update, hnew] at hv
  obtain ⟨x, -, hx⟩ | ⟨hv, -⟩ := hv
  · exact ⟨x, hx⟩
  · cases hv

theorem Once.end (h : Once pc) (hnew : new.victim = none) : Once (Function.update pc p new) := by
  have hself : ∀ x v, (Function.update pc p new x).victim = some v → (pc x).victim = some v := by
    intro x v hx
    by_cases hxp : x = p
    · subst hxp
      rw [Function.update_self, hnew] at hx
      cases hx
    · rwa [Function.update_of_ne hxp] at hx
  intro x x' v hx hne hx' hne'
  exact h x x' v (hself x v hx) hne (hself x' v hx') hne'

end

end UcasOs.Mm
