import Mathlib.Data.List.Perm.Subperm
import UcasOs.Sched.Sync

/-!
# The invariant of the process table

`Table k L S`: the queues of `k` hold the lists `L`; every allocated pid is in
exactly one of them, the one its PCB names, unless it is in the set `S` of
tasks taken out of their queue for the moment.  Each kernel function is
verified against `Table` once, with the lists it leaves.
-/

namespace UcasOs.Sched

open UcasOs.Foundation UcasOs.Libs

/-- The only way in which a verified kernel function may stop. -/
def IsPanic : Fault → Prop
  | .panic _ => True
  | _ => False

def Kernel.Live (k : Kernel) (p : Pid) : Prop := Allocated k.pidList maxTaskNum p

instance (k : Kernel) (p : Pid) : Decidable (k.Live p) :=
  inferInstanceAs (Decidable (_ ∧ _))

structure Pcb.Eligible (b : Pcb) : Prop where
  priority : 1 ≤ b.priority
  schedulerPriority : 1 ≤ b.schedulerPriority
  waitTime : 0 ≤ b.waitTime

structure Table (k : Kernel) (L : QueueId → List Pid) (S : Pid → Prop) : Prop where
  holds : k.heap.Holds L
  free : ∃ free, Implements k.pidList maxTaskNum free
  queue_eq : ∀ {q p}, p ∈ L q → (k.pcb p).queue = some q
  live : ∀ {q p}, p ∈ L q → k.Live p
  covered : ∀ {p}, k.Live p → ¬ S p → ∃ q, p ∈ L q
  outside : ∀ {q p}, S p → p ∉ L q
  live_of_outside : ∀ {p}, S p → k.Live p
  pid_eq : ∀ {p}, k.Live p ∨ p = 0 → (k.pcb p).pid = p
  eligible : ∀ {p}, k.Live p → (k.pcb p).Eligible

/-- The wait queue of a pid that is not allocated is empty. -/
def WaitNil (k : Kernel) (L : QueueId → List Pid) : Prop :=
  ∀ p, ¬ k.Live p → L (.wait p) = []

/-- The running task is in the ready queue, or is the boot task if it may still run. -/
def CurrentReady (boot : Prop) (k : Kernel) (L : QueueId → List Pid) : Prop :=
  (boot ∧ k.currentRunning = 0) ∨ k.currentRunning ∈ L .ready

/-- From `L` to `L'` tasks were only made ready. -/
structure Wakes (L L' : QueueId → List Pid) : Prop where
  ready : L .ready ⊆ L' .ready
  other : ∀ q, q ≠ .ready → L' q ⊆ L q

theorem Wakes.refl (L : QueueId → List Pid) : Wakes L L :=
  ⟨List.Subset.refl _, fun _ _ => List.Subset.refl _⟩

theorem Wakes.trans {L L' L'' : QueueId → List Pid} (h : Wakes L L') (h' : Wakes L' L'') :
    Wakes L L'' :=
  ⟨List.Subset.trans h.ready h'.ready,
    fun q hq => List.Subset.trans (h'.other q hq) (h.other q hq)⟩

/-- What an update of a PCB that is not about queues leaves alone. -/
structure Pcb.Keeps (b b' : Pcb) : Prop where
  queue : b'.queue = b.queue
  pid : b'.pid = b.pid
  eligible : b.Eligible → b'.Eligible

theorem Pcb.Keeps.refl (b : Pcb) : b.Keeps b := ⟨rfl, rfl, id⟩

theorem Pcb.Keeps.trans {b b' b'' : Pcb} (h : b.Keeps b') (h' : b'.Keeps b'') :
    b.Keeps b'' :=
  ⟨h'.queue.trans h.queue, h'.pid.trans h.pid, h'.eligible ∘ h.eligible⟩

section

variable {k k' : Kernel} {L : QueueId → List Pid} {S : Pid → Prop} {p : Pid} {q : QueueId}

theorem Table.congr (h : Table k L S) (hheap : k'.heap = k.heap)
    (hpids : k'.pidList = k.pidList) (hpcb : ∀ p, (k.pcb p).Keeps (k'.pcb p)) :
    Table k' L S := by
  have hlive : ∀ p, k'.Live p ↔ k.Live p := fun p => by rw [Kernel.Live, Kernel.Live, hpids]
  refine ⟨?_, ?_, ?_, ?_, ?_, h.outside, ?_, ?_, ?_⟩
  · rw [hheap]; exact h.holds
  · rw [hpids]; exact h.free
  · intro q p hp
    rw [(hpcb p).queue]
    exact h.queue_eq hp
  · intro q p hp
    exact (hlive p).mpr (h.live hp)
  · intro p hp
    exact h.covered ((hlive p).mp hp)
  · intro p hp
    exact (hlive p).mpr (h.live_of_outside hp)
  · intro p hp
    rw [(hpcb p).pid]
    exact h.pid_eq (hp.imp_left (hlive p).mp)
  · intro p hp
    exact (hpcb p).eligible (h.eligible ((hlive p).mp hp))

theorem Table.modifyPcb (h : Table k L S) {f : Pcb → Pcb} (hf : (k.pcb p).Keeps (f (k.pcb p))) :
    Table (k.modifyPcb p f) L S := by
  refine h.congr rfl rfl fun p' => ?_
  by_cases hp : p' = p
  · subst hp
    simpa [Kernel.modifyPcb] using hf
  · simpa [Kernel.modifyPcb, hp] using Pcb.Keeps.refl _

theorem Table.length_le (h : Table k L S) (q : QueueId) : (L q).length ≤ maxTaskNum := by
  have hsub : L q ⊆ List.range maxTaskNum := by
    intro p hp
    exact List.mem_range.mpr (h.live hp).2.1
  have := ((h.holds.represents q).nodup.subperm hsub).length_le
  simpa using this

/-! ## Leaving and joining a queue -/

/-- The lists after `p` has left `q`. -/
def leave (L : QueueId → List Pid) (q : QueueId) (p : Pid) : QueueId → List Pid :=
  Function.update L q ((L q).erase p)

/-- The lists after `p` has joined `q`. -/
def join (L : QueueId → List Pid) (q : QueueId) (p : Pid) : QueueId → List Pid :=
  Function.update L q (L q ++ [p])

theorem Table.mem_leave (h : Table k L S) (hp : p ∈ L q) {q' : QueueId} {x : Pid} :
    x ∈ leave L q p q' ↔ x ∈ L q' ∧ x ≠ p := by
  unfold leave
  by_cases hq : q' = q
  · subst hq
    rw [Function.update_self, (h.holds.represents q').nodup.mem_erase_iff, and_comm]
  · rw [Function.update_of_ne hq]
    constructor
    · intro hx
      refine ⟨hx, ?_⟩
      rintro rfl
      exact hq (h.holds.apart hx hp)
    · exact fun hx => hx.1

theorem mem_join {q' : QueueId} {x : Pid} :
    x ∈ join L q p q' ↔ x ∈ L q' ∨ (q' = q ∧ x = p) := by
  unfold join
  by_cases hq : q' = q
  · subst hq
    simp
  · simp [hq]

/-- A heap from which `p` has been unlinked, with the rest of the state unchanged. -/
theorem Table.unlinked (h : Table k L S) (hp : p ∈ L q) {heap : LinkHeap Pid QueueId}
    (hholds : heap.Holds (leave L q p)) :
    Table { k with heap } (leave L q p) (fun x => S x ∨ x = p) := by
  refine ⟨hholds, h.free, ?_, ?_, ?_, ?_, ?_, h.pid_eq, h.eligible⟩
  · exact fun hx => h.queue_eq ((h.mem_leave hp).mp hx).1
  · exact fun hx => h.live ((h.mem_leave hp).mp hx).1
  · intro x hx hS
    rw [not_or] at hS
    obtain ⟨q', hq'⟩ := h.covered hx hS.1
    exact ⟨q', (h.mem_leave hp).mpr ⟨hq', hS.2⟩⟩
  · rintro q' x (hx | rfl) hx'
    · exact h.outside hx ((h.mem_leave hp).mp hx').1
    · exact ((h.mem_leave hp).mp hx').2 rfl
  · rintro x (hx | rfl)
    · exact h.live_of_outside hx
    · exact h.live hp

theorem Table.remove (h : Table k L S) (hp : p ∈ L q) :
    ∃ heap, k.remove q p = .ok { k with heap } ∧ heap.Holds (leave L q p) := by
  obtain ⟨l₁, l₂, hsplit⟩ := List.append_of_mem hp
  obtain ⟨heap, hremove, hholds⟩ := queueRemove_holds h.holds hsplit
  exact ⟨heap, by rw [Kernel.remove, hremove]; rfl, hholds⟩

/-- Joining the queue `q`; the rest of the state after it is up to the caller. -/
theorem Table.push (h : Table k L S) (hS : S p) (q : QueueId) :
    ∃ heap, k.push q p = .ok { k with heap } ∧
      ∀ k' : Kernel, k'.heap = heap → k'.pidList = k.pidList →
        (∀ x, x ≠ p → (k.pcb x).Keeps (k'.pcb x)) →
        (k'.pcb p).queue = some q → (k'.pcb p).pid = p → (k'.pcb p).Eligible →
        Table k' (join L q p) (fun x => S x ∧ x ≠ p) := by
  obtain ⟨heap, hpush, hholds⟩ := queuePush_holds h.holds (fun q' => h.outside hS) (q := q)
  refine ⟨heap, by rw [Kernel.push, hpush]; rfl, ?_⟩
  intro k' hheap hpids hpcb hqueue hpid helig
  have hlive : ∀ x, k'.Live x ↔ k.Live x := fun x => by rw [Kernel.Live, Kernel.Live, hpids]
  have hnp : ∀ {q' x}, x ∈ L q' → x ≠ p := by
    rintro q' x hx rfl
    exact h.outside hS hx
  refine ⟨hheap ▸ hholds, hpids ▸ h.free, ?_, ?_, ?_, ?_, ?_, ?_, ?_⟩
  · intro q' x hx
    rcases mem_join.mp hx with hx | ⟨rfl, rfl⟩
    · rw [(hpcb x (hnp hx)).queue]
      exact h.queue_eq hx
    · exact hqueue
  · intro q' x hx
    rcases mem_join.mp hx with hx | ⟨rfl, rfl⟩
    · exact (hlive x).mpr (h.live hx)
    · exact (hlive x).mpr (h.live_of_outside hS)
  · intro x hx hSx
    by_cases hxp : x = p
    · exact ⟨q, mem_join.mpr (.inr ⟨rfl, hxp⟩)⟩
    · have : ¬ S x := fun hs => hSx ⟨hs, hxp⟩
      obtain ⟨q', hq'⟩ := h.covered ((hlive x).mp hx) this
      exact ⟨q', mem_join.mpr (.inl hq')⟩
  · rintro q' x ⟨hSx, hxp⟩ hx
    rcases mem_join.mp hx with hx | ⟨-, rfl⟩
    · exact h.outside hSx hx
    · exact hxp rfl
  · intro x hx
    exact (hlive x).mpr (h.live_of_outside hx.1)
  · intro x hx
    by_cases hxp : x = p
    · rw [hxp]; exact hpid
    · rw [(hpcb x hxp).pid]
      exact h.pid_eq (hx.imp_left (hlive x).mp)
  · intro x hx
    by_cases hxp : x = p
    · rw [hxp]; exact helig
    · exact (hpcb x hxp).eligible (h.eligible ((hlive x).mp hx))

/-- Leaving `q` for `q'`, with the unlinking already done. -/
theorem Table.relinked (h : Table k L S) (hp : p ∈ L q) {heap : LinkHeap Pid QueueId}
    (hholds : heap.Holds (leave L q p)) (q' : QueueId) :
    ∃ heap', { k with heap }.push q' p = .ok { k with heap := heap' } ∧
      ∀ k' : Kernel, k'.heap = heap' → k'.pidList = k.pidList →
        (∀ x, x ≠ p → (k.pcb x).Keeps (k'.pcb x)) →
        (k'.pcb p).queue = some q' → (k'.pcb p).pid = p → (k'.pcb p).Eligible →
        Table k' (join (leave L q p) q' p) S := by
  have hS : (fun x => (S x ∨ x = p) ∧ x ≠ p) = S := by
    funext x
    apply propext
    constructor
    · rintro ⟨hx | hx, hne⟩
      · exact hx
      · exact absurd hx hne
    · intro hx
      refine ⟨.inl hx, ?_⟩
      rintro rfl
      exact h.outside hx hp
  obtain ⟨heap', hpush, htable⟩ := (h.unlinked hp hholds).push (.inr rfl) q'
  rw [hS] at htable
  exact ⟨heap', hpush, htable⟩

theorem Table.wakes_ready (h : Table k L S) (hp : p ∈ L q) :
    Wakes L (join (leave L q p) .ready p) := by
  constructor
  · intro x hx
    by_cases hxp : x = p
    · exact mem_join.mpr (.inr ⟨rfl, hxp⟩)
    · exact mem_join.mpr (.inl ((h.mem_leave hp).mpr ⟨hx, hxp⟩))
  · intro q' hq' x hx
    rcases mem_join.mp hx with hx | ⟨rfl, -⟩
    · exact ((h.mem_leave hp).mp hx).1
    · exact absurd rfl hq'

end

end UcasOs.Sched
