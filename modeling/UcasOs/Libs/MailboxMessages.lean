import UcasOs.Libs.Mailbox
import UcasOs.Sched.Conditions

/-!
# Messages in the stream of a mailbox

`mbox_send` puts a message into the ring byte by byte.  The library's lock keeps
other senders out, but a send that finds the ring full gives the lock up until
it is woken.  So what is put between two waits stays together, and a message as
a whole need not.
-/

namespace UcasOs.Libs

open UcasOs.Foundation UcasOs.Sched

/-! ## Groups in a list -/

section

variable {α : Type} {l : List α} {x : α}

/-- Equal elements stand next to each other. -/
def Grouped (l : List α) : Prop :=
  ∀ (i j m : Nat) (a : α), i < j → j < m → l[i]? = some a → l[m]? = some a → l[j]? = some a

theorem Grouped.nil : Grouped ([] : List α) := by
  intro i j m a _ _ hi
  cases hi

/-- A list grows at its end by a new element or by the one that is last. -/
theorem Grouped.concat (h : Grouped l) (hlast : x ∈ l → l.getLast? = some x) :
    Grouped (l ++ [x]) := by
  intro i j m a hij hjm hi hm
  obtain ⟨hm_lt, -⟩ := List.getElem?_eq_some_iff.mp hm
  rw [List.length_append, List.length_singleton] at hm_lt
  rw [List.getElem?_append_left (by omega)] at hi ⊢
  by_cases hend : m < l.length
  · rw [List.getElem?_append_left hend] at hm
    exact h i j m a hij hjm hi hm
  · have hm_eq : m = l.length := by omega
    subst hm_eq
    rw [List.getElem?_concat_length, Option.some.injEq] at hm
    subst hm
    have hx := hlast (List.mem_of_getElem? hi)
    rw [List.getLast?_eq_getElem?] at hx
    -- The group of the last element reaches the end.
    rcases Nat.lt_or_ge j (l.length - 1) with hj | hj
    · exact h i j _ _ hij hj hi hx
    · rw [show j = l.length - 1 by omega]
      exact hx

end

/-! ## The library's lock -/

/--
What the users of the library keep to: `mbox_init` is not called again, and no
mailbox is opened anew while tasks still wait in it.
-/
def MboxEvent.Proper (s : MboxState) : MboxEvent → Prop
  | .entry (.mutexInit lock) => lock ≠ mboxLock
  | .advance =>
      match s.pc s.kernel.currentRunning with
      | .opening name =>
          s.findName name = none → ∀ i ∈ s.findInvalid,
            queueIsEmpty s.kernel.heap (.condition (emptyCondition i)) = true ∧
              queueIsEmpty s.kernel.heap (.condition (fullCondition i)) = true
      | _ => True
  | _ => True

instance (s : MboxState) (event : MboxEvent) : Decidable (event.Proper s) := by
  unfold MboxEvent.Proper
  split
  · infer_instance
  · split <;> infer_instance
  · infer_instance

/-- The tasks inside the library hold its lock, or wait to get it. -/
structure Exclusive (k : Kernel) (busy : Pid → Prop) (v : View) : Prop where
  seen : Seen noTask True k v
  guarded : v.Guarded
  inside : ∀ p, busy p → v.Inside mboxLock p

variable {k k' : Kernel} {busy : Pid → Prop} {v v' : View} {e : Entry} {event : Event}

theorem Exclusive.mono {busy' : Pid → Prop} (h : Exclusive k busy v)
    (hbusy : ∀ p, busy' p → busy p) : Exclusive k busy' v :=
  ⟨h.seen, h.guarded, fun p hp => h.inside p (hbusy p hp)⟩

theorem Exclusive.insert (h : Exclusive k busy v) {p : Pid} (hp : v.Inside mboxLock p) :
    Exclusive k (fun x => x = p ∨ busy x) v := by
  refine ⟨h.seen, h.guarded, ?_⟩
  rintro x (rfl | hx)
  · exact hp
  · exact h.inside x hx

theorem Exclusive.live (h : Exclusive k busy v) {p : Pid} (hp : busy p) : k.Live p :=
  (h.seen.live_iff p).mp (h.inside p hp).live

theorem Exclusive.ne_zero (h : Exclusive k busy v) {p : Pid} (hp : busy p) : p ≠ 0 :=
  Nat.one_le_iff_ne_zero.mp (h.live hp).1

theorem Exclusive.owner (h : Exclusive k busy v) {p : Pid} (hp : busy p) (hkont : k.kont p = .ret) :
    (k.mutexes mboxLock).owner = p := by
  rw [← h.seen.kont_eq] at hkont
  rw [← h.seen.mutexes_eq]
  rcases (h.inside p hp).kont with hk | hk | hk
  · rw [hkont] at hk
    cases hk
  · rw [hkont] at hk
    cases hk
  · rw [hk.2]

/-- Only one task is inside the library with nothing to wait for. -/
theorem Exclusive.unique (h : Exclusive k busy v) {p p' : Pid} (hp : busy p) (hp' : busy p')
    (hkont : k.kont p = .ret) (hkont' : k.kont p' = .ret) : p = p' :=
  (h.owner hp hkont).symm.trans (h.owner hp' hkont')

theorem Exclusive.spares (h : Exclusive k busy v) (hstep : kernelSystem.step k event k') {p : Pid}
    (hlive : k'.Live p) : ¬ event.Kills v p := by
  obtain ⟨v', hseen, hmoves⟩ := h.seen.step hstep
  intro hkills
  exact (View.Does.kills hmoves.does hkills).dead ((hseen.live_iff p).mpr hlive)

/-- A step of the kernel, for all tasks in the library but the running one. -/
theorem Exclusive.step (h : Exclusive k busy v) (hstep : kernelSystem.step k event k')
    (hinit : event ≠ .entry (.mutexInit mboxLock)) (hspares : ∀ p, busy p → ¬ event.Kills v p) :
    ∃ v', Exclusive k' (fun p => busy p ∧ p ≠ k.currentRunning) v' ∧ v.Moves event v' ∧
      ∀ p, busy p → p ≠ k.currentRunning → k'.kont p = k.kont p := by
  obtain ⟨v', hseen, hmoves⟩ := h.seen.step hstep
  have hothers : ∀ p, busy p → p ≠ k.currentRunning →
      v'.Inside mboxLock p ∧ v'.kont p = v.kont p := fun p hp hcur =>
    (h.inside p hp).bystander hmoves (by rwa [h.seen.current_eq]) (hspares p hp) hinit
  refine ⟨v', ⟨hseen, h.guarded.moves hmoves, fun p hp => (hothers p hp.1 hp.2).1⟩, hmoves,
    fun p hp hcur => ?_⟩
  rw [← hseen.kont_eq, ← h.seen.kont_eq]
  exact (hothers p hp hcur).2

/-- The running task stays in the library, or comes into it. -/
theorem Exclusive.keep (h : Exclusive k' (fun p => busy p ∧ p ≠ k.currentRunning) v') {p : Pid}
    (hcur : p = k.currentRunning) (hinside : v'.Inside mboxLock p) : Exclusive k' busy v' := by
  refine (h.insert hinside).mono fun x hx => ?_
  by_cases hxp : x = p
  · exact .inl hxp
  · exact .inr ⟨hx, fun hx' => hxp (hx'.trans hcur.symm)⟩

/-- The running task in the library goes on, or an interrupt comes. -/
theorem Exclusive.passing (h : Exclusive k busy v) (hbusy : busy k.currentRunning)
    (hstep : kernelSystem.step k (.entry e) k') (he : e.Passing) :
    ∃ v', Exclusive k' busy v' ∧ ∀ p, busy p → k'.kont p = k.kont p := by
  have hquiet : Event.entry e ≠ .entry (.mutexInit mboxLock) ∧
      ∀ p, ¬ (Event.entry e).Kills v p := by
    cases e with
    | timer | mac | conditionSignal | conditionInit => exact ⟨by simp, fun _ hk => hk⟩
    | _ => exact he.elim
  obtain ⟨v', h', hmoves, hkont⟩ := h.step hstep hquiet.1 fun p _ => hquiet.2 p
  have hcur := h.seen.current_eq
  obtain ⟨hinside, hret⟩ := (hcur ▸ h.inside _ hbusy).passing hmoves he
  refine ⟨v', h'.keep hcur hinside, fun p hp => ?_⟩
  by_cases hpcur : p = k.currentRunning
  · rw [hpcur, ← h'.seen.kont_eq, ← hcur, hret, hcur]
    exact hstep.1.1.symm
  · exact hkont p hp hpcur

theorem Exclusive.enabled (h : Exclusive k busy v) (hbusy : busy k.currentRunning)
    (hret : k.kont k.currentRunning = .ret) (hallowed : e.Allowed k) :
    (Event.entry e).Enabled k :=
  ⟨hret, fun hzero => absurd hzero (h.ne_zero hbusy), hallowed⟩

/-! ## The record of the calls -/

/-- A byte in the stream, with the call that put it and the number of waits of the call before. -/
structure Put where
  call : Nat
  burst : Nat
  byte : UInt8
  deriving DecidableEq

def Put.stamp (x : Put) : Nat × Nat := (x.call, x.burst)

structure Journal where
  call : Pid → Nat
  burst : Pid → Nat
  calls : Nat
  stream : List Put

namespace Journal

def empty : Journal := ⟨fun _ => 0, fun _ => 0, 0, []⟩

def stamp (l : Journal) (p : Pid) : Nat × Nat := (l.call p, l.burst p)

def stamps (l : Journal) : List (Nat × Nat) := l.stream.map Put.stamp

def begin (l : Journal) (p : Pid) : Journal :=
  { l with
    call := Function.update l.call p l.calls
    burst := Function.update l.burst p 0
    calls := l.calls + 1 }

def wait (l : Journal) (p : Pid) : Journal :=
  { l with burst := Function.update l.burst p (l.burst p + 1) }

def put (l : Journal) (p : Pid) (byte : UInt8) : Journal :=
  { l with stream := l.stream ++ [⟨l.call p, l.burst p, byte⟩] }

/-- The stream of `box` is recorded, and for every task its call and the waits in it. -/
def record (box : Nat) (s : MboxState) (l : Journal) : MboxEvent → Journal
  | .call _ => l.begin s.kernel.currentRunning
  | .advance =>
      match s.pc s.kernel.currentRunning with
      | .sending i (byte :: _) =>
          if (s.mboxs i).isFull then l.wait s.kernel.currentRunning
          else if i = box then l.put s.kernel.currentRunning byte
          else l
      | .receiving i (_ + 1) _ =>
          if (s.mboxs i).isEmpty then l.wait s.kernel.currentRunning else l
      | _ => l
  | _ => l

end Journal

def journalSystem (box : Nat) : Lts (MboxState × Journal) MboxEvent where
  step a event b := mboxSystem.step a.1 event b.1 ∧ b.2 = a.2.record box a.1 event

/-- A task is inside the library. -/
def MboxState.Busy (s : MboxState) (p : Pid) : Prop := s.pc p ≠ .idle

structure Recorded (box : Nat) (s : MboxState) (l : Journal) : Prop where
  exclusive : ∃ v, Exclusive s.kernel s.Busy v
  grouped : Grouped l.stamps
  past : ∀ x ∈ l.stamps, x.1 < l.calls
  call_lt : ∀ p, s.Busy p → l.call p < l.calls
  apart : ∀ p p', s.Busy p → s.Busy p' → l.call p = l.call p' → p = p'
  bursts : ∀ p, s.Busy p → ∀ x ∈ l.stamps, x.1 = l.call p → x.2 ≤ l.burst p
  /-- A task whose last byte is in the stream still has the lock, and no byte has followed. -/
  last : ∀ p, s.Busy p → l.stamp p ∈ l.stamps →
    s.kernel.kont p = .ret ∧ l.stamps.getLast? = some (l.stamp p)
  bytes : ∃ earlier, l.stream.map Put.byte = earlier ++ s.put box

variable {box : Nat} {s s' : MboxState} {l : Journal}

/-- A step that puts nothing into the box and in which no task in the library waits. -/
theorem Recorded.keep (h : Recorded box s l) (hexclusive : ∃ v, Exclusive s'.kernel s'.Busy v)
    (hbusy : ∀ p, s'.Busy p → s.Busy p)
    (hkont : ∀ p, s'.Busy p → s.kernel.kont p = .ret → s'.kernel.kont p = .ret)
    (hput : s'.put box = s.put box ∨ s'.put box = []) : Recorded box s' l := by
  refine ⟨hexclusive, h.grouped, h.past, fun p hp => h.call_lt p (hbusy p hp),
    fun p p' hp hp' => h.apart p p' (hbusy p hp) (hbusy p' hp'),
    fun p hp => h.bursts p (hbusy p hp), fun p hp hmem => ?_, ?_⟩
  · obtain ⟨hret, hlast⟩ := h.last p (hbusy p hp) hmem
    exact ⟨hkont p hp hret, hlast⟩
  · obtain ⟨earlier, hbytes⟩ := h.bytes
    rcases hput with hput | hput
    · exact ⟨earlier, by rw [hput, hbytes]⟩
    · exact ⟨l.stream.map Put.byte, by rw [hput, List.append_nil]⟩

/-- A new call has a number of its own. -/
theorem Recorded.begin (h : Recorded box s l) {p : Pid} (hexclusive : ∃ v, Exclusive s'.kernel s'.Busy v)
    (hbusy : ∀ x, x ≠ p → s'.Busy x → s.Busy x)
    (hkont : ∀ x, x ≠ p → s'.Busy x → s'.kernel.kont x = s.kernel.kont x)
    (hput : s'.put box = s.put box) : Recorded box s' (l.begin p) := by
  have hcall : (l.begin p).call p = l.calls := Function.update_self _ _ _
  have hcall' : ∀ x, x ≠ p → (l.begin p).call x = l.call x := fun x hx =>
    Function.update_of_ne hx _ _
  have hburst' : ∀ x, x ≠ p → (l.begin p).burst x = l.burst x := fun x hx =>
    Function.update_of_ne hx _ _
  refine ⟨hexclusive, h.grouped, fun x hx => Nat.lt_succ_of_lt (h.past x hx), ?_, ?_, ?_, ?_, ?_⟩
  · intro x hx
    by_cases hxp : x = p
    · rw [hxp, hcall]
      exact Nat.lt_succ_self _
    · rw [hcall' x hxp]
      exact Nat.lt_succ_of_lt (h.call_lt x (hbusy x hxp hx))
  · intro x y hx hy heq
    by_cases hxp : x = p <;> by_cases hyp : y = p
    · rw [hxp, hyp]
    · rw [hxp, hcall, hcall' y hyp] at heq
      have := h.call_lt y (hbusy y hyp hy)
      omega
    · rw [hyp, hcall, hcall' x hxp] at heq
      have := h.call_lt x (hbusy x hxp hx)
      omega
    · rw [hcall' x hxp, hcall' y hyp] at heq
      exact h.apart x y (hbusy x hxp hx) (hbusy y hyp hy) heq
  · intro x hx y hy heq
    by_cases hxp : x = p
    · rw [hxp, hcall] at heq
      have := h.past y hy
      omega
    · rw [hcall' x hxp] at heq
      rw [hburst' x hxp]
      exact h.bursts x (hbusy x hxp hx) y hy heq
  · intro x hx hmem
    by_cases hxp : x = p
    · have := h.past _ hmem
      rw [hxp] at this
      simp only [Journal.stamp, hcall, lt_irrefl] at this
    · have hstamp : (l.begin p).stamp x = l.stamp x := by
        rw [Journal.stamp, hcall' x hxp, hburst' x hxp]
        rfl
      rw [hstamp] at hmem ⊢
      rw [hkont x hxp hx]
      exact h.last x (hbusy x hxp hx) hmem
  · rw [hput]
    exact h.bytes

/-- After a wait, a call has put nothing yet. -/
theorem Recorded.wait (h : Recorded box s l) {p : Pid} (hp : s.Busy p)
    (hexclusive : ∃ v, Exclusive s'.kernel s'.Busy v) (hbusy : ∀ x, s'.Busy x → s.Busy x)
    (hkont : ∀ x, x ≠ p → s'.Busy x → s'.kernel.kont x = s.kernel.kont x)
    (hput : s'.put box = s.put box) : Recorded box s' (l.wait p) := by
  have hburst : (l.wait p).burst p = l.burst p + 1 := Function.update_self _ _ _
  have hburst' : ∀ x, x ≠ p → (l.wait p).burst x = l.burst x := fun x hx =>
    Function.update_of_ne hx _ _
  refine ⟨hexclusive, h.grouped, h.past, fun x hx => h.call_lt x (hbusy x hx),
    fun x y hx hy => h.apart x y (hbusy x hx) (hbusy y hy), ?_, ?_, ?_⟩
  · intro x hx y hy heq
    have hle := h.bursts x (hbusy x hx) y hy heq
    by_cases hxp : x = p
    · rw [hxp] at hle ⊢
      rw [hburst]
      omega
    · rwa [hburst' x hxp]
  · intro x hx hmem
    by_cases hxp : x = p
    · subst hxp
      have hle := h.bursts x hp _ hmem rfl
      simp only [Journal.stamp, hburst] at hle
      omega
    · have hstamp : (l.wait p).stamp x = l.stamp x := by
        rw [Journal.stamp, hburst' x hxp]
        rfl
      rw [hstamp] at hmem ⊢
      rw [hkont x hxp hx]
      exact h.last x (hbusy x hx) hmem
  · rw [hput]
    exact h.bytes

/-- The task with the lock puts a byte. -/
theorem Recorded.put (h : Recorded box s l) {p : Pid} {byte : UInt8} (hp : s.Busy p)
    (hret : s.kernel.kont p = .ret) (hexclusive : ∃ v, Exclusive s'.kernel s'.Busy v)
    (hbusy : ∀ x, s'.Busy x → s.Busy x) (hret' : s'.kernel.kont p = .ret)
    (hput : s'.put box = s.put box ++ [byte]) : Recorded box s' (l.put p byte) := by
  have hstamps : (l.put p byte).stamps = l.stamps ++ [l.stamp p] := by
    simp [Journal.stamps, Journal.put, Put.stamp, Journal.stamp]
  obtain ⟨v, hv⟩ := h.exclusive
  -- Another task with a byte in the stream would have the lock too.
  have hothers : ∀ x, s.Busy x → l.stamp x ∈ l.stamps → x = p := fun x hx hmem =>
    hv.unique hx hp (h.last x hx hmem).1 hret
  refine ⟨hexclusive, ?_, ?_, fun x hx => h.call_lt x (hbusy x hx),
    fun x y hx hy => h.apart x y (hbusy x hx) (hbusy y hy), ?_, ?_, ?_⟩
  · rw [hstamps]
    exact h.grouped.concat fun hmem => (h.last p hp hmem).2
  · intro x hx
    rw [hstamps, List.mem_append, List.mem_singleton] at hx
    rcases hx with hx | rfl
    · exact h.past x hx
    · exact h.call_lt p hp
  · intro x hx y hy heq
    rw [hstamps, List.mem_append, List.mem_singleton] at hy
    rcases hy with hy | rfl
    · exact h.bursts x (hbusy x hx) y hy heq
    · obtain rfl := h.apart p x hp (hbusy x hx) heq
      exact le_refl _
  · intro x hx hmem
    rw [hstamps, List.mem_append, List.mem_singleton] at hmem
    have hxp : x = p := by
      rcases hmem with hmem | hmem
      · exact hothers x (hbusy x hx) hmem
      · exact h.apart x p (hbusy x hx) hp (congrArg Prod.fst hmem)
    subst hxp
    exact ⟨hret', by rw [hstamps]; exact List.getLast?_concat⟩
  · obtain ⟨earlier, hbytes⟩ := h.bytes
    refine ⟨earlier, ?_⟩
    rw [hput, ← List.append_assoc, ← hbytes]
    simp [Journal.put]

/-! ## Steps -/

theorem setPc_busy (kernel : Kernel) {pc : MboxPc} (hbusy : s.Busy s.kernel.currentRunning)
    (p : Pid) (hp : (s.setPc kernel pc).Busy p) : s.Busy p := by
  by_cases hcur : p = s.kernel.currentRunning
  · exact hcur ▸ hbusy
  · simpa only [MboxState.Busy, MboxState.setPc, Function.update_of_ne hcur] using hp

/-- The running task leaves the library. -/
theorem Recorded.leave (h : Recorded box s l) (hbusy : s.Busy s.kernel.currentRunning)
    (hret : s.kernel.kont s.kernel.currentRunning = .ret) (hleave : s.leave = .ok s') :
    Recorded box s' l := by
  obtain ⟨kernel, henter, hs'⟩ := bind_eq_ok.mp hleave
  cases hs'
  obtain ⟨v, hv⟩ := h.exclusive
  have hstep : kernelSystem.step s.kernel (.entry (.mutexRelease mboxLock)) kernel :=
    ⟨hv.enabled hbusy hret trivial, henter⟩
  obtain ⟨v', hv', -, hkont⟩ := hv.step hstep (by simp) fun _ _ hk => hk
  have hothers : ∀ p, (s.setPc kernel .idle).Busy p →
      s.Busy p ∧ p ≠ s.kernel.currentRunning := by
    intro p hp
    refine ⟨setPc_busy kernel hbusy p hp, ?_⟩
    rintro rfl
    exact hp (Function.update_self _ _ _)
  refine h.keep ⟨v', hv'.mono hothers⟩ (fun p hp => (hothers p hp).1) (fun p hp hret => ?_)
    (.inl rfl)
  exact (hkont p (hothers p hp).1 (hothers p hp).2).trans hret

theorem Recorded.modifyBox (h : Recorded box s l) (i : Nat) (f : Mailbox → Mailbox) :
    Recorded box (s.modifyBox i f) l :=
  h.keep h.exclusive (fun _ => id) (fun _ _ => id) (.inl rfl)

theorem Recorded.call (h : Recorded box s l) {c : MboxCall}
    (henabled : (MboxEvent.call c).Enabled s) (hcall : s.call c = .ok s') :
    Recorded box s' (l.begin s.kernel.currentRunning) := by
  obtain ⟨hboot, hret, hidle⟩ := henabled
  obtain ⟨kernel, henter, hs'⟩ := bind_eq_ok.mp hcall
  cases hs'
  obtain ⟨v, hv⟩ := h.exclusive
  have hstep : kernelSystem.step s.kernel (.entry (.mutexAcquire mboxLock)) kernel :=
    ⟨⟨hret, fun hzero => absurd hzero hboot, trivial⟩, henter⟩
  obtain ⟨v', hv', hmoves, hkont⟩ := hv.step hstep (by simp) fun _ _ hk => hk
  have hothers : ∀ p, p ≠ s.kernel.currentRunning → (s.setPc kernel c.start).Busy p →
      s.Busy p := by
    intro p hcur hp
    simpa only [MboxState.Busy, MboxState.setPc, Function.update_of_ne hcur] using hp
  refine h.begin ⟨v', (hv'.insert (hv.guarded.acquire hmoves)).mono fun p hp => ?_⟩ hothers
    (fun p hcur hp => hkont p (hothers p hcur hp) hcur) rfl
  by_cases hcur : p = s.kernel.currentRunning
  · exact .inl (hcur.trans hv.seen.current_eq.symm)
  · exact .inr ⟨hothers p hcur hp, hcur⟩

/-- The running task waits in a condition, without the lock. -/
theorem Recorded.waits (h : Recorded box s l) (hbusy : s.Busy s.kernel.currentRunning)
    (hret : s.kernel.kont s.kernel.currentRunning = .ret) {condition : Nat} {kernel : Kernel}
    (henter : s.kernel.enter (.conditionWait condition mboxLock) = .ok kernel) (pc : MboxPc) :
    Recorded box (s.setPc kernel pc) (l.wait s.kernel.currentRunning) := by
  obtain ⟨v, hv⟩ := h.exclusive
  have hstep : kernelSystem.step s.kernel (.entry (.conditionWait condition mboxLock)) kernel :=
    ⟨hv.enabled hbusy hret trivial, henter⟩
  obtain ⟨v', hv', hmoves, hkont⟩ := hv.step hstep (by simp) fun _ _ hk => hk
  have hcur := hv.seen.current_eq
  have hinside := ((hcur ▸ hv.inside _ hbusy).conditionWait hmoves).1
  refine h.wait hbusy ⟨v', (hv'.keep hcur hinside).mono fun p hp => setPc_busy kernel hbusy p hp⟩
    (fun p hp => setPc_busy kernel hbusy p hp) (fun p hpcur hp => ?_) rfl
  exact hkont p (setPc_busy kernel hbusy p hp) hpcur

theorem Recorded.mboxSend (h : Recorded box s l) {i : Nat} {msg : List UInt8}
    (hpc : s.pc s.kernel.currentRunning = .sending i msg)
    (hret : s.kernel.kont s.kernel.currentRunning = .ret) (hsend : s.mboxSend i msg = .ok s') :
    Recorded box s' (l.record box s .advance) := by
  have hbusy : s.Busy s.kernel.currentRunning := by simp [MboxState.Busy, hpc]
  cases msg with
  | nil =>
      simp only [Journal.record, hpc]
      exact h.leave hbusy hret hsend
  | cons byte msg =>
      rw [MboxState.mboxSend] at hsend
      simp only [Journal.record, hpc]
      by_cases hfull : (s.mboxs i).isFull = true
      · rw [if_pos hfull] at hsend ⊢
        obtain ⟨kernel, henter, hs'⟩ := bind_eq_ok.mp hsend
        cases hs'
        exact h.waits hbusy hret henter _
      · rw [if_neg hfull] at hsend ⊢
        obtain ⟨kernel, henter, hs'⟩ := bind_eq_ok.mp hsend
        cases hs'
        obtain ⟨v, hv⟩ := h.exclusive
        obtain ⟨v', hv', hkont⟩ := hv.passing (e := .conditionSignal _) hbusy
          ⟨hv.enabled hbusy hret trivial, henter⟩ trivial
        have hbusy' : ∀ p, ((s.modifyBox i fun m => m.put byte).setPc kernel
            (.sending i msg)).Busy p → s.Busy p := fun p hp => setPc_busy kernel hbusy p hp
        by_cases hi : i = box
        · subst hi
          rw [if_pos rfl]
          exact h.put hbusy hret ⟨v', hv'.mono hbusy'⟩ hbusy' ((hkont _ hbusy).trans hret)
            (Function.update_self _ _ _)
        · rw [if_neg hi]
          refine h.keep ⟨v', hv'.mono hbusy'⟩ hbusy' (fun p hp hp' => ?_)
            (.inl (Function.update_of_ne (Ne.symm hi) _ _))
          exact (hkont p (hbusy' p hp)).trans hp'

theorem Recorded.mboxRecv (h : Recorded box s l) {i remaining : Nat} {msg : List UInt8}
    (hpc : s.pc s.kernel.currentRunning = .receiving i remaining msg)
    (hret : s.kernel.kont s.kernel.currentRunning = .ret)
    (hrecv : s.mboxRecv i remaining msg = .ok s') :
    Recorded box s' (l.record box s .advance) := by
  have hbusy : s.Busy s.kernel.currentRunning := by simp [MboxState.Busy, hpc]
  cases remaining with
  | zero =>
      simp only [Journal.record, hpc]
      exact h.leave hbusy hret hrecv
  | succ remaining =>
      rw [MboxState.mboxRecv] at hrecv
      simp only [Journal.record, hpc]
      by_cases hempty : (s.mboxs i).isEmpty = true
      · rw [if_pos hempty] at hrecv ⊢
        obtain ⟨kernel, henter, hs'⟩ := bind_eq_ok.mp hrecv
        cases hs'
        exact h.waits hbusy hret henter _
      · rw [if_neg hempty] at hrecv ⊢
        obtain ⟨kernel, henter, hs'⟩ := bind_eq_ok.mp hrecv
        cases hs'
        obtain ⟨v, hv⟩ := h.exclusive
        obtain ⟨v', hv', hkont⟩ := hv.passing (e := .conditionSignal _) hbusy
          ⟨hv.enabled hbusy hret trivial, henter⟩ trivial
        have hbusy' : ∀ p, ((s.modifyBox i fun m => m.take.2).setPc kernel
            (.receiving i remaining (msg ++ [(s.mboxs i).take.1]))).Busy p → s.Busy p :=
          fun p hp => setPc_busy kernel hbusy p hp
        refine h.keep ⟨v', hv'.mono hbusy'⟩ hbusy' (fun p hp hp' => ?_) (.inl rfl)
        exact (hkont p (hbusy' p hp)).trans hp'

theorem Recorded.mboxOpen (h : Recorded box s l) {name : String}
    (hpc : s.pc s.kernel.currentRunning = .opening name)
    (hret : s.kernel.kont s.kernel.currentRunning = .ret)
    (hproper : MboxEvent.advance.Proper s) (hopen : s.mboxOpen name = .ok s') :
    Recorded box s' l := by
  have hbusy : s.Busy s.kernel.currentRunning := by simp [MboxState.Busy, hpc]
  unfold MboxState.mboxOpen at hopen
  split at hopen
  · exact (h.modifyBox _ _).leave hbusy hret hopen
  · rename_i hnone
    split at hopen
    · exact h.leave hbusy hret hopen
    · rename_i i hfind
      simp only [MboxEvent.Proper, hpc] at hproper
      obtain ⟨hempty, hfull⟩ := hproper hnone i hfind
      obtain ⟨v, hv⟩ := h.exclusive
      obtain ⟨k₁, henter₁, hopen⟩ := bind_eq_ok.mp hopen
      obtain ⟨k₂, henter₂, hopen⟩ := bind_eq_ok.mp hopen
      obtain ⟨v₁, hv₁, hkont₁⟩ := hv.passing (e := .conditionInit _) hbusy
        ⟨hv.enabled hbusy hret hempty, henter₁⟩ trivial
      have hk₁ : k₁.currentRunning = s.kernel.currentRunning ∧
          k₁.heap = queueInit s.kernel.heap (.condition (emptyCondition i)) := by
        cases henter₁
        exact ⟨rfl, rfl⟩
      have hret₁ : k₁.kont k₁.currentRunning = .ret := by
        rw [hk₁.1, hkont₁ _ hbusy, hret]
      have hne : QueueId.condition (fullCondition i) ≠ .condition (emptyCondition i) := by
        simp [fullCondition, emptyCondition]
      have hfull₁ : queueIsEmpty k₁.heap (.condition (fullCondition i)) = true := by
        rw [hk₁.2]
        simpa [queueIsEmpty, queueInit, hne] using hfull
      have hbusy₁ : s.Busy k₁.currentRunning := hk₁.1 ▸ hbusy
      obtain ⟨v₂, hv₂, hkont₂⟩ := hv₁.passing (e := .conditionInit _) hbusy₁
        ⟨hv₁.enabled hbusy₁ hret₁ hfull₁, henter₂⟩ trivial
      have hcur₂ : k₂.currentRunning = s.kernel.currentRunning := by
        cases henter₂
        exact hk₁.1
      have hkont : ∀ p, s.Busy p → k₂.kont p = s.kernel.kont p := fun p hp =>
        (hkont₂ p hp).trans (hkont₁ p hp)
      dsimp only at hopen
      generalize hs₁ : MboxState.mk k₂ _ _ _ _ = s₁ at hopen
      have hkept : Recorded box s₁ l := by
        rw [← hs₁]
        refine h.keep ⟨v₂, hv₂⟩ (fun _ => id) (fun p hp hp' => (hkont p hp).trans hp') ?_
        by_cases hi : box = i
        · rw [hi]
          exact .inr (Function.update_self _ _ _)
        · exact .inl (Function.update_of_ne hi _ _)
      refine hkept.leave ?_ ?_ hopen
      · rw [← hs₁]
        exact hcur₂ ▸ hbusy
      · rw [← hs₁]
        exact hcur₂ ▸ (hkont _ hbusy).trans hret

theorem Recorded.advance (h : Recorded box s l) (hret : s.kernel.kont s.kernel.currentRunning = .ret)
    (hproper : MboxEvent.advance.Proper s) (hadvance : s.advance = .ok s') :
    Recorded box s' (l.record box s .advance) := by
  unfold MboxState.advance at hadvance
  cases hpc : s.pc s.kernel.currentRunning with
  | idle =>
      simp only [hpc] at hadvance
      cases hadvance
      simpa only [Journal.record, hpc] using h
  | opening name =>
      simp only [hpc] at hadvance
      simpa only [Journal.record, hpc] using h.mboxOpen hpc hret hproper hadvance
  | closing i =>
      simp only [hpc] at hadvance
      have hbusy : s.Busy s.kernel.currentRunning := by simp [MboxState.Busy, hpc]
      simpa only [Journal.record, hpc] using (h.modifyBox _ _).leave hbusy hret hadvance
  | sending i msg =>
      simp only [hpc] at hadvance
      exact h.mboxSend hpc hret hadvance
  | receiving i remaining msg =>
      simp only [hpc] at hadvance
      exact h.mboxRecv hpc hret hadvance

theorem Recorded.resume (h : Recorded box s l) (henabled : Event.resume.Enabled s.kernel)
    {kernel : Kernel} (hresume : s.kernel.resume = .ok kernel) :
    Recorded box { s with kernel } l := by
  obtain ⟨v, hv⟩ := h.exclusive
  have hstep : kernelSystem.step s.kernel .resume kernel := ⟨henabled, hresume⟩
  obtain ⟨v', hv', hmoves, hkont⟩ := hv.step hstep (by simp) fun _ _ hk => hk
  have hcur := hv.seen.current_eq
  have hkont' : ∀ p, s.Busy p → s.kernel.kont p = .ret → kernel.kont p = .ret := by
    intro p hp hret
    have hpcur : p ≠ s.kernel.currentRunning := by
      rintro rfl
      exact henabled.2 hret
    exact (hkont p hp hpcur).trans hret
  refine h.keep ?_ (fun _ => id) hkont' (.inl rfl)
  by_cases hbusy : s.Busy s.kernel.currentRunning
  · have hinside : v'.Inside mboxLock v.current := by
      refine View.Inside.moves (hcur ▸ hv.inside _ hbusy) hmoves ?_ id
      rw [hv.seen.kont_eq, hcur]
      exact henabled.2
    exact ⟨v', hv'.keep hcur hinside⟩
  · refine ⟨v', hv'.mono fun p hp => ⟨hp, ?_⟩⟩
    rintro rfl
    exact hbusy hp

theorem Recorded.entry (h : Recorded box s l) {e : Entry}
    (henabled : (MboxEvent.entry e).Enabled s) (hproper : (MboxEvent.entry e).Proper s)
    {kernel : Kernel} {pc : Pid → MboxPc} (henter : s.kernel.enter e = .ok kernel)
    (hpc : ∀ p, (s.kernel.Live p ∧ kernel.Live p ∧ pc p = s.pc p) ∨
      (¬ (s.kernel.Live p ∧ kernel.Live p) ∧ pc p = .idle)) :
    Recorded box { s with kernel, pc } l := by
  obtain ⟨v, hv⟩ := h.exclusive
  have hstep : kernelSystem.step s.kernel (.entry e) kernel := ⟨henabled.1, henter⟩
  have hinit : Event.entry e ≠ .entry (.mutexInit mboxLock) := by
    rintro heq
    cases heq
    exact hproper rfl
  have hlives : ∀ p, MboxState.Busy { s with kernel, pc } p → s.Busy p ∧ kernel.Live p := by
    intro p hp
    rcases hpc p with ⟨-, hlive, hsame⟩ | ⟨-, hidle⟩
    · exact ⟨fun hidle => hp (hsame.trans hidle), hlive⟩
    · exact absurd hidle hp
  by_cases hbusy : s.Busy s.kernel.currentRunning
  · have hpassing : e.Passing := by
      have hinterrupt := henabled.2.resolve_left hbusy
      cases e with
      | timer | mac => trivial
      | _ => exact hinterrupt.elim
    obtain ⟨v', hv', hkont⟩ := hv.passing hbusy hstep hpassing
    refine h.keep ⟨v', hv'.mono fun p hp => (hlives p hp).1⟩ (fun p hp => (hlives p hp).1)
      (fun p hp hret => ?_) (.inl rfl)
    exact (hkont p (hlives p hp).1).trans hret
  · have hlive : Exclusive s.kernel (fun p => s.Busy p ∧ kernel.Live p) v :=
      hv.mono fun p hp => hp.1
    obtain ⟨v', hv', -, hkont⟩ := hlive.step hstep
      hinit fun p hp => hv.spares hstep hp.2
    have hne : ∀ p, s.Busy p → p ≠ s.kernel.currentRunning := by
      rintro p hp rfl
      exact hbusy hp
    refine h.keep ⟨v', hv'.mono fun p hp => ⟨hlives p hp, hne p (hlives p hp).1⟩⟩
      (fun p hp => (hlives p hp).1) (fun p hp hret => ?_) (.inl rfl)
    exact (hkont p (hlives p hp) (hne p (hlives p hp).1)).trans hret

theorem Recorded.step {a b : MboxState × Journal} {event : MboxEvent} (h : Recorded box a.1 a.2)
    (hproper : event.Proper a.1) (hstep : (journalSystem box).step a event b) :
    Recorded box b.1 b.2 := by
  obtain ⟨⟨henabled, hstep⟩, hrecord⟩ := hstep
  rw [hrecord]
  cases event with
  | call c => exact h.call henabled hstep
  | advance => exact h.advance henabled hproper hstep
  | resume =>
      obtain ⟨kernel, hresume, hb⟩ := hstep
      rw [hb]
      exact h.resume henabled hresume
  | entry e =>
      obtain ⟨kernel, pc, henter, hb, hpc⟩ := hstep
      rw [hb]
      exact h.entry henabled hproper henter hpc

/-! ## Runs -/

theorem boot_recorded (hinv : ∃ v, Seen noTask True k v ∧ v.Guarded)
    (hlock : (Event.entry (.mutexInit mboxLock)).Enabled k) (box : Nat) :
    Recorded box (MboxState.boot k) Journal.empty := by
  obtain ⟨v, hseen, hguarded⟩ := hinv
  have hstep : kernelSystem.step k (.entry (.mutexInit mboxLock)) (k.doMutexLockInit mboxLock) :=
    ⟨hlock, rfl⟩
  obtain ⟨v', hseen', hmoves⟩ := hseen.step hstep
  refine ⟨⟨v', hseen', hguarded.moves hmoves, fun p hp => absurd rfl hp⟩, Grouped.nil, ?_,
    fun p hp => absurd rfl hp, fun p _ hp => absurd rfl hp, fun p hp => absurd rfl hp,
    fun p hp => absurd rfl hp, ⟨[], rfl⟩⟩
  intro x hx
  cases hx

/-- What one call of `mbox_send` puts between two waits stays together in the stream. -/
theorem messages_of_run {kernel₀ kernel : Kernel} {boots : List Event} {events : List MboxEvent}
    (hinit : initTask Kernel.zero = .ok kernel₀) (hboot : kernelSystem.Run kernel₀ boots kernel)
    (hlock : (Event.entry (.mutexInit mboxLock)).Enabled kernel)
    (run : ((journalSystem box).restrict fun a event => event.Proper a.1).Run
      (MboxState.boot kernel, Journal.empty) events (s, l)) :
    (∃ earlier, l.stream.map Put.byte = earlier ++ s.put box) ∧
      ∀ (i j m : Nat) (x y z : Put), i < j → j < m → l.stream[i]? = some x →
        l.stream[j]? = some y → l.stream[m]? = some z → x.call = z.call → x.burst = z.burst →
        y.call = x.call ∧ y.burst = x.burst := by
  obtain ⟨v, hseen, hguarded, -⟩ := guarded_of_run hinit hboot 0
  have h : Recorded box s l := by
    refine run.invariant (I := fun a => Recorded box a.1 a.2) ?_
      (boot_recorded ⟨v, hseen, hguarded⟩ hlock box)
    rintro a event b h ⟨hproper, hstep⟩
    exact h.step hproper hstep
  refine ⟨h.bytes, fun i j m x y z hij hjm hx hy hz hcall hburst => ?_⟩
  have hstamps : ∀ (n : Nat) (w : Put), l.stream[n]? = some w → l.stamps[n]? = some w.stamp := by
    intro n w hw
    rw [Journal.stamps, List.getElem?_map, hw]
    rfl
  have hsame : x.stamp = z.stamp := Prod.ext hcall hburst
  have hy' := h.grouped i j m x.stamp hij hjm (hstamps i x hx) (hsame ▸ hstamps m z hz)
  rw [hstamps j y hy, Option.some.injEq] at hy'
  exact ⟨congrArg Prod.fst hy', congrArg Prod.snd hy'⟩

/-! ## A torn message -/

instance (s : MboxState) (event : MboxEvent) : Decidable (event.Enabled s) :=
  match event with
  | .call _ => inferInstanceAs (Decidable (_ ∧ _ ∧ _))
  | .advance => inferInstanceAs (Decidable (_ = _))
  | .resume => inferInstanceAs (Decidable (Event.resume.Enabled _))
  | .entry _ => inferInstanceAs (Decidable (_ ∧ (_ ∨ _)))

def MboxState.exec (s : MboxState) : MboxEvent → Except Fault MboxState
  | .call c => s.call c
  | .advance => s.advance
  | .resume => do
      let kernel ← s.kernel.resume
      return { s with kernel }
  | .entry e => do
      let kernel ← s.kernel.enter e
      return { s with
        kernel
        pc := fun p => if s.kernel.Live p ∧ kernel.Live p then s.pc p else .idle }

theorem MboxState.exec_step {event : MboxEvent} (henabled : event.Enabled s)
    (hexec : s.exec event = .ok s') : mboxSystem.step s event s' := by
  refine ⟨henabled, ?_⟩
  cases event with
  | call c => exact hexec
  | advance => exact hexec
  | resume =>
      obtain ⟨kernel, hresume, hs'⟩ := bind_eq_ok.mp hexec
      exact ⟨kernel, hresume, (Except.ok.inj hs').symm⟩
  | entry e =>
      obtain ⟨kernel, henter, hs'⟩ := bind_eq_ok.mp hexec
      refine ⟨kernel, _, henter, (Except.ok.inj hs').symm, fun p => ?_⟩
      by_cases hlive : s.kernel.Live p ∧ kernel.Live p
      · exact .inl ⟨hlive.1, hlive.2, if_pos hlive⟩
      · exact .inr ⟨hlive, if_neg hlive⟩

/-- The state and the journal that the events lead to, where they can. -/
def followMbox (box : Nat) : MboxState × Journal → List MboxEvent → Option (MboxState × Journal)
  | a, [] => some a
  | a, event :: rest =>
      if event.Enabled a.1 ∧ event.Proper a.1 then
        match a.1.exec event with
        | .ok s => followMbox box (s, a.2.record box a.1 event) rest
        | .error _ => none
      else none

theorem run_followMbox {events : List MboxEvent} {a b : MboxState × Journal}
    (h : followMbox box a events = some b) :
    ((journalSystem box).restrict fun a event => event.Proper a.1).Run a events b := by
  induction events generalizing a with
  | nil =>
      obtain rfl := Option.some.inj h
      exact .nil _
  | cons event rest ih =>
      rw [followMbox] at h
      split at h
      · rename_i hevent
        split at h
        · rename_i s hexec
          have hstep : ((journalSystem box).restrict fun a event => event.Proper a.1).step a event
              (s, a.2.record box a.1 event) :=
            ⟨hevent.2, MboxState.exec_step hevent.1 hexec, rfl⟩
          exact (Lts.Run.single hstep).append (ih h)
        · cases h
      · cases h

/-- The events of a call that returns after the given number of turns. -/
def wholeCall (c : MboxCall) (turns : Nat) : List MboxEvent :=
  .call c :: List.replicate turns .advance

/-- Task 3 opens the box, and sends and takes one byte, so that the ring starts at slot 1. -/
private def prologue : List MboxEvent :=
  wholeCall (.mboxOpen "box") 1 ++ wholeCall (.mboxSend 0 [1]) 2 ++ wholeCall (.mboxRecv 0 1) 2

/--
Task 3 sends 256 bytes and waits with the last one.  The shell takes a byte, sends
one and takes another; then task 3 goes on.
-/
private def tearing : List MboxEvent :=
  prologue ++ wholeCall (.mboxSend 0 (List.replicate 256 1)) 256 ++
    wholeCall (.mboxRecv 0 1) 2 ++ wholeCall (.mboxSend 0 [2]) 2 ++
    wholeCall (.mboxRecv 0 1) 2 ++ [.entry .timer, .resume, .advance]

theorem spawned_mutexInit : (Event.entry (.mutexInit mboxLock)).Enabled spawned := by
  decide +kernel

/-- A message of three bytes is whole. -/
theorem messages_whole : ∃ events s l,
    ((journalSystem 0).restrict fun a event => event.Proper a.1).Run
      (MboxState.boot spawned, Journal.empty) events (s, l) ∧
    ∃ x y z, l.stream = [⟨1, 0, 1⟩, x, y, z] ∧ y.call = x.call ∧ y.burst = x.burst := by
  have hfollow : ((followMbox 0 (MboxState.boot spawned, Journal.empty)
      (prologue ++ wholeCall (.mboxSend 0 [4, 5, 6]) 3)).map fun b => b.2.stream) =
        some [⟨1, 0, 1⟩, ⟨3, 0, 4⟩, ⟨3, 0, 5⟩, ⟨3, 0, 6⟩] := by
    decide +kernel
  obtain ⟨⟨s, l⟩, hb, hstream⟩ := Option.map_eq_some_iff.mp hfollow
  have hstream' : l.stream = [⟨1, 0, 1⟩, ⟨3, 0, 4⟩, ⟨3, 0, 5⟩, ⟨3, 0, 6⟩] := hstream
  have run := run_followMbox hb
  have h := (messages_of_run initTask_zero run_spawned spawned_mutexInit run).2 1 2 3
    ⟨3, 0, 4⟩ ⟨3, 0, 5⟩ ⟨3, 0, 6⟩ (by decide) (by decide) (by rw [hstream']; rfl)
    (by rw [hstream']; rfl) (by rw [hstream']; rfl) rfl rfl
  exact ⟨_, s, l, run, _, _, _, hstream', h⟩

/-- A byte of the shell stands between two bytes of one message. -/
theorem message_torn : initTask Kernel.zero = .ok booted ∧
    (∃ boots, kernelSystem.Run booted boots spawned) ∧
    (Event.entry (.mutexInit mboxLock)).Enabled spawned ∧
    ∃ events s l, ((journalSystem 0).restrict fun a event => event.Proper a.1).Run
        (MboxState.boot spawned, Journal.empty) events (s, l) ∧
      ∃ (i j m : Nat) (x y z : Put), i < j ∧ j < m ∧ l.stream[i]? = some x ∧
        l.stream[j]? = some y ∧ l.stream[m]? = some z ∧ x.call = z.call ∧ y.call ≠ x.call := by
  have hfollow : ((followMbox 0 (MboxState.boot spawned, Journal.empty) tearing).map
      fun b => (b.2.stream[255]?, b.2.stream[256]?, b.2.stream[257]?)) =
        some (some ⟨3, 0, 1⟩, some ⟨5, 0, 2⟩, some ⟨3, 1, 1⟩) := by
    decide +kernel
  obtain ⟨⟨s, l⟩, hb, hstream⟩ := Option.map_eq_some_iff.mp hfollow
  simp only [Prod.mk.injEq] at hstream
  obtain ⟨hx, hy, hz⟩ := hstream
  exact ⟨initTask_zero, ⟨_, run_spawned⟩, spawned_mutexInit, _, s, l, run_followMbox hb, 255, 256,
    257, _, _, _, by decide, by decide, hx, hy, hz, rfl, by decide⟩

end UcasOs.Libs
