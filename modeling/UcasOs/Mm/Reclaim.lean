import Mathlib.Data.Set.Card
import UcasOs.Mm.Isolation
import UcasOs.Sched.Entries

/-!
# What `kill` leaves of a task's memory

`kill` frees neither the frames nor the page tables nor the swap units of the
task, and leaves its TLB entries valid.  Nothing is lost exactly when the task
has no page table.
-/

namespace UcasOs.Mm

open UcasOs.Foundation UcasOs.Libs UcasOs.Sched Machine

variable {m m' : Machine}

def Machine.Live (m : Machine) (p : Pid) : Prop := Allocated m.pidList maxTaskNum p

/-- In `m'` nothing is left of the pages that the task `p` had in `m`. -/
structure Reclaimed (m m' : Machine) (p : Pid) : Prop where
  frames : ∀ page pte f, page.pid = p → m.look page = some pte → pte.present = true →
    pte.addr = frameNumber (f : Nat) → m.pmPid f = p → ¬ Allocated m'.pmSlist pmSlistSize (f + 1)
  slots : ∀ d, (m.pageDir p d).valid = true →
    ¬ Allocated m'.ptPoolSlist pageTablePoolSlistSize ((m.pageDir p d).poolNum + 1)
  units : ∀ page pte u, page.pid = p → m.look page = some pte → pte.present = false →
    pte.addr = unitAddress u → ¬ Allocated m'.swapAreaSlist swapAreaSize (u + 1)
  tlb : ∀ i, i < tlbEntryNumber → (m'.tlb i).Valid → (m'.tlb i).page.pid ≠ p

/-- The numbers handed out are the numbers that live tasks refer to. -/
structure Counted (m : Machine) : Prop where
  frames : {f | Allocated m.pmSlist pmSlistSize (f + 1)}.ncard =
    {page : Page | m.Live page.pid ∧ ∃ pte, m.look page = some pte ∧ pte.present = true}.ncard
  slots : {s | Allocated m.ptPoolSlist pageTablePoolSlistSize (s + 1)}.ncard =
    {e : Pid × Nat | m.Live e.1 ∧ (m.pageDir e.1 e.2).valid = true}.ncard
  units : {u | Allocated m.swapAreaSlist swapAreaSize (u + 1)}.ncard =
    {page : Page | m.Live page.pid ∧
      ∃ pte u, m.look page = some pte ∧ pte.present = false ∧ pte.addr = unitAddress u}.ncard

/-! ## The tasks of the kernel -/

/-- The pids of this model after a kernel event. -/
def pidsAfter (m : Machine) (k : Kernel) : Event → Slist
  | .entry (.spawn _) => m.initPcb.pidList
  | .entry (.kill pid) => (m.kill pid).pidList
  | .entry .exit => (m.kill (k.pcb k.currentRunning).pid).pidList
  | _ => m.pidList

theorem initPcb_pidList (m : Machine) : m.initPcb.pidList = (slistAlloc m.pidList).2 := by
  obtain ⟨pageDir, heq⟩ := initPcb_cases m
  rw [heq]

theorem kill_pidList (pid : Int) : (m.kill pid).pidList = killPids m.pidList pid := by
  unfold kill killPids
  split <;> rfl

theorem pidList_step {k k' : Kernel} {event : Event} (h : Inv k noTask True)
    (hstep : kernelSystem.step k event k') (hpids : m.pidList = k.pidList) :
    k'.pidList = pidsAfter m k event := by
  obtain ⟨henabled, hexec⟩ := hstep
  cases event with
  | resume =>
      obtain ⟨-, lock, -, hacquired⟩ := (resume_inv h henabled).of_ok hexec
      exact hacquired.1.trans hpids.symm
  | entry e =>
      obtain ⟨-, heffect⟩ := (enter_inv h (fun _ => id) henabled).of_ok hexec
      cases e with
      | spawn task => exact heffect.2.2.1.trans (by rw [pidsAfter, initPcb_pidList, hpids])
      | kill pid => exact heffect.2.trans (by rw [pidsAfter, kill_pidList, hpids])
      | exit => exact heffect.2.trans (by rw [pidsAfter, kill_pidList, hpids])
      | wait | sleep | mutexInit | mutexAcquire | mutexRelease | semaphoreInit | semaphoreUp
      | semaphoreDown | conditionInit | conditionWait | conditionSignal | conditionBroadcast
      | barrierInit | barrierWait | waitRecv | timer | mac =>
          exact heffect.1.trans hpids.symm

/-! ## Counting -/

theorem Paging.frames_counted (h : Paging m none) :
    {f | Allocated m.pmSlist pmSlistSize (f + 1)}.ncard =
      {page : Page | m.Live page.pid ∧
        ∃ pte, m.look page = some pte ∧ pte.present = true}.ncard := by
  refine Set.ncard_congr (fun f _ => m.owner f) ?_ ?_ ?_
  · intro f ha
    obtain ⟨pte, hlook, hpresent, -⟩ := h.frames.owned ha (by simp)
    exact ⟨(h.dirs.look_live hlook).1, pte, hlook, hpresent⟩
  · intro f f' ha ha' howner
    obtain ⟨pte, hlook, -, haddr⟩ := h.frames.owned ha (by simp)
    obtain ⟨pte', hlook', -, haddr'⟩ := h.frames.owned ha' (by simp)
    rw [howner, hlook'] at hlook
    cases hlook
    exact frameNumber_inj (frame_lt ha) (frame_lt ha') (haddr.symm.trans haddr')
  · rintro page ⟨-, pte, hlook, hpresent⟩
    obtain ⟨f, -, ha, -, howner⟩ := h.frames.mapped hlook hpresent
    exact ⟨f, ha, howner⟩

theorem Paging.slots_counted (h : Paging m none) :
    {s | Allocated m.ptPoolSlist pageTablePoolSlistSize (s + 1)}.ncard =
      {e : Pid × Nat | m.Live e.1 ∧ (m.pageDir e.1 e.2).valid = true}.ncard := by
  symm
  refine Set.ncard_congr (fun e _ => (m.pageDir e.1 e.2).poolNum) ?_ ?_ ?_
  · exact fun e he => h.dirs.pde_slot he.2
  · intro e e' he he' hslot
    obtain ⟨hp, hd⟩ := h.dirs.pde_inj he.2 he'.2 hslot
    exact Prod.ext hp hd
  · intro s ha
    obtain ⟨p, d, hvalid, hslot⟩ := h.dirs.slot_used ha
    exact ⟨(p, d), ⟨(h.dirs.pde_live hvalid).1, hvalid⟩, hslot⟩

/-- The unit that a page out of memory refers to. -/
private def unitOf (m : Machine) (page : Page) : Nat :=
  (m.look page).elim 0 fun pte => (pte.addr - swapAreaBase) / swapAreaUintSize

private theorem unitOf_eq {page : Page} {pte : Pte} {u : Nat} (hlook : m.look page = some pte)
    (haddr : pte.addr = unitAddress u) : unitOf m page = u := by
  rw [unitOf, hlook, Option.elim_some, haddr]
  unfold unitAddress swapAreaUintSize
  omega

theorem Paging.units_counted (h : Paging m none) :
    {u | Allocated m.swapAreaSlist swapAreaSize (u + 1)}.ncard =
      {page : Page | m.Live page.pid ∧ ∃ pte u, m.look page = some pte ∧
        pte.present = false ∧ pte.addr = unitAddress u}.ncard := by
  symm
  refine Set.ncard_congr (fun page _ => unitOf m page) ?_ ?_ ?_
  · rintro page ⟨-, pte, u, hlook, hpresent, haddr⟩
    rw [unitOf_eq hlook haddr]
    change Allocated m.swapAreaSlist swapAreaSize (u + 1)
    obtain ⟨hno, -⟩ | ⟨u', ha, haddr'⟩ := h.units.swapped hlook hpresent
    · exact absurd (haddr.symm.trans hno) unitAddress_ne_noUnit
    · rw [unitAddress_inj (haddr.symm.trans haddr')]
      exact ha
  · rintro page page' ⟨-, pte, u, hlook, hpresent, haddr⟩ ⟨-, pte', u', hlook', hpresent', haddr'⟩ heq
    rw [unitOf_eq hlook haddr, unitOf_eq hlook' haddr'] at heq
    exact h.units.inj hlook hpresent hlook' hpresent' haddr (heq ▸ haddr')
  · intro u ha
    obtain ⟨page, pte, hlook, hpresent, haddr⟩ := h.units.used ha
    exact ⟨page, ⟨(h.dirs.look_live hlook).1, pte, u, hlook, hpresent, haddr⟩,
      unitOf_eq hlook haddr⟩

/-! ## Killing -/

theorem Dirs.look_none {p : Pid} (hnone : ∀ d, (m.pageDir p d).valid = false) (page : Page)
    (hpage : page.pid = p) : m.look page = none := by
  unfold Machine.look
  rw [hpage]
  simp [hnone]

/-- A task without page tables has no pages and no TLB entries. -/
theorem Paging.tlb_none {p : Pid} (h : Paging m none)
    (hnone : ∀ d, (m.pageDir p d).valid = false) {i : Nat} (hi : i < tlbEntryNumber)
    (hvalid : (m.tlb i).Valid) : (m.tlb i).page.pid ≠ p := by
  intro hpage
  obtain ⟨pte, hlook, -⟩ := h.tlb.agrees hi hvalid
  rw [Dirs.look_none hnone _ hpage] at hlook
  cases hlook

theorem kill_eq (pid : Int) : ∃ pidList, m.kill pid = { m with pidList } := by
  unfold kill
  split
  · exact ⟨_, rfl⟩
  · exact ⟨_, rfl⟩

theorem kill_reclaimed_iff {pid : Int} (h : Paging m none) :
    Reclaimed m (m.kill pid) pid.toNat ↔ ∀ d, (m.pageDir pid.toNat d).valid = false := by
  obtain ⟨pidList, hkill⟩ := kill_eq (m := m) pid
  rw [hkill]
  constructor
  · intro hreclaimed d
    by_contra hvalid
    have hvalid' : (m.pageDir pid.toNat d).valid = true := by simpa using hvalid
    exact hreclaimed.slots d hvalid' (h.dirs.pde_slot hvalid')
  · intro hnone
    refine ⟨?_, ?_, ?_, fun i hi hvalid => h.tlb_none hnone hi hvalid⟩
    · intro page pte f hpage hlook
      rw [Dirs.look_none hnone page hpage] at hlook
      cases hlook
    · intro d hvalid
      rw [hnone d] at hvalid
      cases hvalid
    · intro page pte u hpage hlook
      rw [Dirs.look_none hnone page hpage] at hlook
      cases hlook

/--
In a run whose kills all meet tasks without page tables, what is handed out is
what live tasks refer to; a pid that is free has no pages, before and after it
is given to a new task; and `kill` of a live task reclaims its memory exactly
when the task has no page table.
-/
theorem reclaim_of_run {memory sd : Nat → UInt8} {events : List MemEvent}
    (run : (memSystem.restrict fun m e => e.SparesPages m).Run (boot memory sd) events m) :
    Counted m ∧
    (∀ p, ¬ m.Live p → (∀ page, page.pid = p → m.look page = none ∧ m.initPcb.look page = none) ∧
      ∀ i, i < tlbEntryNumber → (m.tlb i).Valid → (m.tlb i).page.pid ≠ p) ∧
    ∀ pid : Int, pid ≠ 1 → m.Live pid.toNat →
      (Reclaimed m (m.kill pid) pid.toNat ↔ ∀ d, (m.pageDir pid.toNat d).valid = false) := by
  have h := paging_of_run run
  refine ⟨⟨h.frames_counted, h.slots_counted, h.units_counted⟩, ?_, ?_⟩
  · intro p hdead
    have hnone : ∀ d, (m.pageDir p d).valid = false := by
      intro d
      by_contra hvalid
      exact hdead (h.dirs.pde_live (by simpa using hvalid)).1
    refine ⟨fun page hpage => ⟨Dirs.look_none hnone page hpage, ?_⟩,
      fun i hi hvalid => h.tlb_none hnone hi hvalid⟩
    rw [initPcb_eq h.dirs]
    exact Dirs.look_none hnone page hpage
  · exact fun pid _ _ => kill_reclaimed_iff h

/-- The second task of a run is killed before it has touched its memory. -/
theorem reclaim_untouched : ∃ events m,
    (memSystem.restrict fun m e => e.SparesPages m).Run (boot (fun _ => 0) fun _ => 0) events m ∧
      m.Live 2 ∧ Reclaimed m (m.kill 2) 2 := by
  let m₁ := (boot (fun _ => 0) fun _ => 0).initPcb
  let m₂ := m₁.initPcb
  have hspawn₁ : memSystem.step (boot (fun _ => 0) fun _ => 0) .initPcb m₁ := ⟨trivial, rfl⟩
  have hspawn₂ : memSystem.step m₁ .initPcb m₂ := ⟨trivial, rfl⟩
  have hspares : ∀ m, MemEvent.initPcb.SparesPages m := fun _ => trivial
  have run := (Lts.Run.single (L := memSystem.restrict fun m e => e.SparesPages m)
    ⟨hspares _, hspawn₁⟩).snoc ⟨hspares _, hspawn₂⟩
  have hlive : m₂.Live 2 := by
    unfold Machine.Live
    decide +kernel
  refine ⟨_, m₂, run, hlive, ((reclaim_of_run run).2.2 2 (by decide) hlive).mpr fun d => ?_⟩
  have hdir₁ := congrArg Machine.pageDir (initPcb_eq (boot_paging (fun _ => 0) fun _ => 0).dirs)
  have hdir₂ := congrArg Machine.pageDir
    (initPcb_eq (initPcb_paging (boot_paging (fun _ => 0) fun _ => 0)).1.dirs)
  rw [hdir₂, hdir₁]
  rfl

/-- A task is killed after it has touched one page: its frame and its page table stay taken. -/
theorem reclaim_leaks : ∃ events m, memSystem.Run (boot (fun _ => 0) fun _ => 0) events m ∧
    m.Live 2 ∧ ¬ (m.kill 2).Live 2 ∧ ¬ Reclaimed m (m.kill 2) 2 := by
  let m₁ := (boot (fun _ => 0) fun _ => 0).initPcb
  let m₂ := m₁.initPcb
  let m₃ := (m₂.fault 2 0x1000 0).toOption.getD m₂
  have hspawn₁ : memSystem.step (boot (fun _ => 0) fun _ => 0) .initPcb m₁ := ⟨trivial, rfl⟩
  have hspawn₂ : memSystem.step m₁ .initPcb m₂ := ⟨trivial, rfl⟩
  have hstep : memSystem.step m₂ (.fault 2 0x1000 0) m₃ :=
    ⟨⟨by decide +kernel, by decide, by decide⟩, eq_ok_getD (by decide +kernel) m₂⟩
  have run := ((Lts.Run.single hspawn₁).snoc hspawn₂).snoc hstep
  refine ⟨_, m₃, run, ?_, ?_, ?_⟩
  · unfold Machine.Live
    decide +kernel
  · unfold Machine.Live
    decide +kernel
  · intro hreclaimed
    exact hreclaimed.slots 0 (by decide +kernel) (by decide +kernel)

end UcasOs.Mm
