import UcasOs.Mm.IoProc
import UcasOs.Mm.Isolation

/-!
# The frame table between exceptions

When exceptions of several tasks interleave, the frame table is not in step with
the page tables.  What is left is enough for `swap_out`: when no frame is free,
every frame names a task that is there.
-/

namespace UcasOs.Mm

open UcasOs.Foundation UcasOs.Libs UcasOs.Sched Machine

/-- The task whose page is on its way out. -/
def SwapPc.victim : SwapPc → Option Pid
  | .swapOut pid _ _ => some pid
  | _ => none

variable {m m' : Machine} {pending : Prop}

/-- Every frame has been given to a task that is still there. -/
def AllOwned (m : Machine) : Prop :=
  ∀ f : Nat, f < 2048 → Allocated m.pidList maxTaskNum (m.pmPid f)

/-- `pending` says that a task is inside `swap_out` or `swap_in`. -/
structure Frames (m : Machine) (pending : Prop) : Prop where
  free : ∃ free, Implements m.pmSlist pmSlistSize free
  owned : ∀ f : Nat, Allocated m.pmSlist pmSlistSize (f + 1) →
    Allocated m.pidList maxTaskNum (m.pmPid f)
  swapped : ∀ slot t, (m.pageTablePool slot t).valid = true →
    (m.pageTablePool slot t).present = false → AllOwned m
  full : pending → AllOwned m

theorem AllOwned.congr (h : AllOwned m) (hpids : m'.pidList = m.pidList)
    (hpid : m'.pmPid = m.pmPid) : AllOwned m' := by
  intro f hf
  rw [hpids, hpid]
  exact h f hf

theorem AllOwned.stamp (h : AllOwned m) {p : Pid} (hp : Allocated m.pidList maxTaskNum p)
    (pmIndex : Int) (badvaddr : Nat) : AllOwned (m.stamp pmIndex p badvaddr) := by
  intro f hf
  change Allocated m.pidList maxTaskNum (Function.update m.pmPid pmIndex p f)
  by_cases hindex : (f : Int) = pmIndex
  · rw [hindex, Function.update_self]
    exact hp
  · rw [Function.update_of_ne hindex]
    exact h f hf

theorem Frames.of_all (hfree : ∃ free, Implements m.pmSlist pmSlistSize free) (h : AllOwned m) :
    Frames m pending := by
  refine ⟨hfree, ?_, fun _ _ _ _ => h, fun _ => h⟩
  intro f ha
  have hlt : f + 1 < pmSlistSize := ha.2.1
  unfold pmSlistSize at hlt
  exact h f (by omega)

/-- When no frame is free, all of them have an owner. -/
theorem Frames.all_of_full (h : Frames m pending) (hfull : Implements m.pmSlist pmSlistSize []) :
    AllOwned m := by
  intro f hf
  exact h.owned f (hfull.allocated_of_nil (by omega) (by unfold pmSlistSize; omega))

theorem Frames.mono (h : Frames m pending) (hpm : m'.pmSlist = m.pmSlist)
    (hpid : m'.pmPid = m.pmPid) (hpool : m'.pageTablePool = m.pageTablePool)
    (hlive : ∀ p, Allocated m.pidList maxTaskNum p → Allocated m'.pidList maxTaskNum p) :
    Frames m' pending := by
  have hall : AllOwned m → AllOwned m' := by
    intro ha f hf
    rw [hpid]
    exact hlive _ (ha f hf)
  refine ⟨?_, ?_, ?_, fun hp => hall (h.full hp)⟩
  · rw [hpm]
    exact h.free
  · intro f ha
    rw [hpm] at ha
    rw [hpid]
    exact hlive _ (h.owned f ha)
  · intro slot t hvalid hpresent
    rw [hpool] at hvalid hpresent
    exact hall (h.swapped slot t hvalid hpresent)

/-- What a piece of an exception leaves of the frame table. -/
def Progress.Sound (pids : Slist) (ioTask : IoTask) (pending : Prop) : Progress → Prop
  | .done m => Frames m pending ∧ m.pidList = pids ∧ m.ioTask = ioTask
  | .post pid _ pc m => Frames m True ∧ m.pidList = pids ∧ pc.victim = pid ∧ pc ≠ .user ∧
      ∀ p, pid = some p → Allocated pids maxTaskNum p

theorem useFrame_sound (hfree : ∃ free, Implements m.pmSlist pmSlistSize free) (hall : AllOwned m)
    {p : Pid} (hp : Allocated m.pidList maxTaskNum p) (x : TlbException) (address : Option Nat)
    (pmIndex : Int) (random : Nat) :
    (m.useFrame p x address pmIndex random).Sound m.pidList m.ioTask pending := by
  cases address with
  | none =>
      refine ⟨Frames.of_all hfree ?_, rfl, rfl⟩
      exact (hall.stamp hp pmIndex x.badvaddr).congr rfl rfl
  | some address => exact ⟨Frames.of_all hfree hall, rfl, rfl, by simp, by simp⟩

theorem evict_sound (h : Frames m pending) (hfull : Implements m.pmSlist pmSlistSize []) :
    Frames m.evict.2.2 True ∧ Allocated m.pidList maxTaskNum m.evict.1 := by
  have hall := h.all_of_full hfull
  have hlt := swapScheduler_lt m
  have howner := hall m.swapScheduler hlt
  have hframe : Allocated m.pmSlist pmSlistSize (m.swapScheduler + 1) :=
    hfull.allocated_of_nil (by omega) (by unfold pmSlistSize; omega)
  refine ⟨Frames.of_all ⟨_, (slistFree_allocated hfull hframe).2.1⟩ (hall.congr rfl rfl), ?_⟩
  change Allocated m.pidList maxTaskNum (m.pmPid m.swapScheduler % 2 ^ 8)
  rwa [Nat.mod_eq_of_lt (live_lt howner)]

theorem modifyPte_cases (m : Machine) (poolNum pageTableNum : Nat) (f : Pte → Pte)
    (slot t : Nat) :
    (m.modifyPte poolNum pageTableNum f).pageTablePool slot t = m.pageTablePool slot t ∨
      (m.modifyPte poolNum pageTableNum f).pageTablePool slot t =
        f (m.pageTablePool poolNum pageTableNum) := by
  unfold modifyPte
  by_cases hslot : slot = poolNum
  · subst hslot
    by_cases ht : t = pageTableNum
    · subst ht
      exact .inr (by simp)
    · exact .inl (by simp [ht])
  · exact .inl (by simp [hslot])

/-- A page gets its first frame. -/
theorem mapFrame_frames (h : Frames m pending) {f : Nat} {rest : List Nat}
    (hfree : Implements m.pmSlist pmSlistSize ((f + 1) :: rest)) {p : Pid}
    (hp : Allocated m.pidList maxTaskNum p) (poolNum pageTableNum badvaddr : Nat) :
    Frames (m.pmAlloc.2.mapFrame p poolNum pageTableNum badvaddr f) pending := by
  obtain ⟨-, himpl, -, -, halloc⟩ := slistAlloc_cons hfree
  have hall : AllOwned m → AllOwned (m.pmAlloc.2.mapFrame p poolNum pageTableNum badvaddr f) :=
    fun ha => (ha.stamp hp f badvaddr).congr rfl rfl
  refine ⟨⟨rest, himpl⟩, ?_, ?_, fun hpending => hall (h.full hpending)⟩
  · intro f' hf'
    change Allocated m.pidList maxTaskNum (Function.update m.pmPid (f : Int) p f')
    by_cases hff : f' = f
    · subst hff
      rw [Function.update_self]
      exact hp
    · rw [Function.update_of_ne (by omega)]
      exact h.owned f' (((halloc (f' + 1)).mp hf').resolve_left (by omega))
  · intro slot t hvalid hpresent
    obtain hsame | hnew := modifyPte_cases (m.pmAlloc.2.stamp f p badvaddr) poolNum pageTableNum
      (fun _ => ⟨frameNumber f, true, true⟩) slot t
    · exact hall (h.swapped slot t (hsame ▸ hvalid) (hsame ▸ hpresent))
    · cases hpresent.symm.trans (congrArg Pte.present hnew)

theorem pmAlloc_free (h : Frames m pending) :
    ∃ free, Implements m.pmAlloc.2.pmSlist pmSlistSize free := by
  obtain ⟨free, hfree⟩ := h.free
  cases free with
  | nil => exact ⟨[], by simpa [pmAlloc, slistAlloc_nil hfree] using hfree⟩
  | cons i free => exact ⟨free, (slistAlloc_cons hfree).2.1⟩

theorem findFrame_full (hfull : Implements m.pmSlist pmSlistSize []) (p : Pid)
    (x : TlbException) (address : Option Nat) (random : Nat) :
    m.findFrame p x address random =
      .post (some m.evict.1) m.evict.2.1 (.swapOut m.evict.1 address x) m.evict.2.2 := by
  have hnone : m.pmAlloc = (-1, m) := by
    unfold pmAlloc
    rw [slistAlloc_nil hfull]
    rfl
  unfold findFrame
  rw [hnone]
  rfl

theorem findFrame_free {f : Nat} {rest : List Nat}
    (hfree : Implements m.pmSlist pmSlistSize ((f + 1) :: rest)) (p : Pid) (x : TlbException)
    (address : Option Nat) (random : Nat) :
    m.findFrame p x address random = m.pmAlloc.2.useFrame p x address f random := by
  have hindex := (slistAlloc_cons hfree).1
  have hpm : m.pmAlloc.1 = f := by
    change ((slistAlloc m.pmSlist).1 : Int) - 1 = f
    omega
  have hne : m.pmAlloc.1 ≠ -1 := by omega
  unfold findFrame
  simp only [hne, if_false]
  rw [hpm]

theorem findFrame_sound (h : Frames m pending) {p : Pid}
    (hp : Allocated m.pidList maxTaskNum p) (x : TlbException) {address : Option Nat}
    (haddress : address.isSome = true → AllOwned m) (random : Nat) :
    (m.findFrame p x address random).Sound m.pidList m.ioTask pending := by
  obtain ⟨free, hfree⟩ := h.free
  cases free with
  | nil =>
      obtain ⟨hframes, hlive⟩ := evict_sound h hfree
      rw [findFrame_full hfree]
      exact ⟨hframes, rfl, rfl, by simp, fun v hv => Option.some.inj hv ▸ hlive⟩
  | cons i free =>
      obtain ⟨f, rfl⟩ : ∃ f, i = f + 1 := by
        have hpos := ((hfree.mem_iff i).mp (by simp)).1
        exact ⟨i - 1, by omega⟩
      rw [findFrame_free hfree]
      cases address with
      | none =>
          have hframes := mapFrame_frames h hfree hp x.poolNum x.pageTableNum x.badvaddr
          exact ⟨hframes.mono rfl rfl rfl fun _ => id, rfl, rfl⟩
      | some address =>
          exact useFrame_sound (pmAlloc_free h) ((haddress rfl).congr rfl rfl) hp x _ _ random

/-- An entry that is valid after `page_table_init` is not of the table that was cleared. -/
theorem pageTableInit_valid {pool : Nat → Nat → Pte} {poolNum slot t : Nat}
    (hvalid : (Function.update pool poolNum (pageTableInit (pool poolNum)) slot t).valid = true) :
    Function.update pool poolNum (pageTableInit (pool poolNum)) slot t = pool slot t := by
  by_cases hslot : slot = poolNum
  · subst hslot
    rw [Function.update_self] at hvalid ⊢
    unfold pageTableInit at hvalid ⊢
    split at hvalid
    · cases hvalid
    · rename_i ht
      rw [if_neg ht]
  · rw [Function.update_of_ne hslot]

theorem pageTableOf_frames (h : Frames m pending) (p : Pid) (pageDirNum : Nat) :
    Meets IsPanic
      (fun s => Frames s.2 pending ∧ s.2.pidList = m.pidList ∧ s.2.ioTask = m.ioTask)
      (m.pageTableOf p pageDirNum) := by
  unfold pageTableOf
  split
  · exact ⟨h, rfl, rfl⟩
  · dsimp only
    split
    · trivial
    · refine ⟨⟨h.free, h.owned, ?_, fun hpending => (h.full hpending).congr rfl rfl⟩, rfl, rfl⟩
      intro slot t hvalid hpresent
      have hold : Function.update m.pageTablePool m.ptPoolAlloc.1.toNat
          (pageTableInit (m.pageTablePool m.ptPoolAlloc.1.toNat)) slot t =
            m.pageTablePool slot t := pageTableInit_valid hvalid
      refine (h.swapped slot t ?_ ?_).congr rfl rfl
      · rw [← hold]
        exact hvalid
      · rw [← hold]
        exact hpresent

theorem beginException_sound (h : Frames m pending) {p : Pid}
    (hp : Allocated m.pidList maxTaskNum p) (va random : Nat) :
    Meets IsPanic (Progress.Sound m.pidList m.ioTask pending) (m.beginException p va random) := by
  unfold beginException
  dsimp only
  refine (pageTableOf_frames h p (va >>> 22)).bind fun s hs => ?_
  obtain ⟨poolNum, m₁⟩ := s
  obtain ⟨hframes, hpids, hslot⟩ := hs
  dsimp only at hframes hpids hslot ⊢
  rw [← hpids] at hp ⊢
  rw [← hslot]
  split
  · rename_i hvalid
    split
    · exact ⟨⟨hframes.free, hframes.owned, hframes.swapped, hframes.full⟩, rfl, rfl⟩
    · rename_i hpresent
      refine findFrame_sound hframes hp _ (fun _ => ?_) random
      exact hframes.swapped _ _ hvalid (by simpa using hpresent)
  · exact findFrame_sound hframes hp _ (by simp) random

theorem continueException_sound (h : Frames m True) {p : Pid}
    (hp : Allocated m.pidList maxTaskNum p) (random : Nat) {pc : SwapPc} (hpc : pc ≠ .user) :
    (m.continueException p random pc).Sound m.pidList m.ioTask True := by
  have hall := h.full trivial
  cases pc with
  | user => exact absurd rfl hpc
  | swapOut pid address x =>
      exact useFrame_sound (pmAlloc_free h) (hall.congr rfl rfl) hp x _ _ random
  | swapIn address pmIndex x =>
      exact ⟨Frames.of_all h.free ((hall.stamp hp pmIndex x.badvaddr).congr rfl rfl), rfl, rfl⟩

/-! ## Filling the memory -/

/-- An exception for a page that has never been touched. -/
theorem beginException_invalid {m₁ : Machine} {p : Pid} {va d t slot : Nat}
    (hd : va >>> 22 = d) (ht : (va >>> 13) &&& 0x1ff = t)
    (htable : m.pageTableOf p d = .ok (slot, m₁))
    (hentry : (m₁.pageTablePool slot t).valid = false) (random : Nat) :
    m.beginException p va random =
      .ok (m₁.findFrame p ⟨va, entryHiOf p va, (tlbp m.tlb (entryHiOf p va)).isNone, slot, t⟩
        none random) := by
  unfold beginException
  dsimp only
  rw [hd, ht, htable, ok_bind]
  dsimp only
  rw [hentry, if_neg (by simp)]
  rfl

/-- The task `p` has touched its first `n` pages, and no other task has touched any. -/
structure Touched (m : Machine) (p : Pid) (n : Nat) : Prop where
  free : Implements m.pmSlist pmSlistSize (List.range' (n + 1) (2048 - n))
  owner : ∀ f : Nat, f < n → m.pmPid f = p
  slots : ∃ slots, Implements m.ptPoolSlist pageTablePoolSlistSize slots ∧
    slots.length + (n + 511) / 512 = 20
  dirs : ∀ d, (m.pageDir p d).valid = true ↔ d < (n + 511) / 512
  entries : ∀ i, n ≤ i → (m.pageDir p (i / 512)).valid = true →
    (m.pageTablePool (m.pageDir p (i / 512)).poolNum (i % 512)).valid = false
  others : ∀ q d, q ≠ p → (m.pageDir q d).valid = false

/-- The page table of the next page, which is new for every 512th page. -/
theorem Touched.pageTable {p : Pid} {n : Nat} (h : Touched m p n) (hn : n ≤ 2048) :
    ∃ m₁, m.pageTableOf p (n / 512) = .ok ((m₁.pageDir p (n / 512)).poolNum, m₁) ∧
      Implements m₁.pmSlist pmSlistSize (List.range' (n + 1) (2048 - n)) ∧
      m₁.pmPid = m.pmPid ∧ m₁.timeElapsed = m.timeElapsed ∧
      (∃ slots, Implements m₁.ptPoolSlist pageTablePoolSlistSize slots ∧
        slots.length + (n + 512) / 512 = 20) ∧
      (∀ d, (m₁.pageDir p d).valid = true ↔ d < (n + 512) / 512) ∧
      (∀ i, n ≤ i → (m₁.pageDir p (i / 512)).valid = true →
        (m₁.pageTablePool (m₁.pageDir p (i / 512)).poolNum (i % 512)).valid = false) ∧
      ∀ q d, q ≠ p → (m₁.pageDir q d).valid = false := by
  by_cases hvalid : (m.pageDir p (n / 512)).valid = true
  · have hlt := (h.dirs (n / 512)).mp hvalid
    have hcount : (n + 512) / 512 = (n + 511) / 512 := by omega
    refine ⟨m, pageTableOf_old hvalid, h.free, rfl, rfl, ?_, ?_, h.entries, h.others⟩
    · rw [hcount]
      exact h.slots
    · rw [hcount]
      exact h.dirs
  · have hge : ¬ n / 512 < (n + 511) / 512 := fun hlt => hvalid ((h.dirs _).mpr hlt)
    have hinvalid : (m.pageDir p (n / 512)).valid = false := by simpa using hvalid
    obtain ⟨slots, hslots, hlength⟩ := h.slots
    cases slots with
    | nil =>
        rw [List.length_nil] at hlength
        omega
    | cons i rest =>
        obtain ⟨slot, rfl⟩ : ∃ slot, i = slot + 1 := by
          have hpos := ((hslots.mem_iff i).mp (by simp)).1
          exact ⟨i - 1, by omega⟩
        rw [List.length_cons] at hlength
        have hself : (newTable m p (n / 512) slot).pageDir p (n / 512) = ⟨slot, true⟩ := by
          simp [newTable]
        have hother : ∀ q d, ¬ (q = p ∧ d = n / 512) →
            (newTable m p (n / 512) slot).pageDir q d = m.pageDir q d := by
          intro q d hne
          rcases newTable_pageDir (m := m) (p := p) (d := n / 512) slot q d with h₁ | h₁
          · exact absurd ⟨h₁.1, h₁.2.1⟩ hne
          · exact h₁.2
        refine ⟨newTable m p (n / 512) slot, ?_, h.free, rfl, rfl,
          ⟨rest, (slistAlloc_cons hslots).2.1, by omega⟩, ?_, ?_, ?_⟩
        · rw [pageTableOf_new hinvalid hslots, hself]
        · intro d
          by_cases hd : d = n / 512
          · rw [hd, hself]
            simp only [true_iff]
            omega
          · rw [hother p d fun he => hd he.2, h.dirs d]
            omega
        · intro i hi hdir
          by_cases hd : i / 512 = n / 512
          · rw [hd, hself]
            simp only [newTable, Function.update_self]
            unfold pageTableInit pteNumber
            rw [if_pos (Nat.mod_lt i (by decide))]
          · rw [hother p _ fun he => hd he.2] at hdir
            have hlt := (h.dirs _).mp hdir
            omega
        · intro q d hq
          rw [hother q d fun he => hq he.1]
          exact h.others q d hq

theorem page_dir (i : Nat) : (i * 0x2000) >>> 22 = i / 512 := by
  rw [Nat.shiftRight_eq_div_pow]
  omega

theorem page_table (i : Nat) : (i * 0x2000) >>> 13 &&& 0x1ff = i % 512 := by
  rw [Nat.shiftRight_eq_div_pow, show i * 0x2000 / 2 ^ 13 = i by omega]
  exact Word.and_low i 9

theorem Touched.next {p : Pid} {n : Nat} (h : Touched m p n) (hn : n < 2048) (random : Nat) :
    ∃ m', m.beginException p (n * 0x2000) random = .ok (.done m') ∧ Touched m' p (n + 1) ∧
      m'.timeElapsed = m.timeElapsed := by
  obtain ⟨m₁, htable, hfree, howner, htime, hslots, hdirs, hentries, hothers⟩ :=
    h.pageTable (by omega)
  have hrange : List.range' (n + 1) (2048 - n) = (n + 1) :: List.range' (n + 2) (2047 - n) := by
    rw [show 2048 - n = 2047 - n + 1 by omega, List.range'_succ]
  have hdir : (m₁.pageDir p (n / 512)).valid = true := (hdirs _).mpr (by omega)
  have hentry := hentries n (le_refl n) hdir
  rw [hrange] at hfree
  have hbegin := beginException_invalid (page_dir n) (page_table n) htable hentry random
  rw [findFrame_free hfree] at hbegin
  refine ⟨_, hbegin, ⟨?_, ?_, ?_, ?_, ?_, ?_⟩, htime⟩
  · have himpl := (slistAlloc_cons hfree).2.1
    rw [show 2048 - (n + 1) = 2047 - n by omega]
    exact himpl
  · intro f hf
    change Function.update m₁.pmPid (n : Int) p f = p
    by_cases hfn : f = n
    · rw [hfn, Function.update_self]
    · rw [Function.update_of_ne (by omega), howner]
      exact h.owner f (by omega)
  · exact hslots
  · exact hdirs
  · intro i hi hvalid
    change (m₁.pageDir p (i / 512)).valid = true at hvalid
    have hlt := (hdirs _).mp hvalid
    have hsame : i / 512 = n / 512 := by omega
    have hne : i % 512 ≠ n % 512 := by omega
    have hold := hentries i (by omega) hvalid
    rw [hsame] at hold ⊢
    change (Function.update m₁.pageTablePool (m₁.pageDir p (n / 512)).poolNum
      (Function.update (m₁.pageTablePool (m₁.pageDir p (n / 512)).poolNum) (n % 512) _)
      (m₁.pageDir p (n / 512)).poolNum (i % 512)).valid = false
    rw [Function.update_self, Function.update_of_ne hne]
    exact hold
  · exact hothers

end UcasOs.Mm
