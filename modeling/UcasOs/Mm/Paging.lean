import UcasOs.Foundation.Outcome
import UcasOs.Foundation.Run
import UcasOs.Mm.PageMap
import UcasOs.Sched.Table

/-!
# Paging keeps its five views in agreement

The page directories, the page tables, the frame list with its reverse map, the
swap units and the TLB agree in every state between two exceptions.  `Moved`
says what an eviction in the middle of an exception may change.
-/

namespace UcasOs.Mm

open UcasOs.Foundation UcasOs.Libs UcasOs.Sched Machine

/-- What the page tables say of a page. -/
def Machine.look (m : Machine) (page : Page) : Option Pte :=
  let pde := m.pageDir page.pid page.dir
  let pte := m.pageTablePool pde.poolNum page.table
  if pde.valid = true ∧ page.table < pteNumber ∧ pte.valid = true then some pte else none

/-- The page that the reverse map names for a frame. -/
def Machine.owner (m : Machine) (f : Nat) : Page := pageOf (m.pmPid f) (m.pmVpn f)

/-- The byte of a page, in its frame or in its swap unit. -/
def Machine.content (m : Machine) (page : Page) (offset : Nat) : Option UInt8 :=
  (m.look page).map fun pte =>
    if pte.present then m.memory (pte.addr <<< 12 + offset) else m.sd (pte.addr + offset)

/-- The page table slots handed out are those of the valid directory entries. -/
structure Dirs (m : Machine) : Prop where
  pids : ∃ free, Implements m.pidList maxTaskNum free
  slots : ∃ free, Implements m.ptPoolSlist pageTablePoolSlistSize free
  pde_live : ∀ {p d}, (m.pageDir p d).valid = true →
    Allocated m.pidList maxTaskNum p ∧ d < pdeNumber
  pde_slot : ∀ {p d}, (m.pageDir p d).valid = true →
    Allocated m.ptPoolSlist pageTablePoolSlistSize ((m.pageDir p d).poolNum + 1)
  pde_inj : ∀ {p d p' d'}, (m.pageDir p d).valid = true → (m.pageDir p' d').valid = true →
    (m.pageDir p d).poolNum = (m.pageDir p' d').poolNum → p = p' ∧ d = d'
  slot_used : ∀ {s}, Allocated m.ptPoolSlist pageTablePoolSlistSize (s + 1) →
    ∃ p d, (m.pageDir p d).valid = true ∧ (m.pageDir p d).poolNum = s

/-- The invariant, for a frame `r` that is taken and not yet mapped. -/
structure Paging (m : Machine) (r : Option Nat) : Prop where
  dirs : Dirs m
  frames : FrameMap m.look m.pmSlist m.owner r
  units : UnitMap m.look m.swapAreaSlist m.swapExhausted
  tlb : TlbMap m.look m.tlb

section

variable {m m' : Machine} {r : Option Nat} {page : Page} {pte : Pte} {p d t : Nat}

theorem Machine.look_eq_some :
    m.look page = some pte ↔ (m.pageDir page.pid page.dir).valid = true ∧
      page.table < pteNumber ∧ pte.valid = true ∧
      m.pageTablePool (m.pageDir page.pid page.dir).poolNum page.table = pte := by
  unfold Machine.look
  dsimp only
  split
  · rename_i h
    rw [Option.some.injEq]
    constructor
    · rintro rfl
      exact ⟨h.1, h.2.1, h.2.2, rfl⟩
    · exact fun h' => h'.2.2.2
  · rename_i h
    constructor
    · intro h'
      cases h'
    · rintro ⟨h₁, h₂, h₃, rfl⟩
      exact absurd ⟨h₁, h₂, h₃⟩ h

theorem Machine.look_congr (hdir : m'.pageDir = m.pageDir)
    (hpool : m'.pageTablePool = m.pageTablePool) : m'.look = m.look := by
  funext page
  unfold Machine.look
  rw [hdir, hpool]

theorem Dirs.congr (h : Dirs m) (hpids : m'.pidList = m.pidList)
    (hslots : m'.ptPoolSlist = m.ptPoolSlist) (hdir : m'.pageDir = m.pageDir) : Dirs m' := by
  obtain ⟨h₁, h₂, h₃, h₄, h₅, h₆⟩ := h
  exact ⟨hpids ▸ h₁, hslots ▸ h₂, hpids ▸ hdir ▸ h₃, hslots ▸ hdir ▸ h₄, hdir ▸ h₅,
    hslots ▸ hdir ▸ h₆⟩

/-- A page of a valid directory entry is live and below `2^31`. -/
theorem Dirs.look_live (h : Dirs m) (hlook : m.look page = some pte) :
    Allocated m.pidList maxTaskNum page.pid ∧ page.dir < pdeNumber :=
  h.pde_live (Machine.look_eq_some.mp hlook).1

/-- A write to a page table is a write to `look`, since no other page has its slot. -/
theorem Dirs.look_modifyPte (h : Dirs m) (hvalid : (m.pageDir p d).valid = true)
    (ht : t < pteNumber) {f : Pte → Pte}
    (hf : (f (m.pageTablePool (m.pageDir p d).poolNum t)).valid = true) :
    (m.modifyPte (m.pageDir p d).poolNum t f).look =
      Function.update m.look ⟨p, d, t⟩
        (some (f (m.pageTablePool (m.pageDir p d).poolNum t))) := by
  funext page
  by_cases hpage : page = ⟨p, d, t⟩
  · subst hpage
    rw [Function.update_self, Machine.look_eq_some]
    exact ⟨hvalid, ht, hf, by simp [modifyPte]⟩
  · rw [Function.update_of_ne hpage]
    unfold Machine.look
    dsimp only [modifyPte]
    by_cases hdir : (m.pageDir page.pid page.dir).valid = true
    · have hcell : Function.update m.pageTablePool (m.pageDir p d).poolNum
          (Function.update (m.pageTablePool (m.pageDir p d).poolNum) t
            (f (m.pageTablePool (m.pageDir p d).poolNum t)))
          (m.pageDir page.pid page.dir).poolNum page.table =
          m.pageTablePool (m.pageDir page.pid page.dir).poolNum page.table := by
        by_cases hslot : (m.pageDir page.pid page.dir).poolNum = (m.pageDir p d).poolNum
        · obtain ⟨hp, hd⟩ := h.pde_inj hdir hvalid hslot
          have htable : page.table ≠ t := by
            rintro rfl
            exact hpage (by rw [← hp, ← hd])
          rw [hslot, Function.update_self, Function.update_of_ne htable]
        · rw [Function.update_of_ne hslot]
      rw [hcell]
    · simp [hdir]

theorem tlbp_setTlbInvalid (tlb : Nat → TlbEntry) (entryHi : Nat) :
    tlbp (setTlbInvalid tlb entryHi) = tlbp tlb := by
  funext hi
  unfold setTlbInvalid
  cases hfound : tlbp tlb entryHi with
  | none => rfl
  | some index =>
      dsimp only
      have hhit : (tlb index).hit entryHi = true := by simpa using List.find?_some hfound
      simp only [TlbEntry.hit, Bool.and_eq_true, beq_iff_eq] at hhit
      unfold tlbp
      congr 1
      funext i
      by_cases hi : i = index
      · rw [hi, Function.update_self]
        simp [TlbEntry.hit, hhit.1, hhit.2]
      · rw [Function.update_of_ne hi]

/-! ## Eviction -/

theorem swapScheduler_lt (m : Machine) : m.swapScheduler < 2048 := by
  unfold swapScheduler pmSlistSize
  omega

/-- What may have changed after a frame has been found, by eviction or without. -/
structure Moved (m m' : Machine) : Prop where
  pidList : m'.pidList = m.pidList
  pageDir : m'.pageDir = m.pageDir
  tlbp : tlbp m'.tlb = tlbp m.tlb
  out : ∀ {page}, (∀ pte, m.look page = some pte → pte.present = false) →
    m'.look page = m.look page
  exhausted : m.swapExhausted = true → m'.swapExhausted = true
  content : m'.swapExhausted = false → ∀ page offset, offset < swapAreaUintSize →
    m'.content page offset = m.content page offset

/-- The entry of the evicted page. -/
private def evicted (m : Machine) (pte : Pte) : Pte :=
  { pte with
    present := false
    addr := u32 (swapAreaBase + (((slistAlloc m.swapAreaSlist).1 : Int) - 1) * swapAreaUintSize) }

/-- The conversion to `uint8_t` in `swap_out` keeps the pid. -/
private theorem owner_pid {f : Nat} (h : Dirs m) (hlook : m.look (m.owner f) = some pte) :
    m.pmPid f % 2 ^ 8 = m.pmPid f := by
  have hlt : m.pmPid f < maxTaskNum := (h.look_live hlook).1.2.1
  unfold maxTaskNum at hlt
  omega

private theorem evict_look (h : Dirs m) (hlook : m.look (m.owner m.swapScheduler) = some pte) :
    m.evict.2.2.look =
      Function.update m.look (m.owner m.swapScheduler) (some (evicted m pte)) := by
  obtain ⟨hvalid, htable, hpte, hcell⟩ := Machine.look_eq_some.mp hlook
  have hmodify := h.look_modifyPte (f := evicted m) hvalid htable (by rw [hcell]; exact hpte)
  rw [hcell] at hmodify
  rw [← hmodify]
  refine Machine.look_congr rfl ?_
  change _ = (m.modifyPte (m.pageDir (m.pmPid m.swapScheduler) _).poolNum _ _).pageTablePool
  rw [← owner_pid h hlook]
  rfl

/-- The page of the chosen frame goes out. -/
theorem evict_out (h : Dirs m) (hlook : m.look (m.owner m.swapScheduler) = some pte) :
    ∃ out : Pte, out.present = false ∧
      m.evict.2.2.look = Function.update m.look (m.owner m.swapScheduler) (some out) :=
  ⟨evicted m pte, rfl, evict_look h hlook⟩

private theorem swapOut_look (h : Paging m none)
    (hlook : m.look (m.owner m.swapScheduler) = some pte) :
    m.swapOut.look =
      Function.update m.look (m.owner m.swapScheduler) (some (evicted m pte)) :=
  (Machine.look_congr rfl rfl).trans (evict_look h.dirs hlook)

/-- When every frame is taken, the frame that `swap_scheduler` names holds a page. -/
private theorem victim (h : Paging m none) (hfull : Implements m.pmSlist pmSlistSize []) :
    Allocated m.pmSlist pmSlistSize (m.swapScheduler + 1) ∧
      ∃ pte, m.look (m.owner m.swapScheduler) = some pte ∧ pte.present = true ∧
        pte.addr = frameNumber m.swapScheduler := by
  have hlt := swapScheduler_lt m
  have hframe : Allocated m.pmSlist pmSlistSize (m.swapScheduler + 1) :=
    hfull.allocated_of_nil (by omega) (by unfold pmSlistSize; omega)
  exact ⟨hframe, h.frames.owned hframe (by simp)⟩

theorem swapOut_paging (h : Paging m none) (hfull : Implements m.pmSlist pmSlistSize []) :
    Paging m.swapOut none ∧
      Implements m.swapOut.pmSlist pmSlistSize [m.swapScheduler + 1] := by
  obtain ⟨hframe, pte, hlook, hpresent, -⟩ := victim h hfull
  have hva : m.pmVpn m.swapScheduler < 2 ^ 31 := by
    rw [← pageOf_dir_lt_iff (m.pmPid m.swapScheduler)]
    exact (h.dirs.look_live hlook).2
  have heq := swapOut_look h hlook
  refine ⟨⟨h.dirs.congr rfl rfl rfl, ?_, ?_, ?_⟩, ?_⟩
  · rw [heq]
    exact h.frames.evict hframe rfl
  · rw [heq]
    refine h.units.evict (fun pte' hlook' => ?_) rfl rfl
    rw [hlook] at hlook'
    cases hlook'
    exact hpresent
  · have htlb := h.tlb.evict (evicted m pte) hva
      (Nat.mod_lt (m.pmPid m.swapScheduler) (by decide : 0 < 2 ^ 8))
    rw [heq, Machine.owner, ← owner_pid h.dirs hlook]
    exact htlb
  · exact (slistFree_allocated hfull hframe).2.1

theorem frame_address {f : Nat} (hf : f < 2048) :
    frameNumber f <<< 12 = pmBase + f * pmScheSize := by
  rw [frameNumber_eq hf, Nat.shiftLeft_eq]
  unfold pmBase pmScheSize
  omega

/-- Unless the swap area is exhausted, the evicted page goes to a unit that was free. -/
private theorem evicted_unit (h : Paging m none) (hex : m.swapOut.swapExhausted = false) :
    m.swapExhausted = false ∧ ∃ u, ¬ Allocated m.swapAreaSlist swapAreaSize (u + 1) ∧
      ∀ pte, (evicted m pte).addr = unitAddress u := by
  have hor : (m.swapExhausted || (slistAlloc m.swapAreaSlist).1 == 0) = false := hex
  rw [Bool.or_eq_false_iff, beq_eq_false_iff_ne] at hor
  refine ⟨hor.1, ?_⟩
  obtain ⟨free, hfree⟩ := h.units.impl
  cases free with
  | nil =>
      rw [slistAlloc_nil hfree] at hor
      exact absurd rfl hor.2
  | cons i free =>
      obtain ⟨hi, -, hpos, hlt, -⟩ := slistAlloc_cons hfree
      obtain ⟨u, rfl⟩ : ∃ u, i = u + 1 := ⟨i - 1, by omega⟩
      refine ⟨u, ?_, fun pte => ?_⟩
      · exact hfree.not_allocated (by simp)
      · have hu : u < 1024 := by
          unfold swapAreaSize at hlt
          omega
        rw [evicted, hi]
        exact u32_unit hu

private theorem swapOut_sd (m : Machine) (pte : Pte) (a : Nat) :
    m.swapOut.sd a =
      if (evicted m pte).addr ≤ a ∧ a < (evicted m pte).addr + swapAreaUintSize then
        m.memory (pmBase + m.swapScheduler * pmScheSize + (a - (evicted m pte).addr))
      else m.sd a := by
  rw [← unmapped_kernelAddress (swapScheduler_lt m)]
  rfl

private theorem swapOut_content (h : Paging m none)
    (hfull : Implements m.pmSlist pmSlistSize []) (hex : m.swapOut.swapExhausted = false)
    (page : Page) {offset : Nat} (hoffset : offset < swapAreaUintSize) :
    m.swapOut.content page offset = m.content page offset := by
  obtain ⟨-, pte, hlook, hpresent, haddr⟩ := victim h hfull
  obtain ⟨hex₀, u, hfresh, hunit⟩ := evicted_unit h hex
  unfold Machine.content
  rw [swapOut_look h hlook]
  by_cases hpage : page = m.owner m.swapScheduler
  · rw [hpage, Function.update_self, hlook]
    have hout : (evicted m pte).present = false := rfl
    simp only [Option.map_some, hout, hpresent, Bool.false_eq_true, if_true, if_false,
      swapOut_sd m pte, Nat.le_add_right, Nat.add_lt_add_iff_left, hoffset, true_and,
      Nat.add_sub_cancel_left]
    rw [haddr, frame_address (swapScheduler_lt m)]
  · rw [Function.update_of_ne hpage]
    cases hpte : m.look page with
    | none => rfl
    | some pte' =>
        cases hpresent' : pte'.present with
        | true =>
            simp only [Option.map_some, hpresent', if_true]
            rfl
        | false =>
            -- The page lies in another unit.
            obtain ⟨-, hbad⟩ | ⟨u', ha', hu'⟩ := h.units.swapped hpte hpresent'
            · rw [hex₀] at hbad
              cases hbad
            · have hne : u' ≠ u := by
                rintro rfl
                exact hfresh ha'
              simp only [Option.map_some, hpresent', Bool.false_eq_true, if_false,
                swapOut_sd m pte, hu', hunit]
              rw [if_neg]
              unfold unitAddress swapAreaUintSize at *
              omega

theorem swapOut_moved (h : Paging m none) (hfull : Implements m.pmSlist pmSlistSize []) :
    Moved m m.swapOut := by
  obtain ⟨-, pte, hlook, hpresent, -⟩ := victim h hfull
  refine ⟨rfl, rfl, tlbp_setTlbInvalid _ _, ?_, ?_, ?_⟩
  · intro page hout
    have hpage : page ≠ m.owner m.swapScheduler := by
      rintro rfl
      rw [hout pte hlook] at hpresent
      cases hpresent
    rw [swapOut_look h hlook, Function.update_of_ne hpage]
  · intro hex
    change (m.swapExhausted || _) = true
    rw [hex, Bool.true_or]
  · exact fun hex page offset hoffset => swapOut_content h hfull hex page hoffset

/-! ## Finding a frame -/

theorem Moved.trans {m'' : Machine} (h : Moved m m') (h' : Moved m' m'') : Moved m m'' := by
  refine ⟨h'.pidList.trans h.pidList, h'.pageDir.trans h.pageDir, h'.tlbp.trans h.tlbp, ?_,
    fun hex => h'.exhausted (h.exhausted hex), ?_⟩
  · intro page hout
    have hsame := h.out hout
    rw [← hsame]
    exact h'.out (by rwa [hsame])
  · intro hex page offset hoffset
    have hex' : m'.swapExhausted = false := by
      by_contra hne
      rw [h'.exhausted (by simpa using hne)] at hex
      cases hex
    rw [h'.content hex page offset hoffset, h.content hex' page offset hoffset]

theorem pmAlloc_spec {f : Nat} {free : List Nat} (h : Paging m none)
    (hfree : Implements m.pmSlist pmSlistSize ((f + 1) :: free)) :
    m.pmAlloc.1 = f ∧ Paging m.pmAlloc.2 (some f) ∧ Moved m m.pmAlloc.2 := by
  refine ⟨?_, ⟨h.dirs.congr rfl rfl rfl, h.frames.alloc hfree, h.units, h.tlb⟩, ?_⟩
  · have hindex := (slistAlloc_cons hfree).1
    change ((slistAlloc m.pmSlist).1 : Int) - 1 = f
    rw [hindex]
    omega
  · exact ⟨rfl, rfl, rfl, fun _ => rfl, id, fun _ _ _ _ => rfl⟩

/-- A frame is always found, and it is in no page. -/
theorem pmAllocSwapping_spec (h : Paging m none) :
    ∃ f : Nat, m.pmAllocSwapping.1 = f ∧ Paging m.pmAllocSwapping.2 (some f) ∧
      Moved m m.pmAllocSwapping.2 := by
  obtain ⟨free, hfree⟩ := h.frames.impl
  unfold pmAllocSwapping
  cases free with
  | nil =>
      have hnone : m.pmAlloc = (-1, m) := by
        unfold pmAlloc
        rw [slistAlloc_nil hfree]
        rfl
      obtain ⟨hpaging, hfree'⟩ := swapOut_paging h hfree
      obtain ⟨hindex, hpaging', hmoved⟩ := pmAlloc_spec hpaging hfree'
      rw [hnone]
      exact ⟨_, hindex, hpaging', (swapOut_moved h hfree).trans hmoved⟩
  | cons i free =>
      obtain ⟨f, rfl⟩ : ∃ f, i = f + 1 := by
        have := ((hfree.mem_iff i).mp (by simp)).1
        exact ⟨i - 1, by omega⟩
      obtain ⟨hindex, hpaging, hmoved⟩ := pmAlloc_spec h hfree
      have hne : m.pmAlloc.1 ≠ -1 := by
        rw [hindex]
        omega
      simp only [hne, if_false]
      exact ⟨f, hindex, hpaging, hmoved⟩

/-! ## Bringing a page in -/

/-- What an exception for the page leaves. -/
structure Served (page : Page) (m m' : Machine) : Prop where
  paging : Paging m' none
  pidList : m'.pidList = m.pidList
  pageDir : m'.pageDir = m.pageDir
  tlbp : tlbp m'.tlb = tlbp m.tlb
  present : ∃ pte, m'.look page = some pte ∧ pte.present = true
  exhausted : m.swapExhausted = true → m'.swapExhausted = true
  content : m'.swapExhausted = false → ∀ page offset byte, offset < swapAreaUintSize →
    m.content page offset = some byte → m'.content page offset = some byte

variable {va f : Nat}

theorem stamp_owner (hva : va < 2 ^ 31) :
    (m.stamp f p va).owner = Function.update m.owner f (pageOf p va) := by
  funext f'
  unfold Machine.owner stamp
  dsimp only
  by_cases hf : f' = f
  · rw [hf, Function.update_self, Function.update_self, Function.update_self, pageOf_vpn hva]
  · have hint : (f' : Int) ≠ f := by exact_mod_cast hf
    rw [Function.update_of_ne hf, Function.update_of_ne hint, Function.update_of_ne hint]

/-- The reserved frame is mapped, once the units are settled. -/
private theorem Paging.place (h : Paging m (some f)) (hout : ∀ pte, m.look page = some pte →
    pte.present = false) (hpids : m'.pidList = m.pidList) (hslots : m'.ptPoolSlist = m.ptPoolSlist)
    (hdir : m'.pageDir = m.pageDir) (hpm : m'.pmSlist = m.pmSlist) (htlb : m'.tlb = m.tlb)
    (howner : m'.owner = Function.update m.owner f page)
    (hlook : m'.look = Function.update m.look page (some ⟨frameNumber f, true, true⟩))
    (hunits : UnitMap m'.look m'.swapAreaSlist m'.swapExhausted) : Paging m' none := by
  refine ⟨h.dirs.congr hpids hslots hdir, ?_, hunits, ?_⟩
  · rw [hlook, hpm, howner]
    exact h.frames.place hout
  · rw [hlook, htlb]
    exact h.tlb.place hout _

private theorem pageIn_new {m₁ : Machine} (hpaging : Paging m₁ (some f)) (hmoved : Moved m m₁)
    (hva : va < 2 ^ 31) (hdir : (m.pageDir p (va >>> 22)).valid = true)
    (hnone : m.look (pageOf p va) = none) :
    Served (pageOf p va) m ((m₁.stamp f p va).modifyPte
      (m.pageDir p (va >>> 22)).poolNum ((va >>> 13) &&& 0x1ff)
        fun _ => ⟨frameNumber f, true, true⟩) := by
  have hnone₁ : m₁.look (pageOf p va) = none := by
    rw [hmoved.out (by simp [hnone]), hnone]
  rw [← hmoved.pageDir] at hdir ⊢
  have hlook : ((m₁.stamp f p va).modifyPte (m₁.pageDir p (va >>> 22)).poolNum
      ((va >>> 13) &&& 0x1ff) fun _ => ⟨frameNumber f, true, true⟩).look =
      Function.update m₁.look (pageOf p va) (some ⟨frameNumber f, true, true⟩) :=
    (Machine.look_congr rfl rfl).trans
      (hpaging.dirs.look_modifyPte hdir (pageOf_table_lt p va)
        (f := fun _ => ⟨frameNumber f, true, true⟩) rfl)
  refine ⟨hpaging.place (by simp [hnone₁]) rfl rfl rfl rfl rfl (stamp_owner hva) hlook ?_,
    hmoved.pidList, hmoved.pageDir, hmoved.tlbp, ?_, hmoved.exhausted, ?_⟩
  · exact hlook ▸ hpaging.units.place_new hnone₁ rfl
  · exact ⟨_, by rw [hlook]; exact Function.update_self _ _ _, rfl⟩
  · intro hex page offset byte hoffset hbyte
    rw [← hmoved.content hex page offset hoffset] at hbyte
    have hpage : page ≠ pageOf p va := by
      rintro rfl
      simp [Machine.content, hnone₁] at hbyte
    unfold Machine.content at hbyte ⊢
    rw [hlook]
    exact (congrArg _ (Function.update_of_ne hpage _ _)).trans hbyte

/-- A page keeps its bytes when its unit is copied into the reserved frame. -/
private theorem content_read {m₁ m₂ : Machine} {old : Pte} (hpaging : Paging m₁ (some f))
    (hlook₁ : m₁.look page = some old) (hold : old.present = false)
    (hlook₂ : m₂.look = Function.update m₁.look page (some ⟨frameNumber f, true, true⟩))
    (hmemory : ∀ a, m₂.memory a =
      if pmBase + f * pmScheSize ≤ a ∧ a < pmBase + f * pmScheSize + swapAreaUintSize then
        m₁.sd (old.addr + (a - (pmBase + f * pmScheSize))) else m₁.memory a)
    (hsd : m₂.sd = m₁.sd) (page' : Page) {offset : Nat} (hoffset : offset < swapAreaUintSize) :
    m₂.content page' offset = m₁.content page' offset := by
  have hf : f < 2048 := frame_lt (hpaging.frames.reserved rfl)
  unfold Machine.content
  rw [hlook₂]
  by_cases hpage : page' = page
  · rw [hpage, Function.update_self, hlook₁]
    simp only [Option.map_some, hold, Bool.false_eq_true, if_true, if_false, frame_address hf,
      hmemory, Nat.le_add_right, Nat.add_lt_add_iff_left, hoffset, true_and,
      Nat.add_sub_cancel_left]
  · rw [Function.update_of_ne hpage]
    cases hpte : m₁.look page' with
    | none => rfl
    | some pte =>
        cases hpresent : pte.present with
        | false => simp only [Option.map_some, hpresent, Bool.false_eq_true, if_false, hsd]
        | true =>
            -- The page lies in another frame.
            obtain ⟨f', hne, ha, haddr, -⟩ := hpaging.frames.mapped hpte hpresent
            have hne' : f' ≠ f := fun he => hne (by rw [he])
            simp only [Option.map_some, hpresent, if_true, haddr, frame_address (frame_lt ha),
              hmemory]
            rw [if_neg]
            unfold pmScheSize swapAreaUintSize at *
            omega

/-- The content of a swap unit is read into the reserved frame and the page mapped there. -/
private theorem pageIn_swapped {m₁ : Machine} {old : Pte} (hpaging : Paging m₁ (some f))
    (hmoved : Moved m m₁) (hva : va < 2 ^ 31)
    (hdir : (m.pageDir p (va >>> 22)).valid = true) (hlook : m.look (pageOf p va) = some old)
    (hold : old.present = false) :
    Served (pageOf p va) m (((((m₁.post ⟨.read, kernelAddress (physicalAddress f), old.addr,
      swapAreaUintSize⟩).swapAreaFree old.addr).modifyPte (m.pageDir p (va >>> 22)).poolNum
        ((va >>> 13) &&& 0x1ff) fun pte =>
          { pte with addr := frameNumber f, present := true })).stamp f p va) := by
  have hout : ∀ pte, m.look (pageOf p va) = some pte → pte.present = false := by
    intro pte hpte
    rw [hlook] at hpte
    cases hpte
    exact hold
  have hlook₁ : m₁.look (pageOf p va) = some old := by rw [hmoved.out hout, hlook]
  have hout₁ : ∀ pte, m₁.look (pageOf p va) = some pte → pte.present = false := by
    rwa [hmoved.out hout]
  obtain ⟨-, -, holdvalid, hcell⟩ := Machine.look_eq_some.mp hlook₁
  rw [← hmoved.pageDir] at hdir ⊢
  generalize hm₂ : Machine.stamp _ f p va = m₂
  have hlook₂ : m₂.look =
      Function.update m₁.look (pageOf p va) (some ⟨frameNumber f, true, true⟩) := by
    have hvalid := (congrArg Pte.valid hcell).trans holdvalid
    have hmodify := hpaging.dirs.look_modifyPte hdir (pageOf_table_lt p va)
      (f := fun pte => { pte with addr := frameNumber f, present := true }) hvalid
    rw [← hm₂]
    refine (Machine.look_congr rfl rfl).trans (hmodify.trans ?_)
    exact congrArg
      (fun v => Function.update m₁.look (pageOf p va) (some ⟨frameNumber f, v, true⟩)) hvalid
  have hmemory : ∀ a, m₂.memory a =
      if pmBase + f * pmScheSize ≤ a ∧ a < pmBase + f * pmScheSize + swapAreaUintSize then
        m₁.sd (old.addr + (a - (pmBase + f * pmScheSize))) else m₁.memory a := by
    intro a
    rw [← hm₂, ← unmapped_kernelAddress (frame_lt (hpaging.frames.reserved rfl))]
    rfl
  have hsd : m₂.sd = m₁.sd := by rw [← hm₂]; rfl
  have hex₂ : m₂.swapExhausted = m₁.swapExhausted := by rw [← hm₂]; rfl
  refine ⟨hpaging.place hout₁ (by rw [← hm₂]; rfl) (by rw [← hm₂]; rfl)
    (by rw [← hm₂]; rfl) (by rw [← hm₂]; rfl) (by rw [← hm₂]; rfl) ?_ hlook₂ ?_,
    ?_, ?_, ?_, ?_, ?_, ?_⟩
  · rw [← hm₂]
    exact stamp_owner hva
  · rw [hlook₂, hex₂, ← hm₂]
    exact hpaging.units.place_swapped hlook₁ hold rfl
  · rw [← hmoved.pidList, ← hm₂]
    rfl
  · rw [← hmoved.pageDir, ← hm₂]
    rfl
  · rw [← hmoved.tlbp, ← hm₂]
    rfl
  · exact ⟨_, by rw [hlook₂]; exact Function.update_self _ _ _, rfl⟩
  · rw [hex₂]
    exact hmoved.exhausted
  · intro hex page offset byte hoffset hbyte
    rw [← hmoved.content (hex₂ ▸ hex) page offset hoffset] at hbyte
    rw [← hbyte]
    exact content_read hpaging hlook₁ hold hlook₂ hmemory hsd page hoffset

theorem pageIn_served (h : Paging m none) (hva : va < 2 ^ 31)
    (hdir : (m.pageDir p (va >>> 22)).valid = true) :
    Served (pageOf p va) m
      (m.pageIn p (m.pageDir p (va >>> 22)).poolNum ((va >>> 13) &&& 0x1ff) va) := by
  unfold pageIn
  generalize hcell : m.pageTablePool _ _ = old
  cases hvalid : old.valid with
  | true =>
      have hlook : m.look (pageOf p va) = some old :=
        Machine.look_eq_some.mpr ⟨hdir, pageOf_table_lt p va, hvalid, hcell⟩
      cases hpresent : old.present with
      | true =>
          simp only [if_true]
          exact ⟨h, rfl, rfl, rfl, ⟨old, hlook, hpresent⟩, id, fun _ _ _ _ _ => id⟩
      | false =>
          obtain ⟨f, hindex, hpaging, hmoved⟩ := pmAllocSwapping_spec h
          have hserved := pageIn_swapped hpaging hmoved hva hdir hlook hpresent
          simp only [if_true, Bool.false_eq_true, if_false, swapIn, hcell, hindex]
          exact hserved
  | false =>
      have hlook : m.look (pageOf p va) = none := by
        cases hlook : m.look (pageOf p va) with
        | none => rfl
        | some pte =>
            obtain ⟨-, -, hpte, hcell'⟩ := Machine.look_eq_some.mp hlook
            have : old = pte := hcell.symm.trans hcell'
            rw [← this, hvalid] at hpte
            cases hpte
      obtain ⟨f, hindex, hpaging, hmoved⟩ := pmAllocSwapping_spec h
      have hserved := pageIn_new hpaging hmoved hva hdir hlook
      simp only [Bool.false_eq_true, if_false, hindex]
      exact hserved

/-! ## Page tables -/

/-- The state after `page_dir[d]` of the task `p` has got the page table slot `s`. -/
def newTable (m : Machine) (p d s : Nat) : Machine :=
  { m with
    ptPoolSlist := (slistAlloc m.ptPoolSlist).2
    pageTablePool := Function.update m.pageTablePool s (pageTableInit (m.pageTablePool s))
    pageDir := Function.update m.pageDir p (Function.update (m.pageDir p) d ⟨s, true⟩) }

theorem newTable_pageDir (s p' d' : Nat) :
    (p' = p ∧ d' = d ∧ (newTable m p d s).pageDir p' d' = ⟨s, true⟩) ∨
      (¬ (p' = p ∧ d' = d) ∧ (newTable m p d s).pageDir p' d' = m.pageDir p' d') := by
  unfold newTable
  dsimp only
  by_cases hp : p' = p
  · subst hp
    by_cases hd : d' = d
    · subst hd
      exact .inl ⟨rfl, rfl, by simp⟩
    · exact .inr ⟨fun h => hd h.2, by simp [hd]⟩
  · exact .inr ⟨fun h => hp h.1, by simp [hp]⟩

section

variable {s : Nat} {free : List Nat}

private theorem slot_fresh (h : Dirs m)
    (hfree : Implements m.ptPoolSlist pageTablePoolSlistSize ((s + 1) :: free)) {p' d' : Nat}
    (hvalid : (m.pageDir p' d').valid = true) : (m.pageDir p' d').poolNum ≠ s := by
  intro heq
  exact hfree.not_allocated (by simp) (heq ▸ h.pde_slot hvalid)

private theorem newTable_dirs (h : Dirs m) (hlive : Allocated m.pidList maxTaskNum p)
    (hd : d < pdeNumber) (hnone : (m.pageDir p d).valid = false)
    (hfree : Implements m.ptPoolSlist pageTablePoolSlistSize ((s + 1) :: free)) :
    Dirs (newTable m p d s) := by
  obtain ⟨-, himpl, -, -, halloc⟩ := slistAlloc_cons hfree
  refine ⟨h.pids, ⟨free, himpl⟩, ?_, ?_, ?_, ?_⟩
  · intro p' d' hvalid
    rcases newTable_pageDir (m := m) (p := p) (d := d) s p' d' with ⟨rfl, rfl, -⟩ | ⟨-, heq⟩
    · exact ⟨hlive, hd⟩
    · rw [heq] at hvalid
      exact h.pde_live hvalid
  · intro p' d' hvalid
    rcases newTable_pageDir (m := m) (p := p) (d := d) s p' d' with ⟨-, -, heq⟩ | ⟨-, heq⟩
    · rw [heq]
      exact (halloc _).mpr (.inl rfl)
    · rw [heq] at hvalid ⊢
      exact (halloc _).mpr (.inr (h.pde_slot hvalid))
  · intro p₁ d₁ p₂ d₂ hvalid₁ hvalid₂ hslot
    have hdir := newTable_pageDir (m := m) (p := p) (d := d) s
    rcases hdir p₁ d₁ with ⟨hp₁, hd₁, heq₁⟩ | ⟨-, heq₁⟩ <;>
      rcases hdir p₂ d₂ with ⟨hp₂, hd₂, heq₂⟩ | ⟨-, heq₂⟩
    · exact ⟨hp₁.trans hp₂.symm, hd₁.trans hd₂.symm⟩
    · rw [heq₁, heq₂] at hslot
      rw [heq₂] at hvalid₂
      exact absurd hslot.symm (slot_fresh h hfree hvalid₂)
    · rw [heq₁, heq₂] at hslot
      rw [heq₁] at hvalid₁
      exact absurd hslot (slot_fresh h hfree hvalid₁)
    · rw [heq₁] at hvalid₁
      rw [heq₂] at hvalid₂
      rw [heq₁, heq₂] at hslot
      exact h.pde_inj hvalid₁ hvalid₂ hslot
  · intro s' ha
    rcases (halloc _).mp ha with heq | ha
    · refine ⟨p, d, ?_⟩
      simp [newTable, Nat.succ_injective heq]
    · obtain ⟨p', d', hvalid, hslot⟩ := h.slot_used ha
      refine ⟨p', d', ?_⟩
      rcases newTable_pageDir (m := m) (p := p) (d := d) s p' d' with ⟨rfl, rfl, -⟩ | ⟨-, heq⟩
      · rw [hnone] at hvalid
        cases hvalid
      · rw [heq]
        exact ⟨hvalid, hslot⟩

/-- A fresh page table changes no page. -/
private theorem newTable_look (h : Dirs m) (hnone : (m.pageDir p d).valid = false)
    (hfree : Implements m.ptPoolSlist pageTablePoolSlistSize ((s + 1) :: free)) :
    (newTable m p d s).look = m.look := by
  funext page
  unfold Machine.look
  dsimp only
  rcases newTable_pageDir (m := m) (p := p) (d := d) s page.pid page.dir with
    ⟨hp, hd, heq⟩ | ⟨-, heq⟩
  · rw [heq, hp, hd, hnone]
    simp only [Bool.false_eq_true, false_and, if_false]
    rw [if_neg]
    rintro ⟨-, ht, hcell⟩
    simp [newTable, pageTableInit, ht] at hcell
  · rw [heq]
    by_cases hvalid : (m.pageDir page.pid page.dir).valid = true
    · have hslot := slot_fresh h hfree hvalid
      simp only [newTable, Function.update_of_ne hslot]
    · simp [hvalid]

end

theorem pageTableOf_old (hvalid : (m.pageDir p d).valid = true) :
    m.pageTableOf p d = .ok ((m.pageDir p d).poolNum, m) := by
  rw [pageTableOf, if_pos hvalid]

theorem pageTableOf_new (hnone : (m.pageDir p d).valid = false)
    (hfree : Implements m.ptPoolSlist pageTablePoolSlistSize ((s + 1) :: free)) :
    m.pageTableOf p d = .ok (s, newTable m p d s) := by
  have hindex := (slistAlloc_cons hfree).1
  have hne : ((s + 1 : Nat) : Int) - 1 ≠ -1 := by omega
  have hnat : (((s + 1 : Nat) : Int) - 1).toNat = s := by omega
  simp only [pageTableOf, hnone, Bool.false_eq_true, if_false, ptPoolAlloc, hindex, hne, hnat]
  rfl

/-- A page table is found or made, which changes no page and no entry that was valid. -/
theorem pageTableOf_dirs (h : Dirs m) (hlive : Allocated m.pidList maxTaskNum p)
    (hd : d < pdeNumber) :
    Meets IsPanic
      (fun s => Dirs s.2 ∧ s.2.pageDir p d = ⟨s.1, true⟩ ∧ s.2.look = m.look ∧
        (∀ p' d', (m.pageDir p' d').valid = true → s.2.pageDir p' d' = m.pageDir p' d') ∧
        ∃ ptPoolSlist pageTablePool pageDir,
          s.2 = { m with ptPoolSlist, pageTablePool, pageDir })
      (m.pageTableOf p d) := by
  cases hvalid : (m.pageDir p d).valid with
  | true =>
      rw [pageTableOf_old hvalid]
      refine ⟨h, ?_, rfl, fun _ _ _ => rfl, _, _, _, rfl⟩
      rw [← hvalid]
  | false =>
      obtain ⟨free, hfree⟩ := h.slots
      cases free with
      | nil =>
          simp only [pageTableOf, hvalid, Bool.false_eq_true, if_false, ptPoolAlloc,
            slistAlloc_nil hfree]
          trivial
      | cons i free =>
          obtain ⟨-, -, hpos, -, -⟩ := slistAlloc_cons hfree
          obtain ⟨s, rfl⟩ : ∃ s, i = s + 1 := ⟨i - 1, by omega⟩
          rw [pageTableOf_new hvalid hfree]
          refine ⟨newTable_dirs h hlive hd hvalid hfree, by simp [newTable],
            newTable_look h hvalid hfree, ?_, _, _, _, rfl⟩
          intro p' d' hvalid'
          rcases newTable_pageDir (m := m) (p := p) (d := d) s p' d' with ⟨rfl, rfl, -⟩ | ⟨-, heq⟩
          · rw [hvalid] at hvalid'
            cases hvalid'
          · exact heq

theorem pageTableOf_spec (h : Paging m none) (hlive : Allocated m.pidList maxTaskNum p)
    (hd : d < pdeNumber) :
    Meets IsPanic
      (fun s => Paging s.2 none ∧ (s.2.pageDir p d).valid = true ∧
        (s.2.pageDir p d).poolNum = s.1 ∧ s.2.look = m.look ∧ s.2.pidList = m.pidList ∧
        s.2.tlb = m.tlb ∧ s.2.swapExhausted = m.swapExhausted ∧ s.2.memory = m.memory ∧
        s.2.sd = m.sd)
      (m.pageTableOf p d) := by
  refine (pageTableOf_dirs h.dirs hlive hd).mono ?_
  rintro ⟨poolNum, m'⟩ ⟨hdirs, hdir, hlook, -, ptPoolSlist, pageTablePool, pageDir, hm'⟩
  dsimp only at hdirs hdir hlook hm' ⊢
  rw [hdir]
  subst hm'
  refine ⟨⟨hdirs, ?_, ?_, ?_⟩, rfl, rfl, hlook, rfl, rfl, rfl, rfl, rfl⟩
  · exact hlook ▸ h.frames
  · exact hlook ▸ h.units
  · exact hlook ▸ h.tlb

end

end UcasOs.Mm
