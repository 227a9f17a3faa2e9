import UcasOs.Mm.Paging

/-!
# Isolation of the address spaces

Every exception and every new task keeps the agreement of the five views, so it
holds after every run; and an access that was made again after its exception
hits.
-/

namespace UcasOs.Mm

open UcasOs.Foundation UcasOs.Libs UcasOs.Sched Machine

variable {m m' : Machine} {pid va random pa : Nat}

theorem live_lt (hlive : Allocated m.pidList maxTaskNum pid) : pid < 2 ^ 8 := by
  have := hlive.2.1
  unfold maxTaskNum at this
  omega

/-! ## Translation -/

private theorem page_offset (pfn : Nat) :
    ((entryLo pfn >>> 6) <<< 12) ||| (va &&& 0xfff) = pfn * 2 ^ 12 + va % 2 ^ 12 := by
  have hmask : va &&& 0xfff = va % 2 ^ 12 := Word.and_low va 12
  rw [entryLo_pfn, hmask, Nat.shiftLeft_eq, Word.or_low _ (Nat.mod_lt _ (by decide))]

/-- Both pages of a pair translate to their halves of the frame. -/
private theorem translate_entry (tlb : Nat → TlbEntry) {index addr : Nat}
    (hfound : tlbp tlb (entryHiOf pid va) = some index)
    (hlo₀ : (tlb index).entryLo0 = entryLo addr)
    (hlo₁ : (tlb index).entryLo1 = entryLo (addr + 1)) :
    translate tlb (entryHiOf pid va) va = some (addr <<< 12 + va % swapAreaUintSize) := by
  have hbit : (va >>> 12) &&& 1 = va / 2 ^ 12 % 2 := by
    rw [Nat.shiftRight_eq_div_pow]
    exact Word.and_low _ 1
  unfold translate
  rw [hfound]
  dsimp only
  rw [hbit, hlo₀, hlo₁]
  split
  · rw [loValid_entryLo, if_pos rfl, page_offset, Nat.shiftLeft_eq, Option.some.injEq]
    unfold swapAreaUintSize
    omega
  · rw [loValid_entryLo, if_pos rfl, page_offset, Nat.shiftLeft_eq, Option.some.injEq]
    unfold swapAreaUintSize
    omega

/-- A hit leads to the frame of the page. -/
theorem translate_hit (h : Paging m none) (hva : va < 2 ^ 31) (hpid : pid < 2 ^ 8)
    (hhit : translate m.tlb (entryHiOf pid va) va = some pa) :
    ∃ pte, m.look (pageOf pid va) = some pte ∧ pte.present = true ∧
      pa = pte.addr <<< 12 + va % swapAreaUintSize := by
  cases hfound : tlbp m.tlb (entryHiOf pid va) with
  | none =>
      rw [translate, hfound] at hhit
      cases hhit
  | some index =>
      obtain ⟨hindex, hpage⟩ := tlbp_some hva hpid hfound
      have hvalid : (m.tlb index).Valid := by
        rw [translate, hfound] at hhit
        dsimp only at hhit
        unfold TlbEntry.Valid
        split at hhit
        · split at hhit
          · rename_i hlo
            exact .inl hlo
          · cases hhit
        · split at hhit
          · rename_i hlo
            exact .inr hlo
          · cases hhit
      obtain ⟨pte, hlook, hpresent, hlo₀, hlo₁⟩ := h.tlb.agrees hindex hvalid
      rw [hpage] at hlook
      rw [translate_entry m.tlb hfound hlo₀ hlo₁, Option.some.injEq] at hhit
      exact ⟨pte, hlook, hpresent, hhit.symm⟩

/-! ## Exceptions -/

/-- The entry is written, at `random` or over the one that matched. -/
private theorem tlbWrite_at (tlb : Nat → TlbEntry) (lo₀ lo₁ : Nat) (hva : va < 2 ^ 31)
    (hpid : pid < 2 ^ 8) (hrandom : random < tlbEntryNumber) :
    ∃ i, i < tlbEntryNumber ∧
      tlbWrite tlb (tlbp tlb (entryHiOf pid va)).isNone random ⟨entryHiOf pid va, lo₀, lo₁⟩ i =
        ⟨entryHiOf pid va, lo₀, lo₁⟩ := by
  unfold tlbWrite
  cases hfound : tlbp tlb (entryHiOf pid va) with
  | none => exact ⟨random, hrandom, Function.update_self _ _ _⟩
  | some index =>
      exact ⟨index, (tlbp_some hva hpid hfound).1, Function.update_self _ _ _⟩

/-- What an exception leaves of the rest of the machine. -/
structure Faulted (m m' : Machine) : Prop where
  paging : Paging m' none
  pidList : m'.pidList = m.pidList
  exhausted : m.swapExhausted = true → m'.swapExhausted = true
  content : m'.swapExhausted = false → ∀ page offset byte, offset < swapAreaUintSize →
    m.content page offset = some byte → m'.content page offset = some byte

theorem fault_spec (h : Paging m none) (hlive : Allocated m.pidList maxTaskNum pid)
    (hva : va < 2 ^ 31) (hrandom : random < tlbEntryNumber) :
    Meets IsPanic
      (fun m' => Faulted m m' ∧ ∃ pa, translate m'.tlb (entryHiOf pid va) va = some pa)
      (m.fault pid va random) := by
  have hpid := live_lt hlive
  have hd : va >>> 22 < pdeNumber := (pageOf_dir_lt_iff pid).mpr hva
  unfold fault tlbExceptionHelper
  refine (pageTableOf_spec h hlive hd).bind fun s hs => ?_
  obtain ⟨poolNum, m₁⟩ := s
  obtain ⟨hpaging₁, hdir, hslot, hlook₁, hpids₁, htlb₁, hex₁, hmemory₁, hsd₁⟩ := hs
  dsimp only at hpaging₁ hdir hslot hlook₁ hpids₁ htlb₁ hex₁ hmemory₁ hsd₁ ⊢
  subst hslot
  have hserved := pageIn_served hpaging₁ hva hdir
  generalize m₁.pageIn pid _ _ va = m₂ at hserved
  obtain ⟨pte, hlook, hpresent⟩ := hserved.present
  have haddr : (m₂.pageTablePool (m₁.pageDir pid (va >>> 22)).poolNum
      ((va >>> 13) &&& 0x1ff)).addr = pte.addr := by
    rw [← hserved.pageDir]
    exact congrArg Pte.addr (Machine.look_eq_some.mp hlook).2.2.2
  have hrefill : tlbp m.tlb = tlbp m₂.tlb := by rw [hserved.tlbp, htlb₁]
  rw [fillTlb, haddr, hrefill, meets_pure]
  have htlb := hserved.paging.tlb.write random hva hpid hlook hpresent rfl
  obtain ⟨i, hi, hentry⟩ := tlbWrite_at m₂.tlb (entryLo pte.addr)
    (entryLo (pte.addr + 1)) hva hpid hrandom
  refine ⟨⟨⟨hserved.paging.dirs.congr rfl rfl rfl, hserved.paging.frames,
    hserved.paging.units, htlb⟩, hserved.pidList.trans hpids₁, ?_, ?_⟩, ?_⟩
  · rw [← hex₁]
    exact hserved.exhausted
  · intro hex page offset byte hoffset hbyte
    refine hserved.content hex page offset byte hoffset ?_
    rw [← hbyte]
    unfold Machine.content
    rw [hlook₁, hmemory₁, hsd₁]
  · generalize tlbWrite m₂.tlb _ random _ = tlb at htlb hentry
    have hpage : (tlb i).page = pageOf pid va := by rw [hentry, page_entryHiOf hva hpid]
    cases hfound : tlbp tlb (entryHiOf pid va) with
    | none => exact absurd hpage (tlbp_none hva hpid hfound hi)
    | some j =>
        obtain ⟨hj, hpage'⟩ := tlbp_some hva hpid hfound
        have hij : i = j := by
          refine htlb.inj hi hj (hpage.trans hpage'.symm) ?_
          rw [hpage]
          exact hd
        exact ⟨_, translate_entry tlb hfound (by rw [← hij, hentry])
          (by rw [← hij, hentry])⟩

/-! ## Accesses -/

theorem access_spec (h : Paging m none) (hlive : Allocated m.pidList maxTaskNum pid)
    (hva : va < 2 ^ 31) (hrandom : random < tlbEntryNumber) :
    Meets IsPanic
      (fun s => Faulted m s.2 ∧ ∃ pte, s.2.look (pageOf pid va) = some pte ∧
        pte.present = true ∧ s.1 = pte.addr <<< 12 + va % swapAreaUintSize)
      (m.access pid va random) := by
  unfold access
  cases hhit : translate m.tlb (entryHiOf pid va) va with
  | some pa =>
      exact ⟨⟨h, rfl, id, fun _ _ _ _ _ => id⟩, translate_hit h hva (live_lt hlive) hhit⟩
  | none =>
      refine (fault_spec h hlive hva hrandom).bind fun m' hm' => ?_
      obtain ⟨hfaulted, pa, hhit'⟩ := hm'
      rw [hhit']
      exact ⟨hfaulted, translate_hit hfaulted.paging hva (live_lt hlive) hhit'⟩

/-! ## Tasks -/

/-- `init_pcb` takes a pid, and clears a page directory. -/
theorem initPcb_cases (m : Machine) :
    ∃ pageDir, m.initPcb = { m with pidList := (slistAlloc m.pidList).2, pageDir } := by
  unfold initPcb
  split
  rename_i pid pidList heq
  rw [heq]
  split
  · exact ⟨_, rfl⟩
  · exact ⟨_, rfl⟩

/-- The directory of a pid that is not allocated is empty, so clearing it changes nothing. -/
theorem initPcb_eq (h : Dirs m) : m.initPcb = { m with pidList := (slistAlloc m.pidList).2 } := by
  unfold initPcb
  obtain ⟨free, hfree⟩ := h.pids
  cases free with
  | nil =>
      rw [slistAlloc_nil hfree]
      rfl
  | cons pid free =>
      obtain ⟨hpid, -, hpos, -, -⟩ := slistAlloc_cons hfree
      have hdead : ¬ Allocated m.pidList maxTaskNum pid := hfree.not_allocated (by simp)
      have hclear : pageDirInit (m.pageDir pid) = m.pageDir pid := by
        funext d
        have hvalid : (m.pageDir pid d).valid = false := by
          by_contra hne
          exact hdead (h.pde_live (by simpa using hne)).1
        unfold pageDirInit
        split
        · rw [← hvalid]
        · rfl
      have hne : (slistAlloc m.pidList).1 ≠ 0 := by
        rw [hpid]
        omega
      simp only [hne, if_false]
      rw [hpid, hclear, Function.update_eq_self]

theorem initPcb_dirs (h : Dirs m) :
    Dirs m.initPcb ∧ ∀ p, Allocated m.pidList maxTaskNum p →
      Allocated m.initPcb.pidList maxTaskNum p := by
  rw [initPcb_eq h]
  obtain ⟨free, hfree⟩ := h.pids
  cases free with
  | nil =>
      rw [slistAlloc_nil hfree]
      exact ⟨h, fun p => id⟩
  | cons pid free =>
      obtain ⟨-, himpl, -, -, halloc⟩ := slistAlloc_cons hfree
      have hmono : ∀ p, Allocated m.pidList maxTaskNum p →
          Allocated (slistAlloc m.pidList).2 maxTaskNum p := fun p hp => (halloc p).mpr (.inr hp)
      refine ⟨⟨⟨free, himpl⟩, h.slots, ?_, h.pde_slot, h.pde_inj, h.slot_used⟩, hmono⟩
      exact fun hvalid => ⟨hmono _ (h.pde_live hvalid).1, (h.pde_live hvalid).2⟩

theorem initPcb_paging (h : Paging m none) :
    Paging m.initPcb none ∧ ∀ p, Allocated m.pidList maxTaskNum p →
      Allocated m.initPcb.pidList maxTaskNum p := by
  obtain ⟨hdirs, hmono⟩ := initPcb_dirs h.dirs
  rw [initPcb_eq h.dirs] at hdirs hmono ⊢
  exact ⟨⟨hdirs, h.frames, h.units, h.tlb⟩, hmono⟩

/-- Killing a task without page tables leaves nothing behind. -/
theorem kill_paging {pid : Int} (h : Paging m none)
    (hspare : pid ≠ 1 → Allocated m.pidList maxTaskNum pid.toNat →
      ∀ d, (m.pageDir pid.toNat d).valid = false) : Paging (m.kill pid) none := by
  unfold kill
  by_cases hone : pid = 1
  · rw [if_pos hone]
    exact h
  rw [if_neg hone]
  cases hvalid : slistIsValid m.pidList pid maxTaskNum with
  | false =>
      rw [slistFree_invalid hvalid]
      exact h
  | true =>
      obtain ⟨i, rfl, hlive⟩ := slistIsValid_iff.mp hvalid
      obtain ⟨free, hfree⟩ := h.dirs.pids
      obtain ⟨-, himpl, halloc⟩ := slistFree_allocated hfree hlive
      refine ⟨⟨⟨_, himpl⟩, h.dirs.slots, ?_, h.dirs.pde_slot, h.dirs.pde_inj,
        h.dirs.slot_used⟩, h.frames, h.units, h.tlb⟩
      intro p d hpde
      have hp : p ≠ i := by
        rintro rfl
        have hnone := hspare hone hlive d
        rw [Int.toNat_natCast] at hnone
        exact absurd (hpde.symm.trans hnone) (by decide)
      exact ⟨(halloc p).mpr ⟨hp, (h.dirs.pde_live hpde).1⟩, (h.dirs.pde_live hpde).2⟩

/-! ## Runs -/

/-- No successful `kill` meets a task that has a page table. -/
def MemEvent.SparesPages (m : Machine) : MemEvent → Prop
  | .kill pid => pid ≠ 1 → Allocated m.pidList maxTaskNum pid.toNat →
      ∀ d, (m.pageDir pid.toNat d).valid = false
  | _ => True

theorem MemEvent.sparesPages_of_not_isKill {event : MemEvent} (h : ¬ event.IsKill) :
    event.SparesPages m := by
  cases event with
  | kill pid => exact absurd trivial h
  | initPcb | tick | fault | load | store => trivial

theorem step_paging {event : MemEvent} (h : Paging m none) (hspares : event.SparesPages m)
    (hstep : memSystem.step m event m') : Paging m' none := by
  obtain ⟨henabled, hstep⟩ := hstep
  cases event with
  | initPcb =>
      cases hstep
      exact (initPcb_paging h).1
  | kill pid =>
      cases hstep
      exact kill_paging h hspares
  | tick =>
      cases hstep
      exact ⟨h.dirs.congr rfl rfl rfl, h.frames, h.units, h.tlb⟩
  | fault pid va random =>
      obtain ⟨hlive, hva, hrandom⟩ := henabled
      exact ((fault_spec h hlive hva hrandom).of_ok hstep).1.paging
  | load pid va random value =>
      obtain ⟨hlive, hva, hrandom⟩ := henabled
      obtain ⟨s, hs, hload⟩ := bind_eq_ok.mp hstep
      cases hload
      exact ((access_spec h hlive hva hrandom).of_ok hs).1.paging
  | store pid va random byte =>
      obtain ⟨hlive, hva, hrandom⟩ := henabled
      obtain ⟨s, hs, hstore⟩ := bind_eq_ok.mp hstep
      cases hstore
      have hpaging := ((access_spec h hlive hva hrandom).of_ok hs).1.paging
      exact ⟨hpaging.dirs.congr rfl rfl rfl, hpaging.frames, hpaging.units, hpaging.tlb⟩

theorem boot_look (memory sd : Nat → UInt8) (page : Page) : (boot memory sd).look page = none := by
  simp [Machine.look, boot]

theorem boot_free (n : Nat) (i : Nat) (h : Allocated (slistInit (fun _ => ⟨false, 0⟩) n) n i) :
    False := by
  have hvalid := h.2.2
  simp only [slistInit, h.2.1, if_true, decide_eq_true_eq] at hvalid
  exact absurd hvalid (by have := h.1; omega)

theorem boot_paging (memory sd : Nat → UInt8) : Paging (boot memory sd) none := by
  have hlook := boot_look memory sd
  refine ⟨⟨⟨_, slistInit_implements (by decide)⟩, ⟨_, slistInit_implements (by decide)⟩,
    by simp [boot], by simp [boot], by simp [boot], ?_⟩, ⟨⟨_, slistInit_implements (by decide)⟩,
    by simp [hlook], ?_, by simp⟩, ⟨⟨_, slistInit_implements (by decide)⟩, by simp [hlook],
    by simp [hlook], ?_⟩, ⟨?_, ?_⟩⟩
  · exact fun ha => (boot_free _ _ ha).elim
  · exact fun ha => (boot_free _ _ ha).elim
  · exact fun ha => (boot_free _ _ ha).elim
  · intro i _ hvalid
    simp [boot, initTlb, TlbEntry.Valid] at hvalid
  · intro i j _ _ _ hdir
    have hout : ¬ (TlbEntry.page ⟨0x80000000, 0, 0⟩).dir < pdeNumber := by decide
    exact absurd hdir hout

theorem paging_of_run {memory sd : Nat → UInt8} {events : List MemEvent}
    (run : (memSystem.restrict fun m e => e.SparesPages m).Run (boot memory sd) events m) :
    Paging m none := by
  refine run.invariant (I := fun m => Paging m none) ?_ (boot_paging memory sd)
  rintro m₁ event m₂ h ⟨hspares, hstep⟩
  exact step_paging h hspares hstep

/-- Without `kill`, the three kinds of agreement hold, and an exception returns or panics. -/
theorem isolation_of_run {memory sd : Nat → UInt8} {events : List MemEvent}
    (run : (memSystem.restrict fun _ e => ¬ e.IsKill).Run (boot memory sd) events m) :
    (∀ p d p' d', (m.pageDir p d).valid = true → (m.pageDir p' d').valid = true →
      (p, d) ≠ (p', d') → (m.pageDir p d).poolNum ≠ (m.pageDir p' d').poolNum) ∧
    (∀ page pte, m.look page = some pte → pte.present = true →
      ∃ f : Nat, f < 2048 ∧ Allocated m.pmSlist pmSlistSize (f + 1) ∧
        pte.addr = (pmBase + f * pmScheSize) >>> 12 ∧
        pageOf (m.pmPid f) (m.pmVpn f) = page) ∧
    (∀ page page' pte pte', m.look page = some pte → m.look page' = some pte' →
      pte.present = true → pte'.present = true → page ≠ page' → pte.addr ≠ pte'.addr) ∧
    (∀ i, i < tlbEntryNumber → (m.tlb i).Valid → ∃ pte, m.look (m.tlb i).page = some pte ∧
      pte.present = true ∧ (m.tlb i).entryLo0 = entryLo pte.addr ∧
      (m.tlb i).entryLo1 = entryLo (pte.addr + 1)) ∧
    ∀ pid va random, (MemEvent.fault pid va random).Enabled m →
      Meets IsPanic (fun _ => True) (m.fault pid va random) := by
  have h : Paging m none :=
    paging_of_run (run.restrict_mono fun _ _ => MemEvent.sparesPages_of_not_isKill)
  refine ⟨?_, ?_, ?_, ?_, ?_⟩
  · intro p d p' d' hvalid hvalid' hne hslot
    obtain ⟨rfl, rfl⟩ := h.dirs.pde_inj hvalid hvalid' hslot
    exact hne rfl
  · intro page pte hlook hpresent
    obtain ⟨f, -, ha, haddr, howner⟩ := h.frames.mapped hlook hpresent
    have hf := frame_lt ha
    rw [frameNumber, physicalAddress_eq hf] at haddr
    exact ⟨f, hf, ha, haddr, howner⟩
  · intro page page' pte pte' hlook hlook' hpresent hpresent' hne haddr
    obtain ⟨f, -, ha, hf, howner⟩ := h.frames.mapped hlook hpresent
    obtain ⟨f', -, ha', hf', howner'⟩ := h.frames.mapped hlook' hpresent'
    have heq : f = f' :=
      frameNumber_inj (frame_lt ha) (frame_lt ha') (hf.symm.trans (haddr.trans hf'))
    exact hne (by rw [← howner, ← howner', heq])
  · exact fun i hi hvalid => h.tlb.agrees hi hvalid
  · rintro pid va random ⟨hlive, hva, hrandom⟩
    exact (fault_spec h hlive hva hrandom).mono fun _ _ => trivial

/-- The first page of the first task. -/
theorem isolation_first_page : ∃ events m,
    (memSystem.restrict fun _ e => ¬ e.IsKill).Run (boot (fun _ => 0) fun _ => 0) events m ∧
      m.look (pageOf 1 0x1000) = some ⟨0x1000, true, true⟩ ∧
      ∃ f : Nat, f < 2048 ∧ Allocated m.pmSlist pmSlistSize (f + 1) ∧
        pageOf (m.pmPid f) (m.pmVpn f) = pageOf 1 0x1000 := by
  let m₁ := (boot (fun _ => 0) fun _ => 0).initPcb
  let m₂ := (m₁.fault 1 0x1000 0).toOption.getD m₁
  have hspawn : memSystem.step (boot (fun _ => 0) fun _ => 0) .initPcb m₁ := ⟨trivial, rfl⟩
  have hstep : memSystem.step m₁ (.fault 1 0x1000 0) m₂ :=
    ⟨⟨by decide +kernel, by decide, by decide⟩, eq_ok_getD (by decide +kernel) m₁⟩
  have run := (Lts.Run.single (L := memSystem.restrict fun _ e => ¬ e.IsKill)
    ⟨id, hspawn⟩).snoc ⟨id, hstep⟩
  have hlook : m₂.look (pageOf 1 0x1000) = some ⟨0x1000, true, true⟩ := by decide +kernel
  obtain ⟨f, hf, ha, -, hpage⟩ := (isolation_of_run run).2.1 _ _ hlook rfl
  exact ⟨_, m₂, run, hlook, f, hf, ha, hpage⟩

end UcasOs.Mm
