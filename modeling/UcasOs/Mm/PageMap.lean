import UcasOs.Mm.Memory

/-!
# The page map

What the page tables say of a page is `look`.  The frame list with its reverse
map, the swap units and the TLB are related to `look`, not to the tables: one
lemma for each write to a table says what happens to `look`.
-/

namespace UcasOs.Mm

open UcasOs.Foundation UcasOs.Libs UcasOs.Sched Machine

/-- A pair of virtual pages of a task. -/
structure Page where
  pid : Nat
  dir : Nat
  table : Nat
  deriving DecidableEq

def pageOf (pid va : Nat) : Page := ⟨pid, va >>> 22, (va >>> 13) &&& 0x1ff⟩

def TlbEntry.page (e : TlbEntry) : Page := pageOf (e.entryHi &&& 0xff) e.entryHi

/-! ## Fields of the words -/

section

variable {pid va f u pfn : Nat}

private theorem and_1ff (x : Nat) : x &&& 0x1ff = x % 512 := Word.and_low x 9

private theorem and_ff (x : Nat) : x &&& 0xff = x % 2 ^ 8 := Word.and_low x 8

private theorem and_one (x : Nat) : x &&& 1 = x % 2 := Word.and_low x 1

private theorem and_1fffffff (x : Nat) : x &&& 0x1fffffff = x % 2 ^ 29 := Word.and_low x 29

private theorem and_fffff000 (hva : va < 2 ^ 31) : va &&& 0xfffff000 = va / 2 ^ 12 * 2 ^ 12 :=
  Word.and_high (k := 12) (w := 20) (by omega)

private theorem and_ffffe000 (hva : va < 2 ^ 31) : va &&& 0xffffe000 = va / 2 ^ 13 * 2 ^ 13 :=
  Word.and_high (k := 13) (w := 19) (by omega)

theorem pageOf_eq (pid va : Nat) : pageOf pid va = ⟨pid, va / 2 ^ 22, va / 2 ^ 13 % 512⟩ := by
  rw [pageOf, Nat.shiftRight_eq_div_pow, Nat.shiftRight_eq_div_pow, and_1ff]

theorem pageOf_table_lt (pid va : Nat) : (pageOf pid va).table < pteNumber := by
  rw [pageOf_eq]
  exact Nat.mod_lt _ (by decide)

theorem pageOf_dir_lt_iff (pid : Nat) : (pageOf pid va).dir < pdeNumber ↔ va < 2 ^ 31 := by
  rw [pageOf_eq, pdeNumber]
  dsimp only
  omega

theorem pageOf_vpn (hva : va < 2 ^ 31) : pageOf pid (va &&& 0xfffff000) = pageOf pid va := by
  rw [and_fffff000 hva, pageOf_eq, pageOf_eq, Page.mk.injEq]
  omega

theorem entryHiOf_eq (hva : va < 2 ^ 31) (hpid : pid < 2 ^ 8) :
    entryHiOf pid va = va / 2 ^ 13 * 2 ^ 13 + pid := by
  rw [entryHiOf, and_ffffe000 hva, Word.or_low _ (by omega)]

theorem hit_iff (e : TlbEntry) (hva : va < 2 ^ 31) (hpid : pid < 2 ^ 8) :
    e.hit (entryHiOf pid va) = true ↔ e.page = pageOf pid va := by
  rw [TlbEntry.hit, TlbEntry.page, entryHiOf_eq hva hpid, pageOf_eq, pageOf_eq,
    Nat.shiftRight_eq_div_pow, Nat.shiftRight_eq_div_pow, and_ff, and_ff,
    Page.mk.injEq, Bool.and_eq_true, beq_iff_eq, beq_iff_eq]
  have hasid : (va / 2 ^ 13 * 2 ^ 13 + pid) % 2 ^ 8 = pid := by omega
  have hvpn : (va / 2 ^ 13 * 2 ^ 13 + pid) / 2 ^ 13 = va / 2 ^ 13 := by omega
  rw [hasid, hvpn]
  constructor
  · intro h
    omega
  · intro h
    omega

theorem page_entryHiOf (hva : va < 2 ^ 31) (hpid : pid < 2 ^ 8) (lo₀ lo₁ : Nat) :
    (⟨entryHiOf pid va, lo₀, lo₁⟩ : TlbEntry).page = pageOf pid va := by
  rw [← hit_iff _ hva hpid]
  simp [TlbEntry.hit]

theorem physicalAddress_eq (hf : f < 2048) :
    physicalAddress f = pmBase + f * pmScheSize := by
  unfold physicalAddress u32 pmBase pmScheSize
  omega

theorem frameNumber_eq (hf : f < 2048) : frameNumber f = 4096 + 2 * f := by
  rw [frameNumber, physicalAddress_eq hf, Nat.shiftRight_eq_div_pow]
  unfold pmBase pmScheSize
  omega

theorem frameNumber_inj {f' : Nat} (hf : f < 2048) (hf' : f' < 2048)
    (h : frameNumber f = frameNumber f') : f = f' := by
  rw [frameNumber_eq hf, frameNumber_eq hf'] at h
  omega

theorem unmapped_kernelAddress (hf : f < 2048) :
    unmapped (kernelAddress (physicalAddress f)) = pmBase + f * pmScheSize := by
  have hlt : pmBase + f * pmScheSize < 2 ^ 29 := by
    unfold pmBase pmScheSize
    omega
  have hor : kernelAddress (pmBase + f * pmScheSize) = 5 * 2 ^ 29 + (pmBase + f * pmScheSize) := by
    rw [kernelAddress, Nat.lor_comm]
    exact Word.or_low 5 hlt
  rw [physicalAddress_eq hf, hor, unmapped, and_1fffffff]
  omega

theorem entryLo_eq (pfn : Nat) : entryLo pfn = pfn * 2 ^ 6 + 22 := by
  rw [entryLo, Nat.shiftLeft_eq, Word.or_low _ (by decide)]

@[simp] theorem loValid_entryLo (pfn : Nat) : loValid (entryLo pfn) = true := by
  rw [loValid, entryLo_eq, Nat.shiftRight_eq_div_pow, and_one, beq_iff_eq]
  omega

@[simp] theorem loValid_zero : loValid 0 = false := rfl

theorem entryLo_pfn (pfn : Nat) : entryLo pfn >>> 6 = pfn := by
  rw [entryLo_eq, Nat.shiftRight_eq_div_pow]
  omega

def unitAddress (u : Nat) : Nat := swapAreaBase + u * swapAreaUintSize

/-- What `swap_area_alloc` returns when no unit is free. -/
def noUnit : Nat := swapAreaBase - swapAreaUintSize

theorem unitAddress_inj {u' : Nat} (h : unitAddress u = unitAddress u') : u = u' := by
  unfold unitAddress swapAreaUintSize at h
  omega

theorem unitAddress_ne_noUnit : unitAddress u ≠ noUnit := by
  unfold unitAddress noUnit swapAreaBase swapAreaUintSize
  omega

theorem u32_unit (hu : u < 1024) :
    u32 (swapAreaBase + (((u + 1 : Nat) : Int) - 1) * swapAreaUintSize) = unitAddress u := by
  unfold u32 unitAddress swapAreaBase swapAreaUintSize
  omega

theorem u32_noUnit : u32 (swapAreaBase + (((0 : Nat) : Int) - 1) * swapAreaUintSize) = noUnit := by
  decide

theorem unit_index (hu : u < 1024) :
    u32 ((unitAddress u : Int) - swapAreaBase) / swapAreaUintSize + 1 = u + 1 := by
  unfold u32 unitAddress swapAreaBase swapAreaUintSize
  omega

theorem noUnit_index : swapAreaSize ≤
    u32 ((noUnit : Int) - swapAreaBase) / swapAreaUintSize + 1 := by
  decide

end

/-! ## Frames -/

/--
The frames handed out are the images of the present pages, and `owner` leads
back from a frame to its page.  The frames of `R` are handed out and not yet
mapped.
-/
structure HeldFrames (look : Page → Option Pte) (l : Slist) (owner : Nat → Page)
    (R : Nat → Prop) : Prop where
  impl : ∃ free, Implements l pmSlistSize free
  mapped : ∀ {page pte}, look page = some pte → pte.present = true →
    ∃ f, ¬ R f ∧ Allocated l pmSlistSize (f + 1) ∧ pte.addr = frameNumber f ∧ owner f = page
  owned : ∀ {f}, Allocated l pmSlistSize (f + 1) → ¬ R f →
    ∃ pte, look (owner f) = some pte ∧ pte.present = true ∧ pte.addr = frameNumber f
  reserved : ∀ {f}, R f → Allocated l pmSlistSize (f + 1)

/-- The same with at most one frame `r` that is not yet mapped. -/
structure FrameMap (look : Page → Option Pte) (l : Slist) (owner : Nat → Page)
    (r : Option Nat) : Prop where
  impl : ∃ free, Implements l pmSlistSize free
  mapped : ∀ {page pte}, look page = some pte → pte.present = true →
    ∃ f, some f ≠ r ∧ Allocated l pmSlistSize (f + 1) ∧ pte.addr = frameNumber f ∧ owner f = page
  owned : ∀ {f}, Allocated l pmSlistSize (f + 1) → some f ≠ r →
    ∃ pte, look (owner f) = some pte ∧ pte.present = true ∧ pte.addr = frameNumber f
  reserved : ∀ {f}, r = some f → Allocated l pmSlistSize (f + 1)

theorem frame_lt {l : Slist} {f : Nat} (h : Allocated l pmSlistSize (f + 1)) :
    f < 2048 := by
  have := h.2.1
  unfold pmSlistSize at this
  omega

section

variable {look : Page → Option Pte} {l : Slist} {owner : Nat → Page} {R R' : Nat → Prop}
  {f : Nat} {page : Page} {pte : Pte} {r : Option Nat}

theorem HeldFrames.congr (h : HeldFrames look l owner R) (hR : ∀ f, R' f ↔ R f) :
    HeldFrames look l owner R' := by
  have heq : R' = R := funext fun f => propext (hR f)
  rwa [heq]

theorem HeldFrames.alloc {free : List Nat} (h : HeldFrames look l owner R)
    (hfree : Implements l pmSlistSize ((f + 1) :: free)) :
    HeldFrames look (slistAlloc l).2 owner (fun g => g = f ∨ R g) := by
  obtain ⟨-, himpl, -, hlt, halloc⟩ := slistAlloc_cons hfree
  have hnew : ¬ Allocated l pmSlistSize (f + 1) := hfree.not_allocated (by simp)
  refine ⟨⟨free, himpl⟩, ?_, ?_, ?_⟩
  · intro page pte hlook hpresent
    obtain ⟨f', hf', ha, haddr, howner⟩ := h.mapped hlook hpresent
    refine ⟨f', ?_, (halloc _).mpr (.inr ha), haddr, howner⟩
    rintro (rfl | hR)
    · exact hnew ha
    · exact hf' hR
  · intro f' ha hne
    have hne' : f' + 1 ≠ f + 1 := fun he => hne (.inl (Nat.succ_injective he))
    exact h.owned (((halloc _).mp ha).resolve_left hne') fun hR => hne (.inr hR)
  · rintro f' (rfl | hR)
    · exact (halloc _).mpr (.inl rfl)
    · exact (halloc _).mpr (.inr (h.reserved hR))

/-- The page in the frame `f` goes out, and the frame is free. -/
theorem HeldFrames.evict (h : HeldFrames look l owner R) (ha : Allocated l pmSlistSize (f + 1))
    (hR : ¬ R f) (hpresent : pte.present = false) :
    HeldFrames (Function.update look (owner f) (some pte))
      (slistFree l ((f : Int) + 1) pmSlistSize).2 owner R := by
  obtain ⟨free, hfree⟩ := h.impl
  obtain ⟨-, himpl, halloc⟩ := slistFree_allocated hfree ha
  rw [Nat.cast_add_one] at himpl halloc
  refine ⟨⟨_, himpl⟩, ?_, ?_, ?_⟩
  · intro page pte' hlook hpresent'
    by_cases hpage : page = owner f
    · rw [hpage, Function.update_self] at hlook
      cases hlook
      rw [hpresent] at hpresent'
      cases hpresent'
    · rw [Function.update_of_ne hpage] at hlook
      obtain ⟨f', hne, ha', haddr, howner⟩ := h.mapped hlook hpresent'
      refine ⟨f', hne, (halloc _).mpr ⟨?_, ha'⟩, haddr, howner⟩
      intro heq
      exact hpage (by rw [← howner, Nat.succ_injective heq])
  · intro f' ha' hR'
    obtain ⟨hne, ha'⟩ := (halloc _).mp ha'
    obtain ⟨pte', hlook, hpresent', haddr⟩ := h.owned ha' hR'
    -- Another frame of the same page would have the same number.
    have hpage : owner f' ≠ owner f := by
      intro heq
      obtain ⟨pte'', hlook', -, haddr'⟩ := h.owned ha hR
      rw [heq, hlook'] at hlook
      cases hlook
      exact hne (by rw [frameNumber_inj (frame_lt ha') (frame_lt ha) (haddr.symm.trans haddr')])
    exact ⟨pte', by rw [Function.update_of_ne hpage]; exact hlook, hpresent', haddr⟩
  · intro f' hf'
    refine (halloc _).mpr ⟨fun heq => hR ?_, h.reserved hf'⟩
    rwa [← Nat.succ_injective heq]

/-- A reserved frame is given to a page that is not in memory. -/
theorem HeldFrames.place (h : HeldFrames look l owner R) (hf : R f)
    (hpage : ∀ pte, look page = some pte → pte.present = false) :
    HeldFrames (Function.update look page (some ⟨frameNumber f, true, true⟩)) l
      (Function.update owner f page) (fun g => R g ∧ g ≠ f) := by
  refine ⟨h.impl, ?_, ?_, fun hR => h.reserved hR.1⟩
  · intro page' pte' hlook hpresent
    by_cases hp : page' = page
    · rw [hp, Function.update_self] at hlook
      cases hlook
      exact ⟨f, fun hR => hR.2 rfl, h.reserved hf, rfl, by rw [Function.update_self, hp]⟩
    · rw [Function.update_of_ne hp] at hlook
      obtain ⟨f', hne, ha, haddr, howner⟩ := h.mapped hlook hpresent
      have hf' : f' ≠ f := fun he => hne (he ▸ hf)
      exact ⟨f', fun hR => hne hR.1, ha, haddr, by rw [Function.update_of_ne hf', howner]⟩
  · intro f' ha hR'
    by_cases hf' : f' = f
    · refine ⟨⟨frameNumber f, true, true⟩, ?_, rfl, by rw [hf']⟩
      rw [hf', Function.update_self, Function.update_self]
    · obtain ⟨pte', hlook, hpresent, haddr⟩ := h.owned ha fun hR => hR' ⟨hR, hf'⟩
      have hp : owner f' ≠ page := by
        intro heq
        rw [heq] at hlook
        rw [hpage pte' hlook] at hpresent
        cases hpresent
      refine ⟨pte', ?_, hpresent, haddr⟩
      rw [Function.update_of_ne hf', Function.update_of_ne hp]
      exact hlook

theorem frameMap_iff : FrameMap look l owner r ↔ HeldFrames look l owner fun f => r = some f := by
  have hne : ∀ f, some f ≠ r ↔ ¬ r = some f := fun f => not_congr eq_comm
  constructor
  · rintro ⟨himpl, hmapped, howned, hreserved⟩
    refine ⟨himpl, ?_, fun ha hf => howned ha ((hne _).mpr hf), hreserved⟩
    intro page pte hlook hpresent
    obtain ⟨f, hf, hrest⟩ := hmapped hlook hpresent
    exact ⟨f, (hne f).mp hf, hrest⟩
  · rintro ⟨himpl, hmapped, howned, hreserved⟩
    refine ⟨himpl, ?_, fun ha hf => howned ha ((hne _).mp hf), hreserved⟩
    intro page pte hlook hpresent
    obtain ⟨f, hf, hrest⟩ := hmapped hlook hpresent
    exact ⟨f, (hne f).mpr hf, hrest⟩

theorem FrameMap.alloc {free : List Nat} (h : FrameMap look l owner none)
    (hfree : Implements l pmSlistSize ((f + 1) :: free)) :
    FrameMap look (slistAlloc l).2 owner (some f) := by
  refine frameMap_iff.mpr (((frameMap_iff.mp h).alloc hfree).congr fun g => ?_)
  simp [eq_comm]

/-- The page in the frame `f` goes out, and the frame is free. -/
theorem FrameMap.evict (h : FrameMap look l owner none) (ha : Allocated l pmSlistSize (f + 1))
    (hpresent : pte.present = false) :
    FrameMap (Function.update look (owner f) (some pte))
      (slistFree l ((f : Int) + 1) pmSlistSize).2 owner none :=
  frameMap_iff.mpr ((frameMap_iff.mp h).evict ha (by simp) hpresent)

/-- The reserved frame is given to a page that is not in memory. -/
theorem FrameMap.place (h : FrameMap look l owner (some f))
    (hpage : ∀ pte, look page = some pte → pte.present = false) :
    FrameMap (Function.update look page (some ⟨frameNumber f, true, true⟩)) l
      (Function.update owner f page) none := by
  refine frameMap_iff.mpr (((frameMap_iff.mp h).place rfl hpage).congr fun g => ?_)
  simp [eq_comm]

end

/-! ## Swap units -/

/-- The units handed out are those that pages out of memory refer to. -/
structure UnitMap (look : Page → Option Pte) (l : Slist) (exhausted : Bool) : Prop where
  impl : ∃ free, Implements l swapAreaSize free
  swapped : ∀ {page pte}, look page = some pte → pte.present = false →
    (pte.addr = noUnit ∧ exhausted = true) ∨
      ∃ u, Allocated l swapAreaSize (u + 1) ∧ pte.addr = unitAddress u
  inj : ∀ {page page' pte pte' u}, look page = some pte → pte.present = false →
    look page' = some pte' → pte'.present = false →
    pte.addr = unitAddress u → pte'.addr = unitAddress u → page = page'
  used : ∀ {u}, Allocated l swapAreaSize (u + 1) →
    ∃ page pte, look page = some pte ∧ pte.present = false ∧ pte.addr = unitAddress u

theorem unit_lt {l : Slist} {u : Nat} (h : Allocated l swapAreaSize (u + 1)) : u < 1024 := by
  have := h.2.1
  unfold swapAreaSize at this
  omega

section

variable {look : Page → Option Pte} {l : Slist} {exhausted : Bool} {page : Page} {pte : Pte}

/-- A unit that `page` does not refer to is still referred to when `page` changes. -/
private theorem UnitMap.used_update (h : UnitMap look l exhausted) {u : Nat}
    (ha : Allocated l swapAreaSize (u + 1))
    (hne : ∀ pte, look page = some pte → pte.present = false → pte.addr ≠ unitAddress u)
    (pte : Pte) :
    ∃ page' pte', Function.update look page (some pte) page' = some pte' ∧
      pte'.present = false ∧ pte'.addr = unitAddress u := by
  obtain ⟨page', pte', hlook', hpresent', haddr'⟩ := h.used ha
  have hp : page' ≠ page := by
    rintro rfl
    exact hne pte' hlook' hpresent' haddr'
  refine ⟨page', pte', ?_, hpresent', haddr'⟩
  rw [Function.update_of_ne hp]
  exact hlook'

/-- A page in memory goes out to the unit `u`, which was free. -/
private theorem UnitMap.evict_to {l' : Slist} {u : Nat} (h : UnitMap look l exhausted)
    (hlook : ∀ pte, look page = some pte → pte.present = true)
    (himpl : ∃ free, Implements l' swapAreaSize free)
    (halloc : ∀ i, Allocated l' swapAreaSize i ↔ i = u + 1 ∨ Allocated l swapAreaSize i)
    (hnew : ¬ Allocated l swapAreaSize (u + 1)) (haddr : pte.addr = unitAddress u)
    (hpresent : pte.present = false) :
    UnitMap (Function.update look page (some pte)) l' exhausted := by
  have hother : ∀ {page' pte'}, page' ≠ page → look page' = some pte' →
      pte'.present = false → pte'.addr ≠ unitAddress u := by
    intro page' pte' hp hlook' hpresent' haddr'
    rcases h.swapped hlook' hpresent' with ⟨hno, -⟩ | ⟨u', ha, hu'⟩
    · exact unitAddress_ne_noUnit (haddr'.symm.trans hno)
    · rw [haddr'] at hu'
      exact hnew (unitAddress_inj hu' ▸ ha)
  refine ⟨himpl, ?_, ?_, ?_⟩
  · intro page' pte' hlook' hpresent'
    by_cases hp : page' = page
    · rw [hp, Function.update_self] at hlook'
      cases hlook'
      exact .inr ⟨u, (halloc _).mpr (.inl rfl), haddr⟩
    · rw [Function.update_of_ne hp] at hlook'
      rcases h.swapped hlook' hpresent' with hno | ⟨u', ha, hu'⟩
      · exact .inl hno
      · exact .inr ⟨u', (halloc _).mpr (.inr ha), hu'⟩
  · intro p₁ p₂ pte₁ pte₂ u' h₁ hpres₁ h₂ hpres₂ hu₁ hu₂
    by_cases hp₁ : p₁ = page <;> by_cases hp₂ : p₂ = page
    · rw [hp₁, hp₂]
    · rw [hp₁, Function.update_self] at h₁
      rw [Function.update_of_ne hp₂] at h₂
      cases h₁
      exact absurd (hu₂.trans (hu₁.symm.trans haddr)) (hother hp₂ h₂ hpres₂)
    · rw [hp₂, Function.update_self] at h₂
      rw [Function.update_of_ne hp₁] at h₁
      cases h₂
      exact absurd (hu₁.trans (hu₂.symm.trans haddr)) (hother hp₁ h₁ hpres₁)
    · rw [Function.update_of_ne hp₁] at h₁
      rw [Function.update_of_ne hp₂] at h₂
      exact h.inj h₁ hpres₁ h₂ hpres₂ hu₁ hu₂
  · intro u' ha
    rcases (halloc _).mp ha with hu | ha
    · refine ⟨page, pte, Function.update_self _ _ _, hpresent, ?_⟩
      rw [Nat.succ_injective hu]
      exact haddr
    · refine h.used_update ha (fun pte' hlook' hpresent' => ?_) pte
      rw [hlook pte' hlook'] at hpresent'
      cases hpresent'

/-- A page in memory goes out, to no unit at all if there is none. -/
private theorem UnitMap.evict_none (h : UnitMap look l exhausted)
    (hlook : ∀ pte, look page = some pte → pte.present = true) (haddr : pte.addr = noUnit) :
    UnitMap (Function.update look page (some pte)) l true := by
  refine ⟨h.impl, ?_, ?_, ?_⟩
  · intro page' pte' hlook' hpresent'
    by_cases hp : page' = page
    · rw [hp, Function.update_self] at hlook'
      cases hlook'
      exact .inl ⟨haddr, rfl⟩
    · rw [Function.update_of_ne hp] at hlook'
      exact (h.swapped hlook' hpresent').imp_left fun hno => ⟨hno.1, rfl⟩
  · intro p₁ p₂ pte₁ pte₂ u h₁ hpres₁ h₂ hpres₂ hu₁ hu₂
    have hne : ∀ {p pte' }, Function.update look page (some pte) p = some pte' →
        pte'.addr = unitAddress u → p ≠ page := by
      rintro p pte' h' hu rfl
      rw [Function.update_self] at h'
      cases h'
      exact unitAddress_ne_noUnit (hu.symm.trans haddr)
    rw [Function.update_of_ne (hne h₁ hu₁)] at h₁
    rw [Function.update_of_ne (hne h₂ hu₂)] at h₂
    exact h.inj h₁ hpres₁ h₂ hpres₂ hu₁ hu₂
  · intro u ha
    refine h.used_update ha (fun pte' hlook' hpresent' => ?_) pte
    rw [hlook pte' hlook'] at hpresent'
    cases hpresent'

theorem UnitMap.evict (h : UnitMap look l exhausted)
    (hlook : ∀ pte, look page = some pte → pte.present = true)
    (haddr : pte.addr = u32 (swapAreaBase + (((slistAlloc l).1 : Int) - 1) * swapAreaUintSize))
    (hpresent : pte.present = false) :
    UnitMap (Function.update look page (some pte)) (slistAlloc l).2
      (exhausted || (slistAlloc l).1 == 0) := by
  obtain ⟨free, hfree⟩ := h.impl
  cases free with
  | nil =>
      rw [slistAlloc_nil hfree] at haddr ⊢
      have hnone : pte.addr = noUnit := haddr.trans u32_noUnit
      simpa using h.evict_none hlook hnone
  | cons i free =>
      obtain ⟨hi, himpl, hpos, hlt, halloc⟩ := slistAlloc_cons hfree
      obtain ⟨u, rfl⟩ : ∃ u, i = u + 1 := ⟨i - 1, by omega⟩
      have hu : u < 1024 := by
        unfold swapAreaSize at hlt
        omega
      have hnew : ¬ Allocated l swapAreaSize (u + 1) := hfree.not_allocated (by simp)
      rw [hi, u32_unit hu] at haddr
      have hex : (exhausted || (slistAlloc l).1 == 0) = exhausted := by simp [hi]
      rw [hex]
      exact h.evict_to hlook ⟨free, himpl⟩ halloc hnew haddr hpresent

/-- The pages out of memory after the page `page` has come in. -/
private theorem look_of_placed (hpresent : pte.present = true) {p : Page} {pte' : Pte}
    (h : Function.update look page (some pte) p = some pte') (hpres : pte'.present = false) :
    p ≠ page ∧ look p = some pte' := by
  by_cases hp : p = page
  · rw [hp, Function.update_self] at h
    cases h
    rw [hpresent] at hpres
    cases hpres
  · rw [Function.update_of_ne hp] at h
    exact ⟨hp, h⟩

/-- A page comes into memory; the unit it had is handed back. -/
theorem UnitMap.place_swapped {old : Pte} (h : UnitMap look l exhausted)
    (hlook : look page = some old) (hold : old.present = false) (hpresent : pte.present = true) :
    UnitMap (Function.update look page (some pte))
      (slistFree l (u32 ((old.addr : Int) - swapAreaBase) / swapAreaUintSize + 1 : Nat)
        swapAreaSize).2 exhausted := by
  have hsome := @look_of_placed look page pte hpresent
  have hinj : ∀ {p₁ p₂ pte₁ pte₂ u}, Function.update look page (some pte) p₁ = some pte₁ →
      pte₁.present = false → Function.update look page (some pte) p₂ = some pte₂ →
      pte₂.present = false → pte₁.addr = unitAddress u → pte₂.addr = unitAddress u → p₁ = p₂ :=
    fun h₁ hpres₁ h₂ hpres₂ => h.inj (hsome h₁ hpres₁).2 hpres₁ (hsome h₂ hpres₂).2 hpres₂
  rcases h.swapped hlook hold with ⟨hno, -⟩ | ⟨u, ha, haddr⟩
  · have hinvalid : slistIsValid l
        (u32 ((old.addr : Int) - swapAreaBase) / swapAreaUintSize + 1 : Nat) swapAreaSize =
          false := by
      have hout := noUnit_index
      rw [slistIsValid, if_pos]
      rw [hno]
      right
      exact_mod_cast hout
    rw [slistFree_invalid hinvalid]
    refine ⟨h.impl, fun h' hpres => h.swapped (hsome h' hpres).2 hpres, hinj, ?_⟩
    intro u ha
    refine h.used_update ha (fun pte' hlook' _ haddr' => ?_) pte
    rw [hlook] at hlook'
    cases hlook'
    exact unitAddress_ne_noUnit (haddr'.symm.trans hno)
  · obtain ⟨free, hfree⟩ := h.impl
    obtain ⟨-, himpl, halloc⟩ := slistFree_allocated hfree ha
    rw [haddr, unit_index (unit_lt ha)]
    refine ⟨⟨_, himpl⟩, ?_, hinj, ?_⟩
    · intro page' pte' h' hpres
      obtain ⟨hp, hlook'⟩ := hsome h' hpres
      rcases h.swapped hlook' hpres with hno | ⟨u', ha', hu'⟩
      · exact .inl hno
      · refine .inr ⟨u', (halloc _).mpr ⟨?_, ha'⟩, hu'⟩
        intro heq
        have hu : u' = u := Nat.succ_injective heq
        exact hp (h.inj hlook' hpres hlook hold (hu ▸ hu') haddr)
    · intro u' ha'
      obtain ⟨hne, ha'⟩ := (halloc _).mp ha'
      refine h.used_update ha' (fun pte' hlook' _ haddr' => ?_) pte
      rw [hlook] at hlook'
      cases hlook'
      exact hne (by rw [unitAddress_inj (haddr'.symm.trans haddr)])

/-- A page that was in no unit comes into memory. -/
theorem UnitMap.place_new (h : UnitMap look l exhausted) (hlook : look page = none)
    (hpresent : pte.present = true) :
    UnitMap (Function.update look page (some pte)) l exhausted := by
  have hsome := @look_of_placed look page pte hpresent
  refine ⟨h.impl, fun h' hpres => h.swapped (hsome h' hpres).2 hpres, ?_, ?_⟩
  · exact fun h₁ hpres₁ h₂ hpres₂ =>
      h.inj (hsome h₁ hpres₁).2 hpres₁ (hsome h₂ hpres₂).2 hpres₂
  · intro u ha
    refine h.used_update ha (fun pte' hlook' => ?_) pte
    rw [hlook] at hlook'
    cases hlook'

end

/-! ## TLB entries -/

def TlbEntry.Valid (e : TlbEntry) : Prop := loValid e.entryLo0 = true ∨ loValid e.entryLo1 = true

/-- The valid entries agree with present pages, and no user page has two entries. -/
structure TlbMap (look : Page → Option Pte) (tlb : Nat → TlbEntry) : Prop where
  agrees : ∀ {i}, i < tlbEntryNumber → (tlb i).Valid →
    ∃ pte, look (tlb i).page = some pte ∧ pte.present = true ∧
      (tlb i).entryLo0 = entryLo pte.addr ∧ (tlb i).entryLo1 = entryLo (pte.addr + 1)
  inj : ∀ {i j}, i < tlbEntryNumber → j < tlbEntryNumber → (tlb i).page = (tlb j).page →
    (tlb i).page.dir < pdeNumber → i = j

section

variable {look : Page → Option Pte} {tlb : Nat → TlbEntry} {pid va : Nat} {pte : Pte}

theorem tlbp_some (hva : va < 2 ^ 31) (hpid : pid < 2 ^ 8) {i : Nat}
    (h : tlbp tlb (entryHiOf pid va) = some i) :
    i < tlbEntryNumber ∧ (tlb i).page = pageOf pid va :=
  ⟨List.mem_range.mp (List.mem_of_find?_eq_some h),
    (hit_iff _ hva hpid).mp (by simpa using List.find?_some h)⟩

theorem tlbp_none (hva : va < 2 ^ 31) (hpid : pid < 2 ^ 8)
    (h : tlbp tlb (entryHiOf pid va) = none) {i : Nat} (hi : i < tlbEntryNumber) :
    (tlb i).page ≠ pageOf pid va := by
  intro hpage
  have := List.find?_eq_none.mp h i (List.mem_range.mpr hi)
  exact this ((hit_iff _ hva hpid).mpr hpage)

/-- The page goes out of memory, and its entry, if it has one, is made invalid. -/
theorem TlbMap.evict (h : TlbMap look tlb) (pte : Pte) (hva : va < 2 ^ 31) (hpid : pid < 2 ^ 8) :
    TlbMap (Function.update look (pageOf pid va) (some pte))
      (setTlbInvalid tlb (entryHiOf pid va)) := by
  have hkeep : ∀ {i}, i < tlbEntryNumber → (tlb i).page ≠ pageOf pid va → (tlb i).Valid →
      ∃ pte', Function.update look (pageOf pid va) (some pte) (tlb i).page = some pte' ∧
        pte'.present = true ∧ (tlb i).entryLo0 = entryLo pte'.addr ∧
        (tlb i).entryLo1 = entryLo (pte'.addr + 1) := by
    intro i hi hpage hvalid
    rw [Function.update_of_ne hpage]
    exact h.agrees hi hvalid
  unfold setTlbInvalid
  cases hfound : tlbp tlb (entryHiOf pid va) with
  | none => exact ⟨fun hi hvalid => hkeep hi (tlbp_none hva hpid hfound hi) hvalid, h.inj⟩
  | some index =>
      dsimp only
      obtain ⟨hindex, hpage⟩ := tlbp_some hva hpid hfound
      have hpages : ∀ i, (Function.update tlb index ⟨entryHiOf pid va, 0, 0⟩ i).page =
          (tlb i).page := by
        intro i
        by_cases hi : i = index
        · rw [hi, Function.update_self, page_entryHiOf hva hpid, hpage]
        · rw [Function.update_of_ne hi]
      refine ⟨?_, ?_⟩
      · intro i hi hvalid
        by_cases hne : i = index
        · rw [hne, Function.update_self] at hvalid
          simp [TlbEntry.Valid] at hvalid
        · rw [Function.update_of_ne hne] at hvalid ⊢
          refine hkeep hi (fun heq => hne ?_) hvalid
          refine h.inj hi hindex (heq.trans hpage.symm) ?_
          rw [heq, pageOf_dir_lt_iff]
          exact hva
      · intro i j hi hj
        rw [hpages, hpages]
        exact h.inj hi hj

/-- A page that is not in memory has no valid entry, and may come in. -/
theorem TlbMap.place {page : Page} (h : TlbMap look tlb)
    (hpage : ∀ pte, look page = some pte → pte.present = false) (new : Pte) :
    TlbMap (Function.update look page (some new)) tlb := by
  refine ⟨?_, h.inj⟩
  intro i hi hvalid
  obtain ⟨pte', hlook, hpresent, hlo⟩ := h.agrees hi hvalid
  have hne : (tlb i).page ≠ page := by
    intro heq
    rw [heq] at hlook
    rw [hpage pte' hlook] at hpresent
    cases hpresent
  exact ⟨pte', by rw [Function.update_of_ne hne]; exact hlook, hpresent, hlo⟩

private theorem TlbMap.update {index : Nat} (h : TlbMap look tlb) (hva : va < 2 ^ 31)
    (hpid : pid < 2 ^ 8) (hlook : look (pageOf pid va) = some pte) (hpresent : pte.present = true)
    (honly : ∀ i, i < tlbEntryNumber → (tlb i).page = pageOf pid va → i = index) :
    TlbMap look (Function.update tlb index
      ⟨entryHiOf pid va, entryLo pte.addr, entryLo (pte.addr + 1)⟩) := by
  refine ⟨?_, ?_⟩
  · intro i hi hvalid
    by_cases hne : i = index
    · rw [hne, Function.update_self, page_entryHiOf hva hpid]
      exact ⟨pte, hlook, hpresent, rfl, rfl⟩
    · rw [Function.update_of_ne hne] at hvalid ⊢
      exact h.agrees hi hvalid
  · intro i j hi hj hpages hdir
    by_cases hne : i = index <;> by_cases hne' : j = index
    · rw [hne, hne']
    · rw [hne, Function.update_self, page_entryHiOf hva hpid, Function.update_of_ne hne'] at hpages
      exact hne.trans (honly j hj hpages.symm).symm
    · rw [hne', Function.update_self, page_entryHiOf hva hpid, Function.update_of_ne hne] at hpages
      exact (honly i hi hpages).trans hne'.symm
    · rw [Function.update_of_ne hne, Function.update_of_ne hne'] at hpages
      rw [Function.update_of_ne hne] at hdir
      exact h.inj hi hj hpages hdir

/-- `tlbwr` when no entry matches, `tlbwi` when one does. -/
theorem TlbMap.write {isTlbRefill : Bool} (h : TlbMap look tlb) (random : Nat)
    (hva : va < 2 ^ 31) (hpid : pid < 2 ^ 8) (hlook : look (pageOf pid va) = some pte)
    (hpresent : pte.present = true)
    (hrefill : isTlbRefill = (tlbp tlb (entryHiOf pid va)).isNone) :
    TlbMap look (tlbWrite tlb isTlbRefill random
      ⟨entryHiOf pid va, entryLo pte.addr, entryLo (pte.addr + 1)⟩) := by
  unfold tlbWrite
  rw [hrefill]
  cases hfound : tlbp tlb (entryHiOf pid va) with
  | none =>
      refine h.update hva hpid hlook hpresent fun i hi hpage => ?_
      exact absurd hpage (tlbp_none hva hpid hfound hi)
  | some index =>
      obtain ⟨hindex, hpage⟩ := tlbp_some hva hpid hfound
      refine h.update hva hpid hlook hpresent fun i hi hpage' => ?_
      refine h.inj hi hindex (hpage'.trans hpage.symm) ?_
      rw [hpage', pageOf_dir_lt_iff]
      exact hva

end

end UcasOs.Mm
