import UcasOs.Mm.PageMap

/-!
# Swap units and victims

`swap_area_alloc` turns the index of a static list into an address of the card,
also when the list has no index left.  `swap_scheduler` takes its victim from
the timer, which counts in steps of ten.
-/

namespace UcasOs.Mm

open UcasOs.Foundation UcasOs.Libs Machine

def swapAreaTop : Nat := 0xf00200

/-- What `swap_area_free` returns. -/
def Machine.swapAreaFreed (m : Machine) (address : Nat) : Bool :=
  let index := u32 ((address : Int) - swapAreaBase) / swapAreaUintSize + 1
  (slistFree m.swapAreaSlist index swapAreaSize).1

/-- The machine, with the units that have not been given back. -/
structure SwapState where
  machine : Machine
  outstanding : List Nat

inductive SwapCall where
  | alloc
  | free (address : Nat)
  deriving DecidableEq, Repr

/-- Only units that are outstanding are given back. -/
def swapSystem : Lts SwapState SwapCall where
  step s call t :=
    match call with
    | .alloc => t = ⟨s.machine.swapAreaAlloc.2, s.machine.swapAreaAlloc.1 :: s.outstanding⟩
    | .free a =>
        a ∈ s.outstanding ∧ t = ⟨s.machine.swapAreaFree a, s.outstanding.erase a⟩

/-- Unit `k` can be handed out. -/
def Machine.Available (m : Machine) (k : Nat) : Prop :=
  ¬ Allocated m.swapAreaSlist swapAreaSize (k + 1)

/-- What a caller relies on. -/
def SwapState.Serves (s : SwapState) : SwapCall → Prop
  | .alloc => ∃ k < 1024, s.machine.swapAreaAlloc.1 = swapAreaBase + k * swapAreaUintSize ∧
      swapAreaBase ≤ s.machine.swapAreaAlloc.1 ∧
      s.machine.swapAreaAlloc.1 + swapAreaUintSize ≤ swapAreaTop ∧
      s.machine.swapAreaAlloc.1 ∉ s.outstanding
  | .free a => a ∈ s.outstanding → s.machine.swapAreaFreed a = true ∧
      ∀ k < 1024, (s.machine.swapAreaFree a).Available k ↔
        s.machine.Available k ∨ a = swapAreaBase + k * swapAreaUintSize

/-- Not all of the units are outstanding when one is asked for. -/
def UnitLeft (s : SwapState) (call : SwapCall) : Prop :=
  call = .alloc → s.outstanding.length < 1024

/-- The units that are outstanding are those that the list has handed out. -/
structure Units (s : SwapState) (free : List Nat) : Prop where
  implements : Implements s.machine.swapAreaSlist swapAreaSize free
  nodup : s.outstanding.Nodup
  mem_iff : ∀ a, a ∈ s.outstanding ↔
    ∃ u, Allocated s.machine.swapAreaSlist swapAreaSize (u + 1) ∧ a = unitAddress u
  length : s.outstanding.length + free.length = 1024

variable {s t : SwapState} {free : List Nat}

theorem Units.start (l : Slist) {m : Machine} (h : m.swapAreaSlist = slistInit l swapAreaSize) :
    Units ⟨m, []⟩ (List.range' 1 1024) := by
  have himpl : Implements m.swapAreaSlist swapAreaSize (List.range' 1 1024) := by
    rw [h]
    exact slistInit_implements (by decide)
  refine ⟨himpl, List.nodup_nil, fun a => ?_, by simp⟩
  constructor
  · intro ha
    cases ha
  · rintro ⟨u, halloc, -⟩
    -- every index is free
    have hmem : u + 1 ∈ List.range' 1 1024 := by
      have hlt : u + 1 < 1025 := halloc.2.1
      rw [List.mem_range'_1]
      omega
    exact absurd halloc (himpl.not_allocated hmem)

/-- One unit is handed out. -/
theorem Units.alloc {i : Nat} (h : Units s (i :: free)) :
    ∃ u < 1024, i = u + 1 ∧ s.machine.swapAreaAlloc.1 = unitAddress u ∧
      unitAddress u ∉ s.outstanding ∧
      Units ⟨s.machine.swapAreaAlloc.2, s.machine.swapAreaAlloc.1 :: s.outstanding⟩ free := by
  obtain ⟨hindex, himpl, hlow, hhigh, hallocated⟩ := slistAlloc_cons h.implements
  have hhigh' : i < 1025 := hhigh
  obtain ⟨u, rfl⟩ := Nat.exists_eq_add_of_le' hlow
  have haddr : s.machine.swapAreaAlloc.1 = unitAddress u := by
    rw [swapAreaAlloc]
    dsimp only
    rw [hindex]
    exact u32_unit (by omega)
  have hfresh : unitAddress u ∉ s.outstanding := by
    rw [h.mem_iff]
    rintro ⟨v, halloc, heq⟩
    rw [← unitAddress_inj heq] at halloc
    exact h.implements.not_allocated (List.mem_cons_self ..) halloc
  refine ⟨u, by omega, rfl, haddr, hfresh, himpl, ?_, fun a => ?_, ?_⟩
  · rw [haddr]
    exact List.nodup_cons.mpr ⟨hfresh, h.nodup⟩
  · rw [haddr, List.mem_cons, h.mem_iff]
    constructor
    · rintro (rfl | ⟨v, halloc, rfl⟩)
      · exact ⟨u, (hallocated _).mpr (.inl rfl), rfl⟩
      · exact ⟨v, (hallocated _).mpr (.inr halloc), rfl⟩
    · rintro ⟨v, halloc, rfl⟩
      rcases (hallocated _).mp halloc with heq | halloc
      · exact .inl (congrArg unitAddress (Nat.succ.inj heq))
      · exact .inr ⟨v, halloc, rfl⟩
  · have hlength := h.length
    rw [List.length_cons] at hlength ⊢
    omega

/-- One unit is given back. -/
theorem Units.giveBack {a : Nat} (h : Units s free) (ha : a ∈ s.outstanding) :
    s.machine.swapAreaFreed a = true ∧
      (∀ k, (s.machine.swapAreaFree a).Available k ↔
        s.machine.Available k ∨ a = unitAddress k) ∧
      ∃ free, Units ⟨s.machine.swapAreaFree a, s.outstanding.erase a⟩ free := by
  obtain ⟨u, halloc, rfl⟩ := (h.mem_iff a).mp ha
  have hu : u + 1 < 1025 := halloc.2.1
  have hindex := unit_index (show u < 1024 by omega)
  obtain ⟨hfreed, himpl, hallocated⟩ := slistFree_allocated h.implements halloc
  have hlist : (s.machine.swapAreaFree (unitAddress u)).swapAreaSlist =
      (slistFree s.machine.swapAreaSlist (u + 1 : Nat) swapAreaSize).2 := by
    rw [swapAreaFree]
    dsimp only
    rw [hindex]
  have hiff : ∀ v, Allocated (s.machine.swapAreaFree (unitAddress u)).swapAreaSlist swapAreaSize
      (v + 1) ↔ v ≠ u ∧ Allocated s.machine.swapAreaSlist swapAreaSize (v + 1) := by
    intro v
    rw [hlist, hallocated]
    simp
  refine ⟨?_, fun k => ?_, (u + 1) :: free, ⟨hlist ▸ himpl, h.nodup.erase _, fun a => ?_, ?_⟩⟩
  · rw [swapAreaFreed, hindex]
    exact hfreed
  · rw [Available, hiff, Available]
    constructor
    · intro hnot
      by_cases hku : k = u
      · exact .inr (by rw [hku])
      · exact .inl fun halloc => hnot ⟨hku, halloc⟩
    · rintro (hnot | heq) ⟨hku, halloc⟩
      · exact hnot halloc
      · exact hku (unitAddress_inj heq).symm
  · rw [h.nodup.mem_erase_iff, h.mem_iff]
    constructor
    · rintro ⟨hne, v, halloc, rfl⟩
      exact ⟨v, (hiff v).mpr ⟨fun hvu => hne (by rw [hvu]), halloc⟩, rfl⟩
    · rintro ⟨v, halloc, rfl⟩
      obtain ⟨hvu, halloc⟩ := (hiff v).mp halloc
      exact ⟨fun heq => hvu (unitAddress_inj heq), v, halloc, rfl⟩
  · have hpos := List.length_pos_of_mem ha
    have hlength := h.length
    rw [List.length_erase_of_mem ha, List.length_cons]
    omega

theorem Units.serves (h : Units s free) {call : SwapCall} (hleft : UnitLeft s call) :
    s.Serves call := by
  cases call with
  | alloc =>
      have hlength := h.length
      have hless := hleft rfl
      cases free with
      | nil =>
          rw [List.length_nil] at hlength
          omega
      | cons i free =>
          obtain ⟨u, hu, -, haddr, hfresh, -⟩ := h.alloc
          refine ⟨u, hu, haddr, ?_, ?_, by rwa [haddr]⟩
          · rw [haddr]
            exact Nat.le_add_right _ _
          · rw [haddr]
            unfold unitAddress swapAreaBase swapAreaUintSize swapAreaTop
            omega
  | free a =>
      intro ha
      obtain ⟨hfreed, havailable, -⟩ := h.giveBack ha
      exact ⟨hfreed, fun k _ => havailable k⟩

theorem Units.step (h : Units s free) {call : SwapCall}
    (hstep : (swapSystem.restrict UnitLeft).step s call t) : ∃ free, Units t free := by
  obtain ⟨hleft, hstep⟩ := hstep
  cases call with
  | alloc =>
      have hlength := h.length
      have hless := hleft rfl
      obtain rfl : t = _ := hstep
      cases free with
      | nil =>
          rw [List.length_nil] at hlength
          omega
      | cons i free =>
          obtain ⟨-, -, -, -, -, hnext⟩ := h.alloc
          exact ⟨free, hnext⟩
  | free a =>
      obtain ⟨ha, rfl⟩ := hstep
      exact (h.giveBack ha).2.2

/-- As long as a unit is left whenever one is asked for, all units lie in the swap area, no unit is
handed out twice, and units come back. -/
theorem swapSystem_serves (l : Slist) {m : Machine} {calls : List SwapCall} {t : SwapState}
    (hstart : m.swapAreaSlist = slistInit l swapAreaSize)
    (run : (swapSystem.restrict UnitLeft).Run ⟨m, []⟩ calls t) :
    ∀ call, UnitLeft t call → t.Serves call := by
  have hunits : ∃ free, Units t free := run.invariant (I := fun s => ∃ free, Units s free)
    (fun _ _ _ ⟨_, h⟩ hstep => h.step hstep) ⟨_, Units.start l hstart⟩
  obtain ⟨free, hunits⟩ := hunits
  exact fun call => hunits.serves

/-- The second unit after the boot. -/
theorem swapSystem_serves_second :
    ∃ t, (swapSystem.restrict UnitLeft).Run ⟨boot (fun _ => 0) fun _ => 0, []⟩ [.alloc] t ∧
      t.Serves .alloc := by
  have run : (swapSystem.restrict UnitLeft).Run ⟨boot (fun _ => 0) fun _ => 0, []⟩ [.alloc] _ :=
    .single ⟨fun _ => by decide, rfl⟩
  exact ⟨_, run, swapSystem_serves (fun _ => ⟨false, 0⟩) rfl run .alloc
    fun _ => (show 1 < 1024 by decide)⟩

/-- All units can be handed out. -/
theorem Units.drain (h : Units s free) :
    ∃ calls t, swapSystem.Run s calls t ∧ Units t [] := by
  induction free generalizing s with
  | nil => exact ⟨[], s, .nil s, h⟩
  | cons i free ih =>
      obtain ⟨-, -, -, -, -, hnext⟩ := h.alloc
      obtain ⟨calls, t, run, ht⟩ := ih hnext
      exact ⟨[.alloc] ++ calls, t, (Lts.Run.single rfl).append run, ht⟩

/-- The unit that is asked for when none is left lies below the swap area. -/
theorem swapSystem_exhausted :
    ¬ ∀ (l : Slist) (m : Machine) (calls : List SwapCall) (t : SwapState),
      m.swapAreaSlist = slistInit l swapAreaSize → swapSystem.Run ⟨m, []⟩ calls t →
      ∀ call, t.Serves call := by
  intro hall
  have hstart := Units.start (fun _ => ⟨false, 0⟩)
    (show (boot (fun _ => 0) fun _ => 0).swapAreaSlist = _ from rfl)
  obtain ⟨calls, t, run, ht⟩ := hstart.drain
  obtain ⟨k, -, -, hlow, -⟩ := hall _ _ calls t rfl run .alloc
  have haddr : t.machine.swapAreaAlloc.1 = noUnit := by
    rw [swapAreaAlloc]
    dsimp only
    rw [slistAlloc_nil ht.implements]
    exact u32_noUnit
  rw [haddr] at hlow
  exact absurd hlow (by decide)

/-! ## Victims -/

/-- The machine at a tick count. -/
def Machine.atTick (m : Machine) (ticks : BitVec 32) : Machine := { m with timeElapsed := ticks }

theorem toNat_getTimer (m : Machine) : m.getTimer.toNat = m.timeElapsed.toNat * 10 % 2 ^ 32 := by
  rw [getTimer, BitVec.toNat_mul]
  rfl

/-- Ten times a count stays even when it wraps around, and so does its remainder. -/
theorem swapScheduler_even (m : Machine) : m.swapScheduler % 2 = 0 := by
  rw [swapScheduler, toNat_getTimer, pmSlistSize]
  omega

/-- 614 is the inverse of 5 modulo 1023. -/
theorem swapScheduler_reach (m : Machine) {k : Nat} (hk : k < 1023) :
    (m.atTick (BitVec.ofNat 32 (614 * k % 1023))).swapScheduler = 2 + 2 * k := by
  have hticks : (m.atTick (BitVec.ofNat 32 (614 * k % 1023))).timeElapsed.toNat =
      614 * k % 1023 := by
    show (BitVec.ofNat 32 (614 * k % 1023)).toNat = _
    rw [BitVec.toNat_ofNat]
    exact Nat.mod_eq_of_lt (by omega)
  have hsmall : 614 * k % 1023 * 10 % 2 ^ 32 = 614 * k % 1023 * 10 := Nat.mod_eq_of_lt (by omega)
  have hinverse : 614 * k % 1023 * 5 % 1023 = k := by omega
  rw [swapScheduler, toNat_getTimer, hticks, hsmall, pmSlistSize]
  omega

/-- Every victim is one of the frames 2 to 2047, and the frames that can be victims are those with
an even index. -/
theorem swapScheduler_victims (m : Machine) :
    (∀ ticks, 2 ≤ (m.atTick ticks).swapScheduler ∧ (m.atTick ticks).swapScheduler ≤ 2047) ∧
      ∀ f, 2 ≤ f → f ≤ 2047 →
        ((∃ ticks, (m.atTick ticks).swapScheduler = f) ↔ f % 2 = 0) := by
  refine ⟨fun ticks => ?_, fun f hlow hhigh => ⟨?_, fun heven => ?_⟩⟩
  · rw [swapScheduler, pmSlistSize]
    omega
  · rintro ⟨ticks, rfl⟩
    exact swapScheduler_even _
  · refine ⟨_, (swapScheduler_reach m (show f / 2 - 1 < 1023 by omega)).trans ?_⟩
    omega

/-- The frame 4. -/
theorem swapScheduler_victims_four :
    ∃ ticks, ((boot (fun _ => 0) fun _ => 0).atTick ticks).swapScheduler = 4 :=
  ((swapScheduler_victims _).2 4 (by decide) (by decide)).mpr (by decide)

/-- The frame 3 is never evicted. -/
theorem swapScheduler_not_three :
    ¬ ∀ m : Machine,
      (∀ ticks, 2 ≤ (m.atTick ticks).swapScheduler ∧ (m.atTick ticks).swapScheduler ≤ 2047) ∧
        ∀ f, 2 ≤ f → f ≤ 2047 → ∃ ticks, (m.atTick ticks).swapScheduler = f := by
  intro hall
  obtain ⟨ticks, hticks⟩ := (hall (boot (fun _ => 0) fun _ => 0)).2 3 (by decide) (by decide)
  have heven := swapScheduler_even ((boot (fun _ => 0) fun _ => 0).atTick ticks)
  rw [hticks] at heven
  exact absurd heven (by decide)

end UcasOs.Mm
