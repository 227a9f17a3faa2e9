import UcasOs.Mm.Isolation

/-!
# Swapping is transparent

Frames, swap units, page tables and the TLB simulate one private flat memory
for each task.
-/

namespace UcasOs.Mm

open UcasOs.Foundation UcasOs.Libs UcasOs.Sched Machine

/-! ## The flat memories -/

/-- The bytes that each task has stored. -/
abbrev Flat := Pid → Nat → Option UInt8

def Flat.store (a : Flat) (pid : Pid) (va : Nat) (byte : UInt8) : Flat := fun pid' va' =>
  if pid' = pid ∧ va' = va then some byte else a pid' va'

def flatSystem : Lts Flat MemEvent where
  step a event a' :=
    match event with
    | .load pid va _ value => a' = a ∧ ∀ byte, a pid va = some byte → value = byte
    | .store pid va _ byte => a' = a.store pid va byte
    | _ => a' = a

/-- The latest byte that the events store for the task at the address. -/
def lastStore (pid : Pid) (va : Nat) (events : List MemEvent) : Option UInt8 :=
  events.foldl (fun last event =>
    match event with
    | .store pid' va' _ byte => if pid = pid' ∧ va = va' then some byte else last
    | _ => last) none

theorem flat_lastStore {a : Flat} {events : List MemEvent}
    (run : flatSystem.Run (fun _ _ => none) events a) (pid : Pid) (va : Nat) :
    a pid va = lastStore pid va events := by
  induction run with
  | nil => rfl
  | @snoc b c events event hrun hstep ih =>
      unfold lastStore at ih ⊢
      rw [List.foldl_append, List.foldl_cons, List.foldl_nil, ← ih]
      cases event with
      | store pid' va' random byte =>
          cases hstep
          rfl
      | load pid' va' random value =>
          obtain ⟨rfl, -⟩ := hstep
          rfl
      | initPcb | kill | tick | fault =>
          cases hstep
          rfl

/-! ## The simulation -/

/-- What a task has stored is the content of its pages. -/
def Agrees (m : Machine) (a : Flat) : Prop :=
  ∀ pid va byte, a pid va = some byte →
    va < 2 ^ 31 ∧ m.content (pageOf pid va) (va % swapAreaUintSize) = some byte

variable {m m' : Machine} {a : Flat} {pid va random pa : Nat}

theorem offset_lt (va : Nat) : va % swapAreaUintSize < swapAreaUintSize :=
  Nat.mod_lt _ (by decide)

theorem Faulted.agrees (h : Faulted m m') (hex : m'.swapExhausted = false) (ha : Agrees m a) :
    Agrees m' a := by
  intro pid va byte hbyte
  obtain ⟨hva, hcontent⟩ := ha pid va byte hbyte
  exact ⟨hva, h.content hex _ _ _ (offset_lt va) hcontent⟩

theorem Agrees.congr (h : Agrees m a) (hlook : m'.look = m.look) (hmemory : m'.memory = m.memory)
    (hsd : m'.sd = m.sd) : Agrees m' a := by
  intro pid va byte hbyte
  unfold Machine.content
  rw [hlook, hmemory, hsd]
  exact h pid va byte hbyte

/-- An address is known from its page and its offset. -/
theorem address_inj {pid' va' : Nat} (hpage : pageOf pid va = pageOf pid' va')
    (hoffset : va % swapAreaUintSize = va' % swapAreaUintSize) : pid = pid' ∧ va = va' := by
  rw [pageOf_eq, pageOf_eq, Page.mk.injEq] at hpage
  unfold swapAreaUintSize at hoffset
  omega

/-- A store to a present page changes this byte of this page only. -/
theorem store_content {pte : Pte} {page page' : Page} {offset offset' : Nat} (h : Paging m none)
    (hlook : m.look page = some pte) (hpresent : pte.present = true)
    (hoffset : offset < swapAreaUintSize) (hoffset' : offset' < swapAreaUintSize)
    (byte : UInt8) :
    Machine.content { m with
        memory := Function.update m.memory (pte.addr <<< 12 + offset) byte } page' offset' =
      if page' = page ∧ offset' = offset then some byte else m.content page' offset' := by
  unfold Machine.content
  change Option.map _ (m.look page') = _
  by_cases hsame : page' = page ∧ offset' = offset
  · obtain ⟨rfl, rfl⟩ := hsame
    simp [hlook, hpresent]
  · rw [if_neg hsame]
    cases hlook' : m.look page' with
    | none => rfl
    | some pte' =>
        cases hpresent' : pte'.present with
        | false => simp [hpresent']
        | true =>
            obtain ⟨f, -, ha, haddr, howner⟩ := h.frames.mapped hlook hpresent
            obtain ⟨f', -, ha', haddr', howner'⟩ := h.frames.mapped hlook' hpresent'
            have hne : pte'.addr <<< 12 + offset' ≠ pte.addr <<< 12 + offset := by
              rw [haddr, haddr', frame_address (frame_lt ha), frame_address (frame_lt ha')]
              unfold pmScheSize swapAreaUintSize at *
              intro heq
              have hf : f' = f := by omega
              refine hsame ⟨?_, by omega⟩
              rw [← howner, ← howner', hf]
            simp [hpresent', Function.update_of_ne hne]

theorem Agrees.store {pte : Pte} (h : Paging m none) (ha : Agrees m a)
    (hlook : m.look (pageOf pid va) = some pte) (hpresent : pte.present = true)
    (hva : va < 2 ^ 31) (byte : UInt8) :
    Agrees { m with memory :=
      Function.update m.memory (pte.addr <<< 12 + va % swapAreaUintSize) byte }
      (a.store pid va byte) := by
  intro pid' va' byte' hbyte
  rw [store_content h hlook hpresent (offset_lt va) (offset_lt va')]
  unfold Flat.store at hbyte
  by_cases hsame : pid' = pid ∧ va' = va
  · obtain ⟨rfl, rfl⟩ := hsame
    rw [if_pos ⟨rfl, rfl⟩] at hbyte
    exact ⟨hva, by rw [if_pos ⟨rfl, rfl⟩]; exact hbyte⟩
  · rw [if_neg hsame] at hbyte
    have hne : ¬ (pageOf pid' va' = pageOf pid va ∧
        va' % swapAreaUintSize = va % swapAreaUintSize) :=
      fun h => hsame (address_inj h.1 h.2)
    rw [if_neg hne]
    exact ha pid' va' byte' hbyte

theorem initPcb_agrees (h : Paging m none) (ha : Agrees m a) : Agrees m.initPcb a := by
  rw [initPcb_eq h.dirs]
  exact ha.congr rfl rfl rfl

/-- The commuting square: without `kill`, and as long as swap units last. -/
theorem step_agrees {event : MemEvent} (h : Paging m none) (ha : Agrees m a)
    (hkill : ¬ event.IsKill) (hstep : memSystem.step m event m')
    (hex : m'.swapExhausted = false) :
    ∃ a', flatSystem.step a event a' ∧ Agrees m' a' := by
  obtain ⟨henabled, hstep⟩ := hstep
  cases event with
  | initPcb =>
      cases hstep
      exact ⟨a, rfl, initPcb_agrees h ha⟩
  | kill pid => exact absurd trivial hkill
  | tick =>
      cases hstep
      exact ⟨a, rfl, ha.congr rfl rfl rfl⟩
  | fault pid va random =>
      obtain ⟨hlive, hva, hrandom⟩ := henabled
      have hfaulted := ((fault_spec h hlive hva hrandom).of_ok hstep).1
      exact ⟨a, rfl, hfaulted.agrees hex ha⟩
  | load pid va random value =>
      obtain ⟨hlive, hva, hrandom⟩ := henabled
      obtain ⟨⟨pa, m₁⟩, hs, hload⟩ := bind_eq_ok.mp hstep
      cases hload
      obtain ⟨hfaulted, pte, hlook, hpresent, rfl⟩ :=
        (access_spec h hlive hva hrandom).of_ok hs
      have ha' := hfaulted.agrees hex ha
      refine ⟨a, ⟨rfl, fun byte hbyte => ?_⟩, ha'⟩
      have hcontent := (ha' pid va byte hbyte).2
      simpa [Machine.content, hlook, hpresent] using hcontent
  | store pid va random byte =>
      obtain ⟨hlive, hva, hrandom⟩ := henabled
      obtain ⟨⟨pa, m₁⟩, hs, hstore⟩ := bind_eq_ok.mp hstep
      cases hstore
      obtain ⟨hfaulted, pte, hlook, hpresent, rfl⟩ :=
        (access_spec h hlive hva hrandom).of_ok hs
      exact ⟨_, rfl, Agrees.store hfaulted.paging (hfaulted.agrees hex ha) hlook hpresent hva byte⟩

/-- A swap area that was exhausted stays marked so. -/
theorem step_exhausted {event : MemEvent} (h : Paging m none)
    (hstep : memSystem.step m event m') (hex : m'.swapExhausted = false) :
    m.swapExhausted = false := by
  have hmono : m.swapExhausted = true → m'.swapExhausted = true := by
    obtain ⟨henabled, hstep⟩ := hstep
    cases event with
    | initPcb =>
        cases hstep
        rw [initPcb_eq h.dirs]
        exact id
    | kill pid =>
        cases hstep
        unfold kill
        split <;> exact id
    | tick =>
        cases hstep
        exact id
    | fault pid va random =>
        obtain ⟨hlive, hva, hrandom⟩ := henabled
        exact ((fault_spec h hlive hva hrandom).of_ok hstep).1.exhausted
    | load pid va random value =>
        obtain ⟨hlive, hva, hrandom⟩ := henabled
        obtain ⟨s, hs, hload⟩ := bind_eq_ok.mp hstep
        cases hload
        exact ((access_spec h hlive hva hrandom).of_ok hs).1.exhausted
    | store pid va random byte =>
        obtain ⟨hlive, hva, hrandom⟩ := henabled
        obtain ⟨s, hs, hstore⟩ := bind_eq_ok.mp hstep
        cases hstore
        exact ((access_spec h hlive hva hrandom).of_ok hs).1.exhausted
  cases hm : m.swapExhausted with
  | false => rfl
  | true =>
      rw [hmono hm] at hex
      cases hex

/-- A run without `kill` in which swap units last is a run of the flat memories. -/
theorem flat_of_run {memory sd : Nat → UInt8} {events : List MemEvent}
    (run : (memSystem.restrict fun _ e => ¬ e.IsKill).Run (boot memory sd) events m)
    (hex : m.swapExhausted = false) :
    ∃ a, flatSystem.Run (fun _ _ => none) events a ∧ Agrees m a := by
  refine run.simulate (I := fun m => Paging m none) (P := fun m => m.swapExhausted = false)
    ?_ ?_ ?_ (boot_paging memory sd) ?_ hex
  · rintro m₁ event m₂ h ⟨hkill, hstep⟩
    exact step_paging h (MemEvent.sparesPages_of_not_isKill hkill) hstep
  · rintro m₁ event m₂ h ⟨-, hstep⟩ hex
    exact step_exhausted h hstep hex
  · rintro m₁ a event m₂ h ha ⟨hkill, hstep⟩ hex
    exact step_agrees h ha hkill hstep hex
  · intro pid va byte hbyte
    cases hbyte

/-- Every load returns the latest byte stored, and no access faults for ever. -/
theorem transparency_of_run {memory sd : Nat → UInt8} {events : List MemEvent}
    (run : (memSystem.restrict fun _ e => ¬ e.IsKill).Run (boot memory sd) events m)
    (hex : m.swapExhausted = false) :
    (∃ a, flatSystem.Run (fun _ _ => none) events a) ∧
    (∀ before pid va random value after byte,
      events = before ++ [.load pid va random value] ++ after →
      lastStore pid va before = some byte → value = byte) ∧
    ∀ pid va random, Allocated m.pidList maxTaskNum pid → va < 2 ^ 31 →
      random < tlbEntryNumber → Meets IsPanic (fun _ => True) (m.access pid va random) := by
  obtain ⟨a, hflat, -⟩ := flat_of_run run hex
  refine ⟨⟨a, hflat⟩, ?_, ?_⟩
  · intro before pid va random value after byte hevents hlast
    rw [hevents] at hflat
    obtain ⟨b, hflat, -⟩ := hflat.split
    obtain ⟨c, hflat, hload⟩ := hflat.unsnoc
    rw [← flat_lastStore hflat] at hlast
    exact hload.2 byte hlast
  · intro pid va random hlive hva hrandom
    have h : Paging m none :=
      paging_of_run (run.restrict_mono fun _ _ => MemEvent.sparesPages_of_not_isKill)
    exact (access_spec h hlive hva hrandom).mono fun _ _ => trivial

/-- The first task stores a byte and loads it again. -/
theorem transparency_first_byte : ∃ before value m,
    (memSystem.restrict fun _ e => ¬ e.IsKill).Run (boot (fun _ => 0) fun _ => 0)
      (before ++ [.load 1 0x1234 0 value]) m ∧
    m.swapExhausted = false ∧ lastStore 1 0x1234 before = some 7 ∧ value = 7 := by
  let m₁ := (boot (fun _ => 0) fun _ => 0).initPcb
  let m₂ := (m₁.store 1 0x1234 0 7).toOption.getD m₁
  let s := (m₂.load 1 0x1234 0).toOption.getD (0, m₂)
  have hspawn : memSystem.step (boot (fun _ => 0) fun _ => 0) .initPcb m₁ := ⟨trivial, rfl⟩
  have hstore : memSystem.step m₁ (.store 1 0x1234 0 7) m₂ :=
    ⟨⟨by decide +kernel, by decide, by decide⟩, eq_ok_getD (by decide +kernel) m₁⟩
  have hload : memSystem.step m₂ (.load 1 0x1234 0 s.1) s.2 :=
    ⟨⟨by decide +kernel, by decide, by decide⟩, eq_ok_getD (by decide +kernel) (0, m₂)⟩
  have run := ((Lts.Run.single (L := memSystem.restrict fun _ e => ¬ e.IsKill)
    ⟨id, hspawn⟩).snoc ⟨id, hstore⟩).snoc ⟨id, hload⟩
  have hex : s.2.swapExhausted = false := by decide +kernel
  exact ⟨_, _, _, run, hex, rfl, (transparency_of_run run hex).2.1 _ 1 0x1234 0 s.1 [] 7
    (List.append_nil _).symm rfl⟩

end UcasOs.Mm
