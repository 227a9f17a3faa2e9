import UcasOs.Foundation.Mips
import Mathlib.Data.UInt

/-!
# Register contexts

The macros of `arch/mips/kernel/asm.S` that save the registers of the running
task in its PCB and load them from there.
-/

namespace UcasOs.Arch

open UcasOs.Foundation UcasOs.Foundation.Mips

def k0 : Reg := 26

def k1 : Reg := 27

def v0 : Reg := 2

/-- The registers of a context; `$0`, `k0` and `k1` are left out. -/
def savedRegs : List Reg :=
  [1, 2, 3, 4, 5, 6, 7, 8, 9, 10, 11, 12, 13, 14, 15, 16, 17, 18, 19, 20, 21, 22, 23, 24, 25,
    28, 29, 30, 31]

def offsetReg (r : Reg) : UInt32 := 4 * UInt32.ofNat r

def offsetStatus : UInt32 := 128

def offsetCause : UInt32 := 132

def offsetEpc : UInt32 := 136

def offsetBadVAddr : UInt32 := 140

def offsetHi : UInt32 := 144

def offsetLo : UInt32 := 148

def loadContext (currentRunning offset : UInt32) : List Instr :=
  [.lwSymbol k0 currentRunning, .addiu k0 k0 offset]

def saveSpecialRegs : List Instr :=
  [.mfc0 k1 .status, .sw k1 offsetStatus k0,
    .mfc0 k1 .cause, .sw k1 offsetCause k0,
    .mfc0 k1 .epc, .sw k1 offsetEpc k0,
    .mfc0 k1 .badVAddr, .sw k1 offsetBadVAddr k0,
    .mfhi k1, .sw k1 offsetHi k0,
    .mflo k1, .sw k1 offsetLo k0]

/-- `currentRunning` is the address of the variable. -/
def saveRegsContext (currentRunning offset : UInt32) : List Instr :=
  loadContext currentRunning offset ++ savedRegs.map (fun r => .sw r (offsetReg r) k0) ++
    saveSpecialRegs

def restoreSpecialRegs : List Instr :=
  [.lw k1 offsetEpc k0, .mtc0 k1 .epc,
    .lw k1 offsetHi k0, .mthi k1,
    .lw k1 offsetLo k0, .mtlo k1]

def restoreRegsContext (currentRunning offset : UInt32) : List Instr :=
  loadContext currentRunning offset ++ savedRegs.map (fun r => .lw r (offsetReg r) k0) ++
    restoreSpecialRegs

/-! ## What they do -/

/--
The words at `c` are the registers of `s`.  If a system call has been `answered`, its result is in
`v0`, and the task goes on behind the call.
-/
structure SavedAt (answered : Bool) (s : State) (mem : UInt32 → UInt32) (c : UInt32) : Prop where
  regs : ∀ r ∈ savedRegs, (answered = true → r ≠ v0) → mem (c + offsetReg r) = s.reg r
  epc : answered = false → mem (c + offsetEpc) = s.cp0 .epc
  hi : mem (c + offsetHi) = s.hi
  lo : mem (c + offsetLo) = s.lo

/-- The registers of `s` are the words at `c`. -/
structure LoadedFrom (s : State) (mem : UInt32 → UInt32) (c : UInt32) : Prop where
  regs : ∀ r ∈ savedRegs, s.reg r = mem (c + offsetReg r)
  epc : s.cp0 .epc = mem (c + offsetEpc)
  hi : s.hi = mem (c + offsetHi)
  lo : s.lo = mem (c + offsetLo)

/-- `s'` has the registers of `s`. -/
structure SameRegs (answered : Bool) (s s' : State) : Prop where
  regs : ∀ r ∈ savedRegs, (answered = true → r ≠ v0) → s'.reg r = s.reg r
  epc : answered = false → s'.cp0 .epc = s.cp0 .epc
  hi : s'.hi = s.hi
  lo : s'.lo = s.lo

/-- The addresses of a context. -/
def InContext (c a : UInt32) : Prop := ∃ i < 152, a = c + UInt32.ofNat i

theorem inContext_offsetReg (c : UInt32) (r : Reg) : InContext c (c + offsetReg r) := by
  refine ⟨4 * r, by omega, ?_⟩
  rw [offsetReg, UInt32.ofNat_mul]
  rfl

theorem inContext_offsetEpc (c : UInt32) : InContext c (c + offsetEpc) := ⟨136, by decide, rfl⟩

theorem inContext_offsetHi (c : UInt32) : InContext c (c + offsetHi) := ⟨144, by decide, rfl⟩

theorem inContext_offsetLo (c : UInt32) : InContext c (c + offsetLo) := ⟨148, by decide, rfl⟩

section
variable {answered : Bool} {s s' : State} {mem mem' : UInt32 → UInt32} {c : UInt32}

theorem SavedAt.loaded (h : SavedAt answered s mem c) (h' : LoadedFrom s' mem c) :
    SameRegs answered s s' where
  regs r hr hv0 := (h'.regs r hr).trans (h.regs r hr hv0)
  epc hnot := h'.epc.trans (h.epc hnot)
  hi := h'.hi.trans h.hi
  lo := h'.lo.trans h.lo

theorem SavedAt.weaken (h : SavedAt false s mem c) (answered : Bool) :
    SavedAt answered s mem c where
  regs r hr _ := h.regs r hr (fun hf => absurd hf (by decide))
  epc _ := h.epc rfl
  hi := h.hi
  lo := h.lo

/-- Only the answer may have been written. -/
theorem SavedAt.congr (h : SavedAt answered s mem c)
    (hmem : ∀ a, InContext c a →
      ¬ (answered = true ∧ (a = c + offsetReg v0 ∨ a = c + offsetEpc)) → mem' a = mem a) :
    SavedAt answered s mem' c where
  regs r hr hv0 := by
      have hinj : ∀ r ∈ savedRegs, offsetReg r = offsetReg v0 → r = v0 := by decide
      have hepc : ∀ r ∈ savedRegs, offsetReg r ≠ offsetEpc := by decide
      refine (hmem _ (inContext_offsetReg c r) ?_).trans (h.regs r hr hv0)
      rintro ⟨hanswered, heq | heq⟩
      · exact hv0 hanswered (hinj r hr (add_left_cancel heq))
      · exact hepc r hr (add_left_cancel heq)
  epc hnot := by
      refine (hmem _ (inContext_offsetEpc c) ?_).trans (h.epc hnot)
      rintro ⟨hanswered, -⟩
      exact absurd (hanswered.symm.trans hnot) (by decide)
  hi := by
      refine (hmem _ (inContext_offsetHi c) ?_).trans h.hi
      rintro ⟨-, heq | heq⟩ <;> exact absurd (add_left_cancel heq) (by decide)
  lo := by
      refine (hmem _ (inContext_offsetLo c) ?_).trans h.lo
      rintro ⟨-, heq | heq⟩ <;> exact absurd (add_left_cancel heq) (by decide)

theorem LoadedFrom.congr (h : LoadedFrom s mem c) (hmem : ∀ a, InContext c a → mem a = mem' a) :
    LoadedFrom s mem' c where
  regs r hr := (h.regs r hr).trans (hmem _ (inContext_offsetReg c r))
  epc := h.epc.trans (hmem _ (inContext_offsetEpc c))
  hi := h.hi.trans (hmem _ (inContext_offsetHi c))
  lo := h.lo.trans (hmem _ (inContext_offsetLo c))

end

theorem k0_ne_zero : k0 ≠ 0 := by decide

theorem k1_ne_zero : k1 ≠ 0 := by decide

theorem k0_ne_k1 : k0 ≠ k1 := by decide

theorem run_loadContext (s : State) (currentRunning offset : UInt32) :
    State.run (loadContext currentRunning offset) s =
      { s with reg := Function.update s.reg k0 (s.mem currentRunning + offset) } := by
  simp [loadContext, State.exec, State.setReg, k0_ne_zero]

/-- The special registers of a context with their offsets. -/
def specials (s : State) : List (UInt32 × UInt32) :=
  [(offsetStatus, s.cp0 .status), (offsetCause, s.cp0 .cause), (offsetEpc, s.cp0 .epc),
    (offsetBadVAddr, s.cp0 .badVAddr), (offsetHi, s.hi), (offsetLo, s.lo)]

def storeAll (c : UInt32) (words : List (UInt32 × UInt32)) (mem : UInt32 → UInt32) :
    UInt32 → UInt32 :=
  words.foldl (fun mem word => Function.update mem (c + word.1) word.2) mem

theorem storeAll_frame {c a : UInt32} {words : List (UInt32 × UInt32)} (mem : UInt32 → UInt32)
    (h : ∀ word ∈ words, a ≠ c + word.1) : storeAll c words mem a = mem a := by
  induction words generalizing mem with
  | nil => rfl
  | cons word words ih =>
      refine (ih _ fun w hw => h w (List.mem_cons_of_mem _ hw)).trans ?_
      exact Function.update_of_ne (h word List.mem_cons_self) _ _

theorem storeAll_mem {c value o : UInt32} {words : List (UInt32 × UInt32)}
    (mem : UInt32 → UInt32) (hnodup : (words.map Prod.fst).Nodup) (hmem : (o, value) ∈ words) :
    storeAll c words mem (c + o) = value := by
  induction words generalizing mem with
  | nil => exact absurd hmem List.not_mem_nil
  | cons word words ih =>
      rw [List.map_cons, List.nodup_cons] at hnodup
      rcases List.mem_cons.mp hmem with rfl | hmem
      · have hlast : storeAll c words (Function.update mem (c + o) value) (c + o) =
            Function.update mem (c + o) value (c + o) := by
          refine storeAll_frame _ fun w hw heq => hnodup.1 ?_
          exact List.mem_map.mpr ⟨w, hw, (add_left_cancel heq).symm⟩
        exact hlast.trans (Function.update_self _ _ _)
      · exact ih _ hnodup.2 hmem

theorem run_saveSpecialRegs (s : State) :
    (State.run saveSpecialRegs s).mem = storeAll (s.reg k0) (specials s) s.mem := by
  simp [saveSpecialRegs, State.exec, State.setReg, State.store, storeAll, specials, k0_ne_k1,
    k1_ne_zero]

theorem run_restoreSpecialRegs (s : State) :
    State.run restoreSpecialRegs s =
      { s with
        reg := Function.update s.reg k1 (s.mem (s.reg k0 + offsetLo))
        cp0 := Function.update s.cp0 .epc (s.mem (s.reg k0 + offsetEpc))
        hi := s.mem (s.reg k0 + offsetHi)
        lo := s.mem (s.reg k0 + offsetLo) } := by
  simp [restoreSpecialRegs, State.exec, State.setReg, k0_ne_k1, k1_ne_zero]

theorem run_saveRegsContext (s : State) (currentRunning offset : UInt32) :
    SavedAt false s (State.run (saveRegsContext currentRunning offset) s).mem
        (s.mem currentRunning + offset) ∧
      ∀ a, ¬ InContext (s.mem currentRunning + offset) a →
        (State.run (saveRegsContext currentRunning offset) s).mem a = s.mem a := by
  have hinj : ∀ r ∈ savedRegs, ∀ r' ∈ savedRegs, offsetReg r = offsetReg r' → r = r' := by
    decide
  have hne : ∀ r, ∀ word ∈ specials s, offsetReg r ≠ word.1 := by
    intro r
    simp only [specials, List.forall_mem_cons]
    exact ⟨by revert r; decide, by revert r; decide, by revert r; decide, by revert r; decide,
      by revert r; decide, by revert r; decide, fun _ h => absurd h List.not_mem_nil⟩
  have hnodup : ((specials s).map Prod.fst).Nodup :=
    (by decide : [offsetStatus, offsetCause, offsetEpc, offsetBadVAddr, offsetHi, offsetLo].Nodup)
  have hplace : ∀ word ∈ specials s, ∃ i < 152, word.1 = UInt32.ofNat i := by
    simp only [specials, List.forall_mem_cons]
    exact ⟨⟨128, by decide⟩, ⟨132, by decide⟩, ⟨136, by decide⟩, ⟨140, by decide⟩,
      ⟨144, by decide⟩, ⟨148, by decide⟩, fun _ h => absurd h List.not_mem_nil⟩
  rw [saveRegsContext, State.run_append, State.run_append, run_loadContext, run_saveSpecialRegs]
  generalize s.mem currentRunning + offset = c
  obtain ⟨mem, hrun, hstored, hframe⟩ := State.run_stores
    { s with reg := Function.update s.reg k0 c } offsetReg k0 savedRegs hinj
  rw [hrun]
  have hspecials : specials { s with reg := Function.update s.reg k0 c, mem := mem } = specials s :=
    rfl
  dsimp only at hstored hframe ⊢
  rw [Function.update_self] at hstored hframe ⊢
  rw [hspecials]
  refine ⟨⟨fun r hr _ => ?_, fun _ => ?_, ?_, ?_⟩, fun a ha => ?_⟩
  · rw [storeAll_frame _ fun word hword heq => hne r word hword (add_left_cancel heq), hstored r hr]
    refine Function.update_of_ne ?_ _ _
    rintro rfl
    exact absurd hr (by decide)
  · exact storeAll_mem mem hnodup (by simp [specials])
  · exact storeAll_mem mem hnodup (by simp [specials])
  · exact storeAll_mem mem hnodup (by simp [specials])
  · have hspecial : ∀ word ∈ specials s, a ≠ c + word.1 := by
      rintro word hword rfl
      obtain ⟨i, hi, heq⟩ := hplace word hword
      exact ha ⟨i, hi, by rw [heq]⟩
    rw [storeAll_frame mem hspecial]
    refine hframe a ?_
    rintro r - rfl
    exact ha (inContext_offsetReg c r)

/-- The registers that the macro leaves alone are of no use to anyone. -/
theorem run_restoreRegsContext (s : State) (currentRunning offset : UInt32) :
    LoadedFrom (State.run (restoreRegsContext currentRunning offset) s) s.mem
        (s.mem currentRunning + offset) ∧
      (State.run (restoreRegsContext currentRunning offset) s).mem = s.mem := by
  have hk0 : k0 ∉ savedRegs := by decide
  have hzero : (0 : Reg) ∉ savedRegs := by decide
  have hk1 : k1 ∉ savedRegs := by decide
  rw [restoreRegsContext, State.run_append, State.run_append, run_loadContext]
  generalize s.mem currentRunning + offset = c
  obtain ⟨reg, hrun, hloaded, hframe⟩ := State.run_loads
    { s with reg := Function.update s.reg k0 c } offsetReg hk0 hzero
  have hbase : reg k0 = c := (hframe k0 hk0).trans (Function.update_self k0 c s.reg)
  rw [hrun, run_restoreSpecialRegs]
  dsimp only at hloaded ⊢
  rw [Function.update_self] at hloaded
  rw [hbase]
  refine ⟨⟨fun r hr => ?_, rfl, rfl, rfl⟩, rfl⟩
  have hr1 : r ≠ k1 := by
    rintro rfl
    exact hk1 hr
  simp [hr1, hloaded r hr]

end UcasOs.Arch
