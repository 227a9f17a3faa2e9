import Mathlib.Algebra.GroupWithZero.Nat
import Mathlib.Data.Fin.Basic
import Mathlib.Data.List.Basic
import Mathlib.Logic.Function.Basic

/-!
# A few MIPS instructions

Straight-line code that moves words between the registers, coprocessor 0 and
memory.  Memory is a word at every address; code that only uses aligned
addresses never sees two words overlap.
-/

namespace UcasOs.Foundation.Mips

abbrev Reg := Fin 32

instance instNeZeroReg : NeZero 32 := ⟨Nat.succ_ne_zero 31⟩

inductive Cp0 where
  | status
  | cause
  | epc
  | badVAddr
  deriving DecidableEq, Repr

inductive Instr where
  /-- `lw rt, symbol`, which the assembler makes of `lui` and `lw` on `rt` -/
  | lwSymbol (rt : Reg) (symbol : UInt32)
  | lw (rt : Reg) (offset : UInt32) (base : Reg)
  | sw (rt : Reg) (offset : UInt32) (base : Reg)
  | addiu (rt rs : Reg) (imm : UInt32)
  | mfc0 (rt : Reg) (c : Cp0)
  | mtc0 (rt : Reg) (c : Cp0)
  | mfhi (rt : Reg)
  | mflo (rt : Reg)
  | mthi (rs : Reg)
  | mtlo (rs : Reg)
  deriving DecidableEq, Repr

@[ext] structure State where
  reg : Reg → UInt32
  cp0 : Cp0 → UInt32
  hi : UInt32
  lo : UInt32
  mem : UInt32 → UInt32

namespace State

/-- Register 0 stays zero. -/
def setReg (s : State) (rt : Reg) (value : UInt32) : State :=
  if rt = 0 then s else { s with reg := Function.update s.reg rt value }

def store (s : State) (a value : UInt32) : State := { s with mem := Function.update s.mem a value }

/-- What the hardware does to coprocessor 0 on its own. -/
def setCp0 (s : State) (cp0 : Cp0 → UInt32) : State := { s with cp0 }

def exec (s : State) : Instr → State
  | .lwSymbol rt symbol => s.setReg rt (s.mem symbol)
  | .lw rt offset base => s.setReg rt (s.mem (s.reg base + offset))
  | .sw rt offset base => s.store (s.reg base + offset) (s.reg rt)
  | .addiu rt rs imm => s.setReg rt (s.reg rs + imm)
  | .mfc0 rt c => s.setReg rt (s.cp0 c)
  | .mtc0 rt c => { s with cp0 := Function.update s.cp0 c (s.reg rt) }
  | .mfhi rt => s.setReg rt s.hi
  | .mflo rt => s.setReg rt s.lo
  | .mthi rs => { s with hi := s.reg rs }
  | .mtlo rs => { s with lo := s.reg rs }

def run (code : List Instr) (s : State) : State := code.foldl exec s

variable (s : State)

@[simp] theorem run_nil : run [] s = s := rfl

@[simp] theorem run_cons (i : Instr) (code : List Instr) :
    run (i :: code) s = run code (s.exec i) := rfl

theorem run_append (code code' : List Instr) : run (code ++ code') s = run code' (run code s) :=
  List.foldl_append

/-! ## Blocks of stores and loads -/

/-- Storing registers at distinct offsets from one that is not changed. -/
theorem run_stores (offset : Reg → UInt32) (base : Reg) (regs : List Reg)
    (hinj : ∀ r ∈ regs, ∀ r' ∈ regs, offset r = offset r' → r = r') :
    ∃ mem, run (regs.map fun r => .sw r (offset r) base) s = { s with mem } ∧
      (∀ r ∈ regs, mem (s.reg base + offset r) = s.reg r) ∧
      ∀ a, (∀ r ∈ regs, a ≠ s.reg base + offset r) → mem a = s.mem a := by
  induction regs generalizing s with
  | nil => exact ⟨s.mem, rfl, fun _ hr => absurd hr List.not_mem_nil, fun _ _ => rfl⟩
  | cons r regs ih =>
      obtain ⟨mem, hrun, hstored, hframe⟩ := ih (s.store (s.reg base + offset r) (s.reg r))
        fun r hr r' hr' => hinj r (List.mem_cons_of_mem _ hr) r' (List.mem_cons_of_mem _ hr')
      refine ⟨mem, hrun, fun r' hr' => ?_, fun a ha => ?_⟩
      · by_cases hmem : r' ∈ regs
        · exact hstored r' hmem
        · obtain rfl := (List.mem_cons.mp hr').resolve_right hmem
          refine (hframe _ fun r hr heq => hmem ?_).trans (Function.update_self _ _ _)
          have hoffset : offset r' = offset r := by simpa [store] using heq
          rwa [hinj r' hr' r (List.mem_cons_of_mem _ hr) hoffset]
      · rw [hframe a fun r hr => ha r (List.mem_cons_of_mem _ hr)]
        exact Function.update_of_ne (ha r List.mem_cons_self) _ _

/-- Loading registers, none of which is the base. -/
theorem run_loads (offset : Reg → UInt32) {base : Reg} {regs : List Reg} (hbase : base ∉ regs)
    (hzero : 0 ∉ regs) :
    ∃ reg, run (regs.map fun r => .lw r (offset r) base) s = { s with reg } ∧
      (∀ r ∈ regs, reg r = s.mem (s.reg base + offset r)) ∧ ∀ r, r ∉ regs → reg r = s.reg r := by
  induction regs generalizing s with
  | nil => exact ⟨s.reg, rfl, fun _ hr => absurd hr List.not_mem_nil, fun _ _ => rfl⟩
  | cons r regs ih =>
      rw [List.mem_cons, not_or] at hbase hzero
      have hset : s.setReg r (s.mem (s.reg base + offset r)) =
          { s with reg := Function.update s.reg r (s.mem (s.reg base + offset r)) } :=
        if_neg (Ne.symm hzero.1)
      obtain ⟨reg, hrun, hloaded, hframe⟩ := ih (s.exec (.lw r (offset r) base)) hbase.2 hzero.2
      rw [exec, hset] at hrun hloaded hframe
      dsimp only at hloaded hframe
      rw [Function.update_of_ne hbase.1] at hloaded
      refine ⟨reg, ?_, fun x hx => ?_, fun x hx => ?_⟩
      · rw [List.map_cons, run_cons, exec, hset, hrun]
      · by_cases hmem : x ∈ regs
        · exact hloaded x hmem
        · obtain rfl := (List.mem_cons.mp hx).resolve_right hmem
          rw [hframe x hmem, Function.update_self]
      · rw [List.mem_cons, not_or] at hx
        rw [hframe x hx.2, Function.update_of_ne hx.1]

end State

end UcasOs.Foundation.Mips
