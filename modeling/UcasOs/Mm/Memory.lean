import Mathlib.Data.BitVec
import UcasOs.Foundation.Run
import UcasOs.Foundation.Word
import UcasOs.Sched.Kernel

/-!
# Page tables, the TLB and the swap area

`kernel/mm/memory.c`, `kernel/exception/tlb.c` and the TLB routines of
`arch/mips/kernel/asm.S`.  A page table entry and a TLB entry cover a pair of
pages, 8 KB, and so does a frame of physical memory or a unit of the swap area.
The waiting of `swap_out` and `swap_in` for the I/O task is not part of this
model: a request is served as soon as it is posted.
-/

namespace UcasOs.Mm

open UcasOs.Foundation UcasOs.Libs UcasOs.Sched

/-! ## Constants -/

def pdeNumber : Nat := 512

def pteNumber : Nat := 512

def pageTablePoolSlistSize : Nat := 21

def pmSlistSize : Nat := 2049

def pmBase : Nat := 0x01000000

def pmScheSize : Nat := 0x00002000

def swapAreaSize : Nat := 1025

def swapAreaBase : Nat := 0x700200

def swapAreaUintSize : Nat := 0x2000

def tlbEntryNumber : Nat := 32

/-! ## Data -/

structure Pde where
  poolNum : Nat
  valid : Bool

/-- `addr` is the union of `PFN` and `swap_area_addr`. -/
structure Pte where
  addr : Nat
  valid : Bool
  present : Bool
  deriving DecidableEq

structure TlbEntry where
  entryHi : Nat
  entryLo0 : Nat
  entryLo1 : Nat

inductive IoTaskType where
  | read
  | write
  deriving DecidableEq, Repr

structure IoTask where
  type : IoTaskType
  buffer : Nat
  base : Nat
  n : Nat
  deriving DecidableEq, Repr

/-- `swapExhausted` records that `swap_area_alloc` has been called with no unit free. -/
structure Machine where
  pidList : Slist
  timeElapsed : BitVec 32
  pageDir : Pid → Nat → Pde
  pageTablePool : Nat → Nat → Pte
  ptPoolSlist : Slist
  pmSlist : Slist
  pmPid : Int → Nat
  pmVpn : Int → Nat
  swapAreaSlist : Slist
  tlb : Nat → TlbEntry
  ioTask : IoTask
  memory : Nat → UInt8
  sd : Nat → UInt8
  swapExhausted : Bool

/-- Conversion to `uint32_t`. -/
def u32 (x : Int) : Nat := (x % 2 ^ 32).toNat

/-! ## The TLB -/

/-- The page pair and the ASID agree; no entry is global, as bit 0 of `EntryLo` is never set. -/
def TlbEntry.hit (e : TlbEntry) (entryHi : Nat) : Bool :=
  e.entryHi >>> 13 == entryHi >>> 13 && e.entryHi &&& 0xff == entryHi &&& 0xff

def tlbp (tlb : Nat → TlbEntry) (entryHi : Nat) : Option Nat :=
  (List.range tlbEntryNumber).find? fun i => (tlb i).hit entryHi

def initTlb (_ : Nat → TlbEntry) : Nat → TlbEntry := fun _ => ⟨0x80000000, 0, 0⟩

def setTlbInvalid (tlb : Nat → TlbEntry) (entryHi : Nat) : Nat → TlbEntry :=
  match tlbp tlb entryHi with
  | none => tlb
  | some index => Function.update tlb index ⟨entryHi, 0, 0⟩

/-- The valid bit of an `EntryLo`. -/
def loValid (entryLo : Nat) : Bool := (entryLo >>> 1) &&& 1 == 1

/-- The physical address of an access that hits a valid entry. -/
def translate (tlb : Nat → TlbEntry) (entryHi va : Nat) : Option Nat :=
  match tlbp tlb entryHi with
  | none => none
  | some index =>
      let entryLo := if (va >>> 12) &&& 1 = 0 then (tlb index).entryLo0 else (tlb index).entryLo1
      if loValid entryLo then some (((entryLo >>> 6) <<< 12) ||| (va &&& 0xfff)) else none

/-! ## Allocation -/

def pageDirInit (pd : Nat → Pde) : Nat → Pde := fun i =>
  if i < pdeNumber then { pd i with valid := false } else pd i

def pageTableInit (pt : Nat → Pte) : Nat → Pte := fun i =>
  if i < pteNumber then { pt i with valid := false } else pt i

namespace Machine

def pmAlloc (m : Machine) : Int × Machine :=
  let (index, pmSlist) := slistAlloc m.pmSlist
  ((index : Int) - 1, { m with pmSlist })

def pmFree (m : Machine) (index : Int) : Machine :=
  { m with pmSlist := (slistFree m.pmSlist (index + 1) pmSlistSize).2 }

def ptPoolAlloc (m : Machine) : Int × Machine :=
  let (index, ptPoolSlist) := slistAlloc m.ptPoolSlist
  ((index : Int) - 1, { m with ptPoolSlist })

def swapAreaAlloc (m : Machine) : Nat × Machine :=
  let (index, swapAreaSlist) := slistAlloc m.swapAreaSlist
  (u32 (swapAreaBase + ((index : Int) - 1) * swapAreaUintSize),
    { m with swapAreaSlist, swapExhausted := m.swapExhausted || index == 0 })

def swapAreaFree (m : Machine) (address : Nat) : Machine :=
  let index := u32 ((address : Int) - swapAreaBase) / swapAreaUintSize + 1
  { m with swapAreaSlist := (slistFree m.swapAreaSlist index swapAreaSize).2 }

def getTimer (m : Machine) : BitVec 32 := m.timeElapsed * 10

def swapScheduler (m : Machine) : Nat := 2 + m.getTimer.toNat % (pmSlistSize - 3)

/-! ## Requests to the I/O task -/

/-- The physical address behind an address of the unmapped, uncached segment. -/
def unmapped (address : Nat) : Nat := address &&& 0x1fffffff

def sdwrite (m : Machine) (buffer base n : Nat) : Machine :=
  let sd := fun a =>
    if base ≤ a ∧ a < base + n then m.memory (unmapped buffer + (a - base)) else m.sd a
  { m with sd }

def sdread (m : Machine) (buffer base n : Nat) : Machine :=
  let memory := fun a =>
    if unmapped buffer ≤ a ∧ a < unmapped buffer + n then m.sd (base + (a - unmapped buffer))
    else m.memory a
  { m with memory }

/-- The body of the loop of `sw_io_proc`, for the request that it has read. -/
def transfer (m : Machine) (ioTask : IoTask) : Machine :=
  match ioTask.type with
  | .write => m.sdwrite ioTask.buffer ioTask.base ioTask.n
  | .read => m.sdread ioTask.buffer ioTask.base ioTask.n

/-- A request is posted and served. -/
def post (m : Machine) (ioTask : IoTask) : Machine := { m with ioTask }.transfer ioTask

/-! ## Swapping -/

def modifyPte (m : Machine) (poolNum pageTableNum : Nat) (f : Pte → Pte) : Machine :=
  { m with
    pageTablePool := Function.update m.pageTablePool poolNum
      (Function.update (m.pageTablePool poolNum) pageTableNum
        (f (m.pageTablePool poolNum pageTableNum))) }

def physicalAddress (pmIndex : Int) : Nat := u32 (pmBase + pmIndex * pmScheSize)

def kernelAddress (pa : Nat) : Nat := pa ||| 0xa0000000

/-- `swap_out` up to its request: the task that loses the frame, and the request. -/
def evict (m : Machine) : Pid × IoTask × Machine :=
  let pmIndex : Int := m.swapScheduler
  let pid := m.pmPid pmIndex % 2 ^ 8
  let vpn := m.pmVpn pmIndex
  let pageDirNum := vpn >>> 22
  let pageTableNum := (vpn >>> 13) &&& 0x1ff
  let poolNum := (m.pageDir pid pageDirNum).poolNum
  let m := m.pmFree pmIndex
  let buffer := kernelAddress (physicalAddress pmIndex)
  let (base, m) := m.swapAreaAlloc
  let m := m.modifyPte poolNum pageTableNum fun pte => { pte with present := false, addr := base }
  let entryHi := (vpn &&& 0xffffe000) ||| pid
  let m := { m with tlb := setTlbInvalid m.tlb entryHi }
  (pid, ⟨.write, buffer, base, swapAreaUintSize⟩, m)

def swapOut (m : Machine) : Machine :=
  let (_, ioTask, m) := m.evict
  m.post ioTask

/-- A free frame, after an eviction if there is none. -/
def pmAllocSwapping (m : Machine) : Int × Machine :=
  let (pmIndex, m) := m.pmAlloc
  if pmIndex = -1 then m.swapOut.pmAlloc else (pmIndex, m)

/-- Record that the frame holds the page of `badvaddr`. -/
def stamp (m : Machine) (pmIndex : Int) (pid : Pid) (badvaddr : Nat) : Machine :=
  { m with
    pmPid := Function.update m.pmPid pmIndex pid
    pmVpn := Function.update m.pmVpn pmIndex (badvaddr &&& 0xfffff000) }

def frameNumber (pmIndex : Int) : Nat := physicalAddress pmIndex >>> 12

/-- The request of `swap_in`. -/
def readRequest (address : Nat) (pmIndex : Int) : IoTask :=
  ⟨.read, kernelAddress (physicalAddress pmIndex), address, swapAreaUintSize⟩

/-- `swap_in` after its request. -/
def swapInEnd (m : Machine) (current : Pid) (poolNum pageTableNum badvaddr address : Nat)
    (pmIndex : Int) : Machine :=
  let m := m.swapAreaFree address
  let m := m.modifyPte poolNum pageTableNum fun pte =>
    { pte with addr := frameNumber pmIndex, present := true }
  m.stamp pmIndex current badvaddr

def swapIn (m : Machine) (current : Pid) (poolNum pageTableNum badvaddr : Nat) : Machine :=
  let address := (m.pageTablePool poolNum pageTableNum).addr
  let (pmIndex, m) := m.pmAllocSwapping
  let m := m.post (readRequest address pmIndex)
  m.swapInEnd current poolNum pageTableNum badvaddr address pmIndex

/-! ## TLB exceptions -/

/-- The page table of `badvaddr`, made on the first fault in its 4 MB. -/
def pageTableOf (m : Machine) (current : Pid) (pageDirNum : Nat) : Except Fault (Nat × Machine) :=
  if (m.pageDir current pageDirNum).valid then
    .ok ((m.pageDir current pageDirNum).poolNum, m)
  else
    let (poolNum, m) := m.ptPoolAlloc
    if poolNum = -1 then .error (.panic "Empty page table pool.")
    else
      let poolNum := poolNum.toNat
      .ok (poolNum,
        { m with
          pageTablePool := Function.update m.pageTablePool poolNum
            (pageTableInit (m.pageTablePool poolNum))
          pageDir := Function.update m.pageDir current
            (Function.update (m.pageDir current) pageDirNum ⟨poolNum, true⟩) })

/-- A page that has no frame yet gets the frame `pmIndex`. -/
def mapFrame (m : Machine) (current : Pid) (poolNum pageTableNum badvaddr : Nat) (pmIndex : Int) :
    Machine :=
  (m.stamp pmIndex current badvaddr).modifyPte poolNum pageTableNum fun _ =>
    ⟨frameNumber pmIndex, true, true⟩

/-- The frame of `badvaddr` comes into memory, or is there already. -/
def pageIn (m : Machine) (current : Pid) (poolNum pageTableNum badvaddr : Nat) : Machine :=
  if (m.pageTablePool poolNum pageTableNum).valid then
    if (m.pageTablePool poolNum pageTableNum).present then m
    else m.swapIn current poolNum pageTableNum badvaddr
  else
    let (pmIndex, m) := m.pmAllocSwapping
    m.mapFrame current poolNum pageTableNum badvaddr pmIndex

def entryLo (pfn : Nat) : Nat := (pfn <<< 6) ||| 0b010110

/-- `tlbwr` writes the entry at the arbitrary index `random`, `tlbwi` the one `tlbp` has found. -/
def tlbWrite (tlb : Nat → TlbEntry) (isTlbRefill : Bool) (random : Nat) (e : TlbEntry) :
    Nat → TlbEntry :=
  if isTlbRefill then Function.update tlb random e
  else
    match tlbp tlb e.entryHi with
    | none => tlb
    | some index => Function.update tlb index e

/-- The end of `TLB_exception_helper`: the entry of the page goes into the TLB. -/
def fillTlb (m : Machine) (poolNum pageTableNum entryHi : Nat) (isTlbRefill : Bool)
    (random : Nat) : Machine :=
  let pfn := (m.pageTablePool poolNum pageTableNum).addr
  { m with
    tlb := tlbWrite m.tlb isTlbRefill random ⟨entryHi, entryLo pfn, entryLo (pfn + 1)⟩ }

def tlbExceptionHelper (m : Machine) (current : Pid) (badvaddr entryHi : Nat)
    (isTlbRefill : Bool) (random : Nat) : Except Fault Machine := do
  let pageDirNum := badvaddr >>> 22
  let pageTableNum := (badvaddr >>> 13) &&& 0x1ff
  let (poolNum, m) ← m.pageTableOf current pageDirNum
  let m := m.pageIn current poolNum pageTableNum badvaddr
  return m.fillTlb poolNum pageTableNum entryHi isTlbRefill random

/-! ## Boot, tasks and accesses -/

/-- Static storage is zero, `init_memory` and the part of `init_task` about pids are done. -/
def boot (memory sd : Nat → UInt8) : Machine where
  pidList := slistInit (fun _ => ⟨false, 0⟩) maxTaskNum
  timeElapsed := 0
  pageDir _ _ := ⟨0, false⟩
  pageTablePool _ _ := ⟨0, false, false⟩
  ptPoolSlist := slistInit (fun _ => ⟨false, 0⟩) pageTablePoolSlistSize
  pmSlist := slistInit (fun _ => ⟨false, 0⟩) pmSlistSize
  pmPid _ := 0
  pmVpn _ := 0
  swapAreaSlist := slistInit (fun _ => ⟨false, 0⟩) swapAreaSize
  tlb := initTlb fun _ => ⟨0, 0, 0⟩
  ioTask := ⟨.read, 0, 0, 0⟩
  memory := memory
  sd := sd
  swapExhausted := false

/-- `init_pcb`, as far as the pids and the page directories go. -/
def initPcb (m : Machine) : Machine :=
  let (pid, pidList) := slistAlloc m.pidList
  let m := { m with pidList }
  if pid = 0 then m
  else { m with pageDir := Function.update m.pageDir pid (pageDirInit (m.pageDir pid)) }

/-- `kill`, as far as the pids go: it leaves the memory of the task alone. -/
def kill (m : Machine) (pid : Int) : Machine :=
  if pid = 1 then m else { m with pidList := (slistFree m.pidList pid maxTaskNum).2 }

def tick (m : Machine) : Machine := { m with timeElapsed := m.timeElapsed + 1 }

/-- What EntryHi holds while the task accesses the address. -/
def entryHiOf (pid : Pid) (va : Nat) : Nat := (va &&& 0xffffe000) ||| pid

/-- The exception that an access without a valid entry raises. -/
def fault (m : Machine) (pid : Pid) (va random : Nat) : Except Fault Machine :=
  m.tlbExceptionHelper pid va (entryHiOf pid va) (tlbp m.tlb (entryHiOf pid va)).isNone random

/-- An access that misses raises the exception and is made again. -/
def access (m : Machine) (pid : Pid) (va random : Nat) : Except Fault (Nat × Machine) :=
  match translate m.tlb (entryHiOf pid va) va with
  | some pa => .ok (pa, m)
  | none => do
      let m ← m.fault pid va random
      match translate m.tlb (entryHiOf pid va) va with
      | some pa => .ok (pa, m)
      | none => .error .endlessLoop

def load (m : Machine) (pid : Pid) (va random : Nat) : Except Fault (UInt8 × Machine) := do
  let (pa, m) ← m.access pid va random
  return (m.memory pa, m)

def store (m : Machine) (pid : Pid) (va random : Nat) (byte : UInt8) : Except Fault Machine := do
  let (pa, m) ← m.access pid va random
  return { m with memory := Function.update m.memory pa byte }

end Machine

/-! ## Runs -/

inductive MemEvent where
  | initPcb
  | kill (pid : Int)
  | tick
  | fault (pid : Pid) (va random : Nat)
  | load (pid : Pid) (va random : Nat) (value : UInt8)
  | store (pid : Pid) (va random : Nat) (byte : UInt8)

/-- Accesses are by live tasks to user addresses. -/
def MemEvent.Enabled (m : Machine) : MemEvent → Prop
  | .fault pid va random | .load pid va random _ | .store pid va random _ =>
      Allocated m.pidList maxTaskNum pid ∧ va < 2 ^ 31 ∧ random < tlbEntryNumber
  | _ => True

def MemEvent.IsKill : MemEvent → Prop
  | .kill _ => True
  | _ => False

def memSystem : Lts Machine MemEvent where
  step m event m' :=
    event.Enabled m ∧
      match event with
      | .initPcb => m' = m.initPcb
      | .kill pid => m' = m.kill pid
      | .tick => m' = m.tick
      | .fault pid va random => m.fault pid va random = .ok m'
      | .load pid va random value => m.load pid va random = .ok (value, m')
      | .store pid va random byte => m.store pid va random byte = .ok m'

end UcasOs.Mm
