import UcasOs.Foundation.Word
import UcasOs.Fs.Operations

/-!
# Open files

`kernel/fs/fs.c` from `fd_array_alloc` on: a descriptor holds an inode number,
an offset and a size of its own, and data is moved sector by sector through a
buffer.  The source compares its `int`s with unsigned words, so both are words
here.
-/

namespace UcasOs.Fs

open UcasOs.Foundation UcasOs.Libs

/-- Where a call does not come back. -/
inductive Fault where
  /-- the panic of `offset_to_pointer` -/
  | wrongSeg
  /-- memory that belongs to no array of the call -/
  | outside
  /-- more rounds of a loop than there are bytes and blocks -/
  | endless
  deriving DecidableEq, Repr

/-! ## Descriptors -/

def fdIndex (fd : Int) : Except Fault Nat :=
  if 0 ≤ fd ∧ fd < fdArraySize then .ok fd.toNat else .error .outside

theorem ne_minus_of_fdIndex {fd : Int} {i : Nat} (hfd : fdIndex fd = .ok i) : fd ≠ -1 := by
  rintro rfl
  cases hfd

def setFd (i : Nat) (f : Fd) (σ : FsState) : FsState :=
  { σ with fdArray := Function.update σ.fdArray i f }

@[simp] theorem setFd_self (i : Nat) (f : Fd) (σ : FsState) : (setFd i f σ).fdArray i = f :=
  Function.update_self _ _ _

theorem setFd_other {i j : Nat} (hj : j ≠ i) {f : Fd} {σ : FsState} :
    (setFd i f σ).fdArray j = σ.fdArray j :=
  Function.update_of_ne hj _ _

def fdArrayAlloc (σ : FsState) : FsState × Int :=
  let (t, l) := slistAlloc σ.fdArraySlist
  ({ σ with fdArraySlist := l }, (t : Int) - 1)

def fdArrayFree (index : Int) (σ : FsState) : FsState × Bool :=
  let (freed, l) := slistFree σ.fdArraySlist (index + 1) fdArraySlistSize
  ({ σ with fdArraySlist := l }, freed)

/-- The descriptor, or -1.  What it records is the place of the inode in its sector. -/
def fopen (s : CString) (access : UInt32) (σ : FsState) : FsState × Int :=
  let ino := (isFileExist s σ).toNat
  if ino = 0 then (σ, -1)
  else
    let inode := readInodes σ.disk ino
    let ino := inoRemain ino
    if (inode ino).type ≠ fileNormal then (σ, -1)
    else
      let (σ, fd) := fdArrayAlloc σ
      if fd = -1 then (σ, -1)
      else
        let f : Fd :=
          { access := access, ino := UInt32.ofNat ino, offset := 0, size := (inode ino).size }
        (setFd fd.toNat f σ, fd)

def fclose (fd : Int) (σ : FsState) : FsState × Bool :=
  if fd = -1 then (σ, false) else fdArrayFree fd σ

def fseek (fd : Int) (offset : UInt32) (σ : FsState) : Except Fault FsState :=
  if fd = -1 then .ok σ
  else do
    let i ← fdIndex fd
    .ok (setFd i { σ.fdArray i with offset := offset } σ)

/-! ## Where a byte is -/

/-- The place in a sector. -/
def offsetRemain (offset : UInt32) : UInt32 := offset - offset / 512 * 512

theorem toNat_offsetRemain (offset : UInt32) : (offsetRemain offset).toNat = offset.toNat % 512 :=
  Word.toNat_sub_div_mul offset 512

/-- How many tables lie between the inode and a block. -/
def seg (offset : UInt32) : Nat :=
  (decide (offset ≥ 10)).toNat + (decide (offset ≥ 138)).toNat + (decide (offset ≥ 16522)).toNat +
    (decide (offset ≥ 2113674)).toNat

/-- Entry `i` of the table of pointers in the sector at `p`. -/
def tableEntry (disk : Store) (p i : UInt32) : UInt32 :=
  (sdread disk p : Fin 128 → UInt32) (Fin.ofNat 128 i.toNat)

def offsetToPointer (disk : Store) (inode : Inode) (offset : UInt32) : Except Fault UInt32 :=
  let offset := offset / 512
  match seg offset with
  | 0 => .ok (inode.pointers (Fin.ofNat 13 offset.toNat))
  | 1 => .ok (tableEntry disk (inode.pointers 10) (offset - 10))
  | 2 =>
      let offset := offset - 138
      let i := offset / 128
      let p := tableEntry disk (inode.pointers 11) i
      .ok (tableEntry disk p (offset - i * 128))
  | 3 =>
      let offset := offset - 16522
      let i := offset / (128 * 128)
      let offset := offset - i * 128 * 128
      let p := tableEntry disk (inode.pointers 12) i
      let i := offset / 128
      let p := tableEntry disk p i
      .ok (tableEntry disk p (offset - i * 128))
  | _ => .error .wrongSeg

/-! ## Reading -/

/-- The loop of `fread`: the bytes copied to the caller. -/
def freadLoop (inode : Inode) (i : Nat) :
    Nat → UInt32 → FsState → Except Fault (FsState × List UInt8)
  | 0, _, _ => .error .endless
  | n + 1, sizeRemain, σ =>
      if sizeRemain = 0 then .ok (σ, [])
      else do
        let f := σ.fdArray i
        let p ← offsetToPointer σ.disk inode f.offset
        let k := offsetRemain f.offset
        let readSize := if sizeRemain < sectorSize - k then sizeRemain else sectorSize - k
        let readBuf : Bytes 512 := sdread σ.disk p
        let copied := ((List.ofFn readBuf).drop k.toNat).take readSize.toNat
        let (σ, rest) ← freadLoop inode i n (sizeRemain - readSize)
          (setFd i { f with offset := f.offset + readSize } σ)
        .ok (σ, copied ++ rest)

/-- `fread` once it has the inode: the bytes, and their number as it is returned. -/
def freadInode (inode : Inode) (i : Nat) (size : UInt32) (σ : FsState) :
    Except Fault (FsState × List UInt8 × UInt32) := do
  let remain := (σ.fdArray i).size - (σ.fdArray i).offset
  let sizeRemain := if remain < size then remain else size
  let (σ, copied) ← freadLoop inode i (sizeRemain.toNat + 1) sizeRemain σ
  .ok (σ, copied, sizeRemain)

def Fd.readable (f : Fd) : Bool := f.access = oRdwr ∨ f.access = oRd
def Fd.writable (f : Fd) : Bool := f.access = oRdwr ∨ f.access = oWr

def fread (fd : Int) (size : UInt32) (σ : FsState) :
    Except Fault (FsState × List UInt8 × UInt32) :=
  if fd = -1 then .ok (σ, [], 0)
  else do
    let i ← fdIndex fd
    if ¬ (σ.fdArray i).readable then .ok (σ, [], 0)
    else
      let ino := (σ.fdArray i).ino.toNat
      freadInode (readInodes σ.disk ino (inoRemain ino)) i size σ

/-! ## Writing -/

/-- `memcopy` of the first `n` bytes of `buf` to the place `k` of a sector. -/
def memcopy (b : Bytes 512) (k : Nat) (buf : Nat → UInt8) (n : Nat) : Bytes 512 := fun j =>
  if k ≤ j.val ∧ j.val < k + n then buf (j.val - k) else b j

/-- The store to `inode[r].pointers[pi]`.  Past the last pointer it meets the inodes that
follow in the buffer, and then the stack. -/
def storePointer (inode : Fin 8 → Inode) (r : Fin 8) (pi : Nat) (p : UInt32) :
    Except Fault (Fin 8 → Inode) :=
  if pi < 13 then
    .ok (Function.update inode r
      { inode r with pointers := Function.update (inode r).pointers (Fin.ofNat 13 pi) p })
  else if r.val * 16 + 3 + pi < 128 then
    let words : Fin 128 → UInt32 := Sector.layout.symm (Sector.layout inode)
    let words := Function.update words (Fin.ofNat 128 (r.val * 16 + 3 + pi)) p
    .ok (Sector.layout.symm (Sector.layout words))
  else .error .outside

/-- The loop of `fwrite` over its buffer of inodes: a sector is written from the start of `buf`
when the file has room for all that is left, and gets a block otherwise.  The list has the stores
to `pointers[]`: the index, and what `darray_alloc` returned. -/
def fwriteLoop (i : Nat) (r : Fin 8) (buf : Nat → UInt8) :
    Nat → (Fin 8 → Inode) → UInt32 → UInt32 → FsState →
      Except Fault (FsState × (Fin 8 → Inode) × UInt32 × List (Nat × Nat))
  | 0, _, _, _, _ => .error .endless
  | n + 1, inode, size, sizeWritten, σ =>
      if size = 0 then .ok (σ, inode, sizeWritten, [])
      else
        let f := σ.fdArray i
        let remain := (inode r).sizeAllocated - f.offset
        if remain ≥ size then do
          let p ← offsetToPointer σ.disk (inode r) f.offset
          let readSize := offsetRemain f.offset
          let t := if size < 512 - readSize then size else 512 - readSize
          let writeBuf := memcopy (sdread σ.disk p) readSize.toNat buf t.toNat
          let inode := Function.update inode r { inode r with size := (inode r).size + t }
          let σ := { σ with disk := sdwrite writeBuf p σ.disk }
          let σ := setFd i { f with offset := f.offset + t, size := f.size + t } σ
          fwriteLoop i r buf n inode (size - t) (sizeWritten + t) σ
        else
          let pi := (inode r).sizeAllocated / 512
          match darrayAlloc σ with
          | (σ, none) => .ok (σ, inode, sizeWritten, [])
          | (σ, some dno) => do
              let inode ← storePointer inode r pi.toNat (dataBlock dno)
              let inode := Function.update inode r
                { inode r with sizeAllocated := (inode r).sizeAllocated + 512 }
              let (σ, inode, sizeWritten, stores) ← fwriteLoop i r buf n inode size sizeWritten σ
              .ok (σ, inode, sizeWritten, (pi.toNat, dno) :: stores)

/-- `fwrite`, with the number of bytes written as it is returned, and its stores. -/
def fwriteStores (fd : Int) (buf : Nat → UInt8) (size : UInt32) (σ : FsState) :
    Except Fault (FsState × UInt32 × List (Nat × Nat)) :=
  if fd = -1 then .ok (σ, 0, [])
  else do
    let i ← fdIndex fd
    if ¬ (σ.fdArray i).writable then .ok (σ, 0, [])
    else
      let ino := (σ.fdArray i).ino.toNat
      let (σ, inode, sizeWritten, stores) ← fwriteLoop i (inoRemain ino) buf
        (size.toNat + dataItemNum + 1) (readInodes σ.disk ino) size 0 σ
      .ok (writeInodes ino inode σ, sizeWritten, stores)

def fwrite (fd : Int) (buf : Nat → UInt8) (size : UInt32) (σ : FsState) :
    Except Fault (FsState × UInt32) := do
  let (σ, sizeWritten, _) ← fwriteStores fd buf size σ
  .ok (σ, sizeWritten)

end UcasOs.Fs
