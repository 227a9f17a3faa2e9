import UcasOs.Foundation.Layout
import UcasOs.Foundation.Bitmap

/-!
# The disk

`include/fs/fs.h`: the records of the file system, each of which fills one
sector alone or in an array, and where the sectors are.

    super_block | imap | smap | iarray | reserved | darray

`sdread` and `sdwrite` move one sector between such a record and the disk; the
size argument is `SECTOR_SIZE` in every call of the file system.
-/

namespace UcasOs.Fs

open UcasOs.Foundation

abbrev magicNumber : UInt32 := 0x99569A78

abbrev sectorSize : UInt32 := 0x200

abbrev fsBase : UInt32 := 0x01000000
abbrev imapAddr : UInt32 := 0x01000200
abbrev smapAddr : UInt32 := 0x01000400
abbrev iarrayAddr : UInt32 := 0x01020400
abbrev darrayAddr : UInt32 := 0x01080000

abbrev inodeItemNum : Nat := 4096
abbrev dataItemNum : Nat := 1048576

abbrev fileNormal : UInt8 := 1
abbrev fileDir : UInt8 := 2

abbrev maxNameLenth : Nat := 26
abbrev maxDirItemNum : Nat := 15

structure SuperBlock where
  imapOffset : UInt32
  smapOffset : UInt32
  iarrayOffset : UInt32
  darrayOffset : UInt32
  inodeSize : UInt32
  directorySize : UInt32
  inodeNumber : UInt32
  dataNumber : UInt32
  dataUsed : UInt32
  inodeUsed : UInt32
  reserved : Fin 118 → UInt32
  deriving Inhabited

structure Inode where
  type : UInt8
  links : UInt8
  reserved : Fin 2 → UInt8
  size : UInt32
  sizeAllocated : UInt32
  pointers : Fin 13 → UInt32
  deriving Inhabited

structure DMap where
  valid : UInt8
  name : Bytes (maxNameLenth + 1)
  ino : UInt32
  deriving Inhabited

structure Dir where
  fpointer : UInt32
  name : Bytes (maxNameLenth + 1)
  reserved : UInt8
  map : Fin maxDirItemNum → DMap
  deriving Inhabited

section

open Layout

def SuperBlock.layout : SuperBlock ≃ Bytes 512 :=
  let fields := seq word <| seq word <| seq word <| seq word <| seq word <| seq word <|
    seq word <| seq word <| seq word <| seq word <| array 118 word
  Equiv.trans
    { toFun := fun s => (s.imapOffset, s.smapOffset, s.iarrayOffset, s.darrayOffset,
        s.inodeSize, s.directorySize, s.inodeNumber, s.dataNumber, s.dataUsed, s.inodeUsed,
        s.reserved)
      invFun := fun (a, b, c, d, e, f, g, h, i, j, k) => ⟨a, b, c, d, e, f, g, h, i, j, k⟩
      left_inv := fun _ => rfl
      right_inv := fun _ => rfl } fields

def Inode.layout : Inode ≃ Bytes 64 :=
  let fields := seq byte <| seq byte <| seq (array 2 byte) <| seq word <| seq word <| array 13 word
  Equiv.trans
    { toFun := fun i => (i.type, i.links, i.reserved, i.size, i.sizeAllocated, i.pointers)
      invFun := fun (a, b, c, d, e, f) => ⟨a, b, c, d, e, f⟩
      left_inv := fun _ => rfl
      right_inv := fun _ => rfl } fields

def DMap.layout : DMap ≃ Bytes 32 :=
  let fields := seq byte <| seq (array (maxNameLenth + 1) byte) word
  Equiv.trans
    { toFun := fun m => (m.valid, m.name, m.ino)
      invFun := fun (a, b, c) => ⟨a, b, c⟩
      left_inv := fun _ => rfl
      right_inv := fun _ => rfl } fields

def Dir.layout : Dir ≃ Bytes 512 :=
  let fields := seq word <| seq (array (maxNameLenth + 1) byte) <| seq byte <|
    array maxDirItemNum DMap.layout
  Equiv.trans
    { toFun := fun d => (d.fpointer, d.name, d.reserved, d.map)
      invFun := fun (a, b, c, d) => ⟨a, b, c, d⟩
      left_inv := fun _ => rfl
      right_inv := fun _ => rfl } fields

end

/-- A record that fills a sector. -/
class Sector (α : Type) where
  layout : α ≃ Bytes 512

scoped instance neZero_pointers : NeZero 13 := ⟨by decide⟩
scoped instance neZero_words : NeZero 128 := ⟨by decide⟩

instance : Sector SuperBlock := ⟨SuperBlock.layout⟩
instance : Sector Dir := ⟨Dir.layout⟩
instance : Sector (Fin 8 → Inode) := ⟨Layout.array 8 Inode.layout⟩
instance : Sector (Fin 128 → UInt32) := ⟨Layout.array 128 Layout.word⟩
instance : Sector (Bytes 512) := ⟨Equiv.refl _⟩

variable {α β : Type} [Sector α] [Sector β]

def sdread (disk : Store) (addr : UInt32) : α := Store.read Sector.layout disk addr.toNat

def sdwrite (buf : α) (addr : UInt32) (disk : Store) : Store :=
  Store.write Sector.layout buf addr.toNat disk

@[simp] theorem sdread_sdwrite_self (buf : α) (addr : UInt32) (disk : Store) :
    sdread (sdwrite buf addr disk) addr = buf :=
  Store.read_write_self _ _ _ _

theorem sdwrite_sdread (addr : UInt32) (disk : Store) :
    sdwrite (sdread disk addr : α) addr disk = disk :=
  Store.write_read _ _ _

theorem sdread_sdwrite_disjoint (buf : β) (disk : Store) {a b : UInt32}
    (h : a.toNat + 512 ≤ b.toNat ∨ b.toNat + 512 ≤ a.toNat) :
    (sdread (sdwrite buf b disk) a : α) = sdread disk a :=
  Store.read_write_disjoint _ _ _ _ h

/-! ## The regions -/

def smapSector (k : Nat) : UInt32 := smapAddr + UInt32.ofNat k * sectorSize
def iarraySector (g : Nat) : UInt32 := iarrayAddr + UInt32.ofNat g * sectorSize
def dataBlock (d : Nat) : UInt32 := darrayAddr + UInt32.ofNat d * sectorSize

theorem toNat_add_sectors (base : UInt32) {b k : Nat} (hb : base.toNat = b)
    (h : b + k * 512 < 2 ^ 32) : (base + UInt32.ofNat k * sectorSize).toNat = b + k * 512 := by
  rw [UInt32.toNat_add, UInt32.toNat_mul, UInt32.toNat_ofNat']
  have hk : k % 2 ^ 32 = k := Nat.mod_eq_of_lt (by omega)
  rw [hk, hb, show sectorSize.toNat = 512 from rfl]
  omega

theorem toNat_smapSector {k : Nat} (hk : k ≤ 256) :
    (smapSector k).toNat = 0x01000400 + k * 512 :=
  toNat_add_sectors smapAddr rfl (by omega)

theorem toNat_iarraySector {g : Nat} (hg : g < 512) :
    (iarraySector g).toNat = 0x01020400 + g * 512 :=
  toNat_add_sectors iarrayAddr rfl (by omega)

theorem toNat_dataBlock {d : Nat} (hd : d < dataItemNum) :
    (dataBlock d).toNat = 0x01080000 + d * 512 := by
  have hd' : d < 1048576 := hd
  exact toNat_add_sectors darrayAddr rfl (by omega)

end UcasOs.Fs
