import UcasOs.Fs.Disk
import UcasOs.Libs.CString
import UcasOs.Libs.Slist

/-!
# The file system

`kernel/fs/fs.c`: the superblock, the inode map, one sector of the block map
and the current directory are kept in memory and written through.  Local
variables that the source leaves uninitialised are arguments.
-/

namespace UcasOs.Fs

open UcasOs.Foundation UcasOs.Libs

structure Fd where
  ino : UInt32
  access : UInt32
  size : UInt32
  offset : UInt32

abbrev oRdwr : UInt32 := 0
abbrev oRd : UInt32 := 1
abbrev oWr : UInt32 := 2

abbrev fdArraySize : Nat := 64
abbrev fdArraySlistSize : Nat := fdArraySize + 1

/-- The disk and the globals of the file system. -/
structure FsState where
  disk : Store
  superBlock : SuperBlock
  currentDir : Dir
  currentDirPointer : UInt32
  imap : Bitmap 128
  smap : Bitmap 128
  smapIndex : Nat
  fdArray : Nat → Fd
  fdArraySlist : Slist

inductive Message where
  | tooLongName
  | fileExists
  | tooManyEntrys
  | insufficientInode
  | insufficientDataBlock
  | notADirectory
  | directoryNotEmpty
  | noSuchDirectory
  | notSuchDirectory
  deriving DecidableEq, Repr

def Message.text : Message → String
  | tooLongName => "Error: too long name.\n"
  | fileExists => "Error: file exists.\n"
  | tooManyEntrys => "Too many directory entrys.\n"
  | insufficientInode => "Error: insufficient inode.\n"
  | insufficientDataBlock => "Error: insufficient data block.\n"
  | notADirectory => "Error: not a directory.\n"
  | directoryNotEmpty => "Error: directory not empty.\n"
  | noSuchDirectory => "Error: no such directory.\n"
  | notSuchDirectory => "Error: not such directory.\n"

/-! ## Making and mounting -/

/-- The uninitialised locals of `mkfs`. -/
structure MkfsLocals where
  s : SuperBlock
  inode : Fin 8 → Inode
  dirRoot : Dir

def rootSuperBlock (s : SuperBlock) : SuperBlock :=
  { imapOffset := 1
    smapOffset := 2
    iarrayOffset := 258
    darrayOffset := 1024
    inodeSize := 64
    directorySize := 512
    inodeNumber := UInt32.ofNat inodeItemNum
    dataNumber := UInt32.ofNat dataItemNum
    dataUsed := 1
    inodeUsed := 1
    reserved := Function.update s.reserved 78 magicNumber }

def rootInodes (inode : Fin 8 → Inode) : Fin 8 → Inode :=
  Function.update inode 0
    { inode 0 with
      type := fileDir
      links := 1
      size := 512
      sizeAllocated := 512
      pointers := Function.update (inode 0).pointers 0 darrayAddr }

/-- A directory without entries, as `mkfs` and `mkdir` fill it in. -/
def emptyDir (d : Dir) (fpointer : UInt32) (name : List UInt8) : Dir :=
  { d with
    map := fun i => { d.map i with valid := 0 }
    fpointer := fpointer
    name := strcpy d.name name }

def zeroMap : Bitmap 128 := fun _ => 0

def rootMap : Bitmap 128 := Function.update zeroMap 0 1

/-- The loop of `mkfs` over the map sectors `k + 1, ..., k + n`. -/
def clearSmap : Nat → Nat → Store → Store
  | 0, _, disk => disk
  | n + 1, k, disk => clearSmap n (k + 1) (sdwrite zeroMap (smapSector (k + 1)) disk)

def mkfsDisk (u : MkfsLocals) (disk : Store) : Store :=
  let disk := sdwrite (rootSuperBlock u.s) fsBase disk
  let disk := sdwrite rootMap imapAddr disk
  let disk := sdwrite rootMap smapAddr disk
  let disk := clearSmap 255 0 disk
  let disk := sdwrite (rootInodes u.inode) iarrayAddr disk
  sdwrite (emptyDir u.dirRoot darrayAddr [0x2f]) darrayAddr disk

def mkfs (u : MkfsLocals) (σ : FsState) : FsState := { σ with disk := mkfsDisk u σ.disk }

def mount (σ : FsState) : FsState :=
  { σ with
    superBlock := sdread σ.disk fsBase
    currentDir := sdread σ.disk darrayAddr
    currentDirPointer := darrayAddr
    imap := sdread σ.disk imapAddr
    smapIndex := 0
    smap := sdread σ.disk smapAddr }

/-- `init_file_system` of `init/main.c`; the sizes it checks are those of the layouts. -/
def initFileSystem (u : MkfsLocals) (σ : FsState) : FsState :=
  let σ := { σ with fdArraySlist := slistInit σ.fdArraySlist fdArraySlistSize }
  let s : SuperBlock := sdread σ.disk fsBase
  if s.reserved 78 ≠ magicNumber then mkfs u σ else mount σ

/-! ## The maps -/

/-- The trailing ones of `t`, at most as many as the first argument says. -/
def scanWord : Nat → UInt32 → Nat
  | 0, _ => 0
  | n + 1, t => if t &&& 1 ≠ 0 then scanWord n (t >>> 1) + 1 else 0

/-- The first word of a map that is not all ones, and its lowest zero. -/
def scanMap (m : Bitmap 128) : Option (Fin 128 × Nat) :=
  ((List.finRange 128).find? fun i => scanWord 32 (m i) ≠ 32).map fun i =>
    (i, scanWord 32 (m i))

def writeSuperBlock (s : SuperBlock) (σ : FsState) : FsState :=
  { σ with superBlock := s, disk := sdwrite s fsBase σ.disk }

def writeImap (m : Bitmap 128) (σ : FsState) : FsState :=
  { σ with imap := m, disk := sdwrite m imapAddr σ.disk }

def writeSmap (m : Bitmap 128) (σ : FsState) : FsState :=
  { σ with smap := m, disk := sdwrite m (smapSector σ.smapIndex) σ.disk }

def readSmap (k : Nat) (σ : FsState) : FsState :=
  { σ with smapIndex := k, smap := sdread σ.disk (smapSector k) }

def iarrayAlloc (σ : FsState) : FsState × Option Nat :=
  match scanMap σ.imap with
  | none => (σ, none)
  | some (i, j) =>
      let σ := writeImap (σ.imap.set i j) σ
      let σ := writeSuperBlock { σ.superBlock with inodeUsed := σ.superBlock.inodeUsed + 1 } σ
      (σ, some (i * 32 + j))

def iarrayFree (ino : Nat) (σ : FsState) : FsState :=
  let i := ino / 32
  let j := ino - i * 32
  let σ := writeImap (σ.imap.clear (Fin.ofNat 128 i) j) σ
  writeSuperBlock { σ.superBlock with inodeUsed := σ.superBlock.inodeUsed - 1 } σ

/-- The loop of `darray_alloc`; the counter is `256 - smap_index`. -/
def darrayAllocLoop : Nat → FsState → FsState × Option Nat
  | 0, σ => (σ, none)
  | n + 1, σ =>
      match scanMap σ.smap with
      | none => darrayAllocLoop n (readSmap (σ.smapIndex + 1) σ)
      | some (i, j) =>
          let σ := writeSmap (σ.smap.set i j) σ
          let σ := writeSuperBlock { σ.superBlock with dataUsed := σ.superBlock.dataUsed + 1 } σ
          (σ, some (σ.smapIndex * 4096 + i * 32 + j))

def darrayAlloc (σ : FsState) : FsState × Option Nat := darrayAllocLoop (256 - σ.smapIndex) σ

def darrayFree (dno : Nat) (σ : FsState) : FsState :=
  let si := dno / 4096
  let dno := dno - si * 4096
  let i := dno / 32
  let j := dno - i * 32
  let σ := readSmap si σ
  let σ := writeSmap (σ.smap.clear (Fin.ofNat 128 i) j) σ
  writeSuperBlock { σ.superBlock with dataUsed := σ.superBlock.dataUsed - 1 } σ

/-! ## Names -/

/-- The first valid entry with the name `s`. -/
def Dir.find (d : Dir) (s : List UInt8) : Option (Fin maxDirItemNum) :=
  (List.finRange maxDirItemNum).find? fun i =>
    (d.map i).valid ≠ 0 ∧ strcmp (List.ofFn (d.map i).name) s = 0

def isFileExist (s : CString) (σ : FsState) : UInt32 :=
  match σ.currentDir.find s.bytes with
  | some i => (σ.currentDir.map i).ino
  | none => 0

def inoRemain (ino : Nat) : Fin 8 := ⟨ino - ino / 8 * 8, by omega⟩

def readInodes (disk : Store) (ino : Nat) : Fin 8 → Inode := sdread disk (iarraySector (ino / 8))

def backslash : UInt8 := 0x5c

/-- The loop of `parse_path` from the directory `dir` on. -/
def parseFrom (disk : Store) (dir : Dir) (s : List UInt8) : Option UInt32 :=
  match _hsep : separate s backslash with
  | some pos =>
      match dir.find (s.take pos) with
      | some i =>
          let ino := (dir.map i).ino.toNat
          let inode := readInodes disk ino (inoRemain ino)
          if inode.type ≠ fileDir then none
          else parseFrom disk (sdread disk (inode.pointers 0)) (s.drop (pos + 1))
      | none => none
  | none => (dir.find s).map fun i => (dir.map i).ino
  termination_by s.length
  decreasing_by
    have hpos := (List.findIdx?_eq_some_iff_getElem.mp _hsep).1
    simp only [List.length_drop]
    omega

def parsePath (disk : Store) (s : List UInt8) : Option UInt32 :=
  if strcmp s [backslash] = 0 then some 0
  else parseFrom disk (sdread disk darrayAddr) s.tail

/-! ## Directories -/

/-- The first free entry.  The source also looks at the byte after the last one, to no effect. -/
def Dir.freeEntry (d : Dir) : Option (Fin maxDirItemNum) :=
  (List.finRange maxDirItemNum).find? fun i => (d.map i).valid = 0

def setEntry (i : Fin maxDirItemNum) (e : DMap) (σ : FsState) : FsState :=
  { σ with currentDir := { σ.currentDir with map := Function.update σ.currentDir.map i e } }

def writeCurrentDir (σ : FsState) : FsState :=
  { σ with disk := sdwrite σ.currentDir σ.currentDirPointer σ.disk }

/-- What `mkdir` and `touch` begin with: a new inode and an entry that names it. -/
def newEntry (s : CString) (σ : FsState) : FsState × Except Message Nat :=
  if strlen s > maxNameLenth then (σ, .error .tooLongName)
  else if isFileExist s σ ≠ 0 then (σ, .error .fileExists)
  else
    match σ.currentDir.freeEntry with
    | none => (σ, .error .tooManyEntrys)
    | some i =>
        let σ := setEntry i { σ.currentDir.map i with valid := 1 } σ
        match iarrayAlloc σ with
        | (σ, none) => (σ, .error .insufficientInode)
        | (σ, some ino) =>
            let e := σ.currentDir.map i
            let e := { e with ino := UInt32.ofNat ino, name := strcpy e.name s.bytes }
            (writeCurrentDir (setEntry i e σ), .ok ino)

def writeInodes (ino : Nat) (inode : Fin 8 → Inode) (σ : FsState) : FsState :=
  { σ with disk := sdwrite inode (iarraySector (ino / 8)) σ.disk }

def mkdir (d : Dir) (s : CString) (σ : FsState) : FsState × Option Message :=
  match newEntry s σ with
  | (σ, .error m) => (σ, some m)
  | (σ, .ok ino) =>
      let inode := readInodes σ.disk ino
      let r := inoRemain ino
      let inode := Function.update inode r
        { inode r with type := fileDir, links := 1, size := 512, sizeAllocated := 512 }
      match darrayAlloc σ with
      | (σ, none) => (σ, some .insufficientDataBlock)
      | (σ, some dno) =>
          let p := dataBlock dno
          let inode := Function.update inode r
            { inode r with pointers := Function.update (inode r).pointers 0 p }
          let σ := writeInodes ino inode σ
          let d := emptyDir d σ.currentDirPointer s.bytes
          ({ σ with disk := sdwrite d p σ.disk }, none)

def touch (s : CString) (σ : FsState) : FsState × Option Message :=
  match newEntry s σ with
  | (σ, .error m) => (σ, some m)
  | (σ, .ok ino) =>
      let inode := readInodes σ.disk ino
      let r := inoRemain ino
      let inode := Function.update inode r
        { inode r with type := fileNormal, links := 1, size := 0, sizeAllocated := 0 }
      (writeInodes ino inode σ, none)

def rmdir (s : CString) (σ : FsState) : FsState × Option Message :=
  match σ.currentDir.find s.bytes with
  | none => (σ, some .noSuchDirectory)
  | some i =>
      let ino := (σ.currentDir.map i).ino.toNat
      let inode := readInodes σ.disk ino (inoRemain ino)
      if inode.type ≠ fileDir then (σ, some .notADirectory)
      else
        let p := inode.pointers 0
        let d : Dir := sdread σ.disk p
        if ∃ j, (d.map j).valid ≠ 0 then (σ, some .directoryNotEmpty)
        else
          let σ := iarrayFree ino σ
          let σ := darrayFree ((p - darrayAddr) / sectorSize).toNat σ
          let σ := setEntry i { σ.currentDir.map i with valid := 0 } σ
          (writeCurrentDir σ, none)

def dot : UInt8 := 0x2e

/-- The inode that `cd` goes to. -/
def cdTarget (s : CString) (σ : FsState) : Option UInt32 :=
  if s.bytes.head? = some backslash then parsePath σ.disk s.bytes
  else (σ.currentDir.find s.bytes).map fun i => (σ.currentDir.map i).ino

def enterDir (p : UInt32) (σ : FsState) : FsState :=
  { σ with currentDir := sdread σ.disk p, currentDirPointer := p }

def cd (s : CString) (σ : FsState) : FsState × Option Message :=
  if strcmp [dot, dot] s.bytes = 0 then
    if σ.currentDirPointer = darrayAddr then (σ, none)
    else (enterDir σ.currentDir.fpointer σ, none)
  else if strcmp [dot] s.bytes = 0 then (σ, none)
  else
    -- the source's `-1` is also what it compares an inode number with
    match (cdTarget s σ).filter (· ≠ 0xffffffff) with
    | none => (σ, some .notSuchDirectory)
    | some ino =>
        let inode := readInodes σ.disk ino.toNat (inoRemain ino.toNat)
        if inode.type ≠ fileDir then (σ, some .notADirectory)
        else (enterDir (inode.pointers 0) σ, none)

end UcasOs.Fs
