import UcasOs.Fs.AllOrNothing
import UcasOs.Fs.ClosedDescriptors

/-!
# Files and their descriptors

`fopen` records the place of the inode in its sector, and `fread` and `fwrite`
take that for the number of the inode.  For the inodes of the first sector the
two are the same: then a descriptor stands for its file, and what is written
through it changes nothing else.
-/

namespace UcasOs.Fs

open UcasOs.Foundation UcasOs.Foundation.Naming UcasOs.Libs

/-- Inode `n` and the blocks of its file are all that differs. -/
structure OnlyFile (n : Nat) (v v' : Volume) : Prop where
  imap : v'.imap = v.imap
  inode : ∀ m, m ≠ n → v'.inode m = v.inode m
  block : ∀ p, (∀ k, v'.Owns n k → p ≠ (v'.inode n).pointers k) → v'.dir p = v.dir p
  other : ∀ m k, m ≠ n → v.Owns m k →
    v'.dir ((v.inode m).pointers k) = v.dir ((v.inode m).pointers k)

/-! ## The calls and the files -/

/-- A session, and the inode that the name of each open descriptor stood for when it was opened. -/
structure Handles where
  session : Session
  file : Int → Option Nat

inductive FileCall where
  | name (call : NameCall)
  | fd (call : FdCall)

def FdCall.files (s : Handles) : FdCall → Int → Option Nat
  | .fopen name access =>
      let fd := (Fs.fopen name access s.session.fs).2
      if fd = -1 then s.file
      else Function.update s.file fd (some (isFileExist name s.session.fs).toNat)
  | .fclose fd => Function.update s.file fd none
  | _ => s.file

def FileCall.run : FileCall → Handles → Except Fault Handles
  | .name call, s => .ok { s with session := ⟨(call.run s.session.fs).1, s.session.opened⟩ }
  | .fd call, s => do
      let session ← call.run s.session
      .ok ⟨session, call.files s⟩

def handles : Lts Handles FileCall where
  step s call t := call.run s = .ok t

/-- A consistent file system, and no descriptor of one of its files so far. -/
structure Idle (s : Handles) : Prop where
  mounted : Mounted s.session.fs
  aligned : ∀ n, (volume s.session.fs.disk).live n = true →
    ((volume s.session.fs.disk).inode n).sizeAllocated.toNat % 512 = 0
  listed : Listed s.session
  file : ∀ fd, s.file fd = none

/-- Every descriptor that `L` has opened works on the file it was opened for. -/
structure Isolated (L : Lts Handles FileCall) (s : Handles) : Prop where
  reads : ∀ fd n, s.file fd = some n → ∃ i, fdIndex fd = .ok i ∧
    ((s.session.fs.fdArray i).readable = true → ∀ size,
      fread fd size s.session.fs =
        freadInode ((volume s.session.fs.disk).inode n) i size s.session.fs)
  writes : ∀ fd n buf size t, s.file fd = some n → L.step s (.fd (.fwrite fd buf size)) t →
    OnlyFile n (volume s.session.fs.disk) (volume t.session.fs.disk)

/-- A request that the pointers in the inode are enough for. -/
def Direct (x : Inode) (f : Fd) (size : UInt32) : Prop :=
  f.offset.toNat ≤ x.sizeAllocated.toNat ∧ f.offset.toNat + size.toNat ≤ 5120

/-- Calls on names that run out of nothing, files in the first sector of inodes, and requests
through open descriptors that are within the direct pointers. -/
def Careful (s : Handles) : FileCall → Prop
  | .name call => (call.run s.session.fs).2 ≠ some .insufficientInode ∧
      (call.run s.session.fs).2 ≠ some .insufficientDataBlock
  | .fd (.fopen name _) =>
      ((volume s.session.fs.disk).inode (isFileExist name s.session.fs).toNat).type = fileNormal →
        (isFileExist name s.session.fs).toNat < 8
  | .fd (.fwrite fd _ size) => ∃ n i, s.file fd = some n ∧ fdIndex fd = .ok i ∧
      ((s.session.fs.fdArray i).writable = false ∨ size = 0 ∨
        Direct ((volume s.session.fs.disk).inode n) (s.session.fs.fdArray i) size)
  | _ => True

/-! ## The volume after a write -/

namespace Volume

variable {v v' : Volume}

theorem Tree.congr (h : v.Tree) (hlive : ∀ m, v'.live m = v.live m)
    (hdir : ∀ m, v.live m = true → (v'.isDir m ↔ v.isDir m))
    (hblock : ∀ m, v.LiveDir m → v'.block m = v.block m)
    (hcontent : ∀ m, v.LiveDir m → v'.content m = v.content m) : v'.Tree := by
  have hliveDir : ∀ m, v'.LiveDir m → v.LiveDir m := by
    intro m hm
    have hm' := (hlive m).symm.trans hm.live
    exact ⟨hm', (hdir m hm').mp hm.dir⟩
  have hentry : ∀ m k, v.live m = true → v'.entry m k = v.entry m k := by
    intro m k hm
    by_cases hd : v.isDir m
    · unfold entry
      rw [hcontent m ⟨hm, hd⟩]
      exact if_congr (and_congr_left' (hdir m hm)) rfl rfl
    · have hd' : ¬ v'.isDir m := fun h => hd ((hdir m hm).mp h)
      simp [entry, hd, hd']
  have hframe : ∀ q k, Reachable v.entry 0 q → v'.entry q k = v.entry q k :=
    fun q k hq => hentry q k ((h.reach q).mpr hq)
  refine ⟨fun m => ?_, h.unambiguous.congr hframe, (hdir 0 h.root.live).mpr h.rootDir,
    (hblock 0 h.root).trans h.rootBlock, fun m k k' hm => ?_, fun p k c hp hk hc => ?_⟩
  · rw [hlive, reachable_congr hframe, h.reach]
  · rw [hcontent m (hliveDir m hm)]
    exact h.names m k k' (hliveDir m hm)
  · have hp' := hliveDir p hp
    rw [hentry p k hp'.live] at hk
    have hclive := h.live_entry hp' hk
    have hcdir := (hdir c hclive).mp hc
    rw [hcontent c ⟨hclive, hcdir⟩, hblock p hp']
    exact h.parents p k c hp' hk hcdir

/-- A file of a consistent volume holds its blocks. -/
theorem Blocks.held (h : v.Blocks) {n : Nat} (hn : v.live n = true)
    (haligned : (v.inode n).sizeAllocated.toNat % 512 = 0) : Held v (v.inode n) := by
  have howns : ∀ k (hk : k < 13), k < (v.inode n).blocks → v.Owns n ⟨k, hk⟩ :=
    fun k hk hkb => ⟨hn, hkb⟩
  have hpointer : ∀ k (hk : k < 13), (v.inode n).pointer k = (v.inode n).pointers ⟨k, hk⟩ := by
    intro k hk
    rw [Inode.pointer]
    congr 1
    exact Fin.ext (Nat.mod_eq_of_lt hk)
  refine ⟨haligned, fun k hk hkb => ?_, fun k hk hkb k' hk' hkb' heq => ?_⟩
  · rw [hpointer k (by omega)]
    exact h.owned n _ (howns k (by omega) hkb)
  · rw [hpointer k (by omega), hpointer k' (by omega)] at heq
    have := (h.unique n _ n _ (howns k (by omega) hkb) (howns k' (by omega) hkb') heq).2
    exact congrArg Fin.val this

end Volume

theorem pointer_val (x : Inode) (k : Fin 13) : x.pointer k.val = x.pointers k := by
  rw [Inode.pointer]
  congr 1
  exact Fin.ext (Nat.mod_eq_of_lt k.isLt)

/-- A write through a descriptor of the file `n` of a consistent volume. -/
structure FileWrite (fd : Int) (i n : Nat) (buf : Nat → UInt8) (size written : UInt32)
    (ds : List Nat) (x : Inode) (σ σ' : FsState) : Prop where
  request : WriteRequest fd i n size σ
  wrote : Wrote i n buf size written ds x σ σ'
  mounted : Mounted σ
  live : (volume σ.disk).live n = true
  file : ¬ (volume σ.disk).isDir n

namespace FileWrite

variable {fd : Int} {i n : Nat} {buf : Nat → UInt8} {size written : UInt32} {ds : List Nat}
  {x : Inode} {σ σ' : FsState} (h : FileWrite fd i n buf size written ds x σ σ')
include h

theorem blocks : (volume σ.disk).Blocks := h.mounted.consistent.blocks

theorem live_eq (m : Nat) : (volume σ'.disk).live m = (volume σ.disk).live m := by
  rw [Volume.live, h.wrote.imap, Volume.live]

theorem type_eq : ((volume σ'.disk).inode n).type = ((volume σ.disk).inode n).type := by
  rw [h.wrote.inode_self]
  show x.type = _
  rw [h.wrote.places, places_type]

theorem isDir_iff (m : Nat) : (volume σ'.disk).isDir m ↔ (volume σ.disk).isDir m := by
  by_cases hm : m = n
  · rw [hm, Volume.isDir, h.type_eq, Volume.isDir]
  · rw [Volume.isDir, h.wrote.inode_other hm, Volume.isDir]

theorem ne_of_liveDir {m : Nat} (hm : (volume σ.disk).LiveDir m) : m ≠ n := by
  rintro rfl
  exact h.file hm.dir

theorem sizeAllocated_self : ((volume σ'.disk).inode n).sizeAllocated.toNat =
    ((volume σ.disk).inode n).sizeAllocated.toNat + 512 * ds.length := by
  rw [h.wrote.inode_self]
  exact h.wrote.sizeAllocated

/-- A pointer of the file is one it had, or leads to a new block. -/
theorem owns_self {k : Fin 13} (hk : (volume σ'.disk).Owns n k) :
    ((volume σ.disk).Owns n k ∧
      ((volume σ'.disk).inode n).pointers k = ((volume σ.disk).inode n).pointers k) ∨
    (k.val < 10 ∧ ∃ d ∈ ds, ((volume σ'.disk).inode n).pointers k = dataBlock d) := by
  have hallocated := hk.allocated
  rw [h.sizeAllocated_self] at hallocated
  have haligned := h.request.held.aligned
  rw [← pointer_val, ← pointer_val, h.wrote.pointer_self, h.wrote.places]
  rcases h.wrote.sizeAllocated_le haligned h.request.fit with rfl | hle
  · exact .inl ⟨⟨h.live, by simpa using hallocated⟩, rfl⟩
  · have hten : k.val < 10 := by omega
    rw [places_pointer hle haligned hten]
    by_cases hold : k.val < ((volume σ.disk).inode n).blocks
    · refine .inl ⟨⟨h.live, hold⟩, ?_⟩
      rw [if_neg (by omega)]
    · refine .inr ⟨hten, ?_⟩
      have hlt : k.val < ((volume σ.disk).inode n).blocks + ds.length := by
        rw [Inode.blocks]
        omega
      rw [if_pos (by omega), List.getD_eq_getElem _ _ (by omega)]
      exact ⟨_, List.getElem_mem _, rfl⟩

theorem owns_old {k : Fin 13} (hk : (volume σ.disk).Owns n k) :
    (volume σ'.disk).Owns n k ∧
      ((volume σ'.disk).inode n).pointers k = ((volume σ.disk).inode n).pointers k := by
  have hown : (volume σ'.disk).Owns n k := by
    refine ⟨(h.live_eq n).trans h.live, ?_⟩
    have hallocated := hk.allocated
    rw [h.sizeAllocated_self]
    omega
  refine ⟨hown, ?_⟩
  have haligned := h.request.held.aligned
  rw [← pointer_val, ← pointer_val, h.wrote.pointer_self, h.wrote.places]
  rcases h.wrote.sizeAllocated_le haligned h.request.fit with rfl | hle
  · rfl
  · have hallocated : k.val < ((volume σ.disk).inode n).blocks := hk.allocated
    rw [places_pointer hle haligned (by rw [Inode.blocks] at hallocated; omega), if_neg (by omega)]

theorem owns_other {m : Nat} (hm : m ≠ n) (k : Fin 13) :
    (volume σ'.disk).Owns m k ↔ (volume σ.disk).Owns m k := by
  constructor
  · rintro ⟨hlive, hk⟩
    exact ⟨(h.live_eq m).symm.trans hlive, by rwa [h.wrote.inode_other hm] at hk⟩
  · rintro ⟨hlive, hk⟩
    exact ⟨(h.live_eq m).trans hlive, by rwa [h.wrote.inode_other hm]⟩

/-- A new block becomes the file's own. -/
theorem owns_new {d : Nat} (hd : d ∈ ds) : ∃ m k, (volume σ'.disk).Owns m k ∧
    ((volume σ'.disk).inode m).pointers k = dataBlock d := by
  have haligned := h.request.held.aligned
  obtain ⟨j, hj, rfl⟩ := List.getElem_of_mem hd
  rcases h.wrote.sizeAllocated_le haligned h.request.fit with rfl | hle
  · exact absurd hj (Nat.not_lt_zero _)
  · have hblocks : 512 * ((volume σ.disk).inode n).blocks =
        ((volume σ.disk).inode n).sizeAllocated.toNat := by
      rw [Inode.blocks]
      omega
    refine ⟨n, ⟨((volume σ.disk).inode n).blocks + j, by omega⟩,
      ⟨(h.live_eq n).trans h.live, ?_⟩, ?_⟩
    · rw [h.sizeAllocated_self]
      show ((volume σ.disk).inode n).blocks + j < _
      omega
    · rw [← pointer_val, h.wrote.pointer_self, h.wrote.places,
        places_pointer hle haligned (by show _ + j < 10; omega), if_pos (by constructor <;> simp [hj])]
      simp [hj]

/-- A block that had an owner is not new. -/
theorem not_new {m : Nat} {k : Fin 13} (hk : (volume σ.disk).Owns m k) {d : Nat} (hd : d ∈ ds) :
    ((volume σ.disk).inode m).pointers k ≠ dataBlock d := by
  intro heq
  obtain ⟨e, he, hp, hused⟩ := h.blocks.owned m k hk
  obtain rfl := dataBlock_inj he (h.wrote.bound d hd) (hp.symm.trans heq)
  exact nomatch (h.wrote.unused e hd).symm.trans hused

theorem owns_of_lt {k : Nat} (hk : k < 10) (hkb : k < x.blocks) :
    (volume σ'.disk).Owns n ⟨k, by omega⟩ := by
  refine ⟨(h.live_eq n).trans h.live, ?_⟩
  rw [h.wrote.inode_self]
  exact hkb

theorem pointer_ne {p : UInt32}
    (hp : ∀ k, (volume σ'.disk).Owns n k → p ≠ ((volume σ'.disk).inode n).pointers k) {k : Nat}
    (hk : k < 10) (hkb : k < x.blocks) : p ≠ x.pointer k := by
  have hne := hp _ (h.owns_of_lt hk hkb)
  rwa [← pointer_val, h.wrote.pointer_self] at hne

/-- Nothing is written to a block of another file or directory. -/
theorem dir_other {m : Nat} (hm : m ≠ n) {k : Fin 13} (hk : (volume σ.disk).Owns m k) :
    (volume σ'.disk).dir (((volume σ.disk).inode m).pointers k) =
      (volume σ.disk).dir (((volume σ.disk).inode m).pointers k) := by
  refine h.wrote.frame _ fun j hj hjb heq => ?_
  have hown := h.owns_of_lt hj hjb
  have hpointer : ((volume σ'.disk).inode n).pointers ⟨j, by omega⟩ = x.pointer j := by
    rw [← pointer_val, h.wrote.pointer_self]
  rcases h.owns_self hown with ⟨hold, hsame⟩ | ⟨-, d, hd, hnew⟩
  · rw [hsame] at hpointer
    exact hm (h.blocks.unique m k n _ hk hold (heq.trans hpointer.symm)).1
  · exact h.not_new hk hd (heq.trans (hpointer.symm.trans hnew))

theorem onlyFile : OnlyFile n (volume σ.disk) (volume σ'.disk) :=
  ⟨h.wrote.imap, fun _ hm => h.wrote.inode_other hm,
    fun p hp => h.wrote.frame p fun _ hk hkb => h.pointer_ne hp hk hkb,
    fun _ _ hm hk => h.dir_other hm hk⟩

theorem blocks' : (volume σ'.disk).Blocks := by
  have hused : ∀ e, (volume σ.disk).used e = true → (volume σ'.disk).used e = true := by
    intro e he
    rw [h.wrote.used, he, Bool.or_true]
  have hpointers : ∀ m k, (volume σ.disk).Owns m k →
      (volume σ'.disk).Owns m k ∧
        ((volume σ'.disk).inode m).pointers k = ((volume σ.disk).inode m).pointers k := by
    intro m k hk
    by_cases hm : m = n
    · rw [hm] at hk ⊢
      exact h.owns_old hk
    · exact ⟨(h.owns_other hm k).mpr hk, by rw [h.wrote.inode_other hm]⟩
  -- a pointer is one that was there, or leads to a new block of the file
  have hcases : ∀ m k, (volume σ'.disk).Owns m k → (volume σ.disk).Owns m k ∨
      (m = n ∧ k.val < 10 ∧ ∃ d ∈ ds, ((volume σ'.disk).inode m).pointers k = dataBlock d) := by
    intro m k hk
    by_cases hm : m = n
    · rw [hm] at hk ⊢
      rcases h.owns_self hk with ⟨hold, -⟩ | ⟨hten, hnew⟩
      · exact .inl hold
      · exact .inr ⟨rfl, hten, hnew⟩
    · exact .inl ((h.owns_other hm k).mp hk)
  refine ⟨fun m k hk => ?_, fun m k m' k' hk hk' heq => ?_, fun e he hue => ?_, fun m hm => ?_⟩
  · rcases hcases m k hk with hold | ⟨-, -, d, hd, hnew⟩
    · obtain ⟨e, he, hp, hue⟩ := h.blocks.owned m k hold
      exact ⟨e, he, (hpointers m k hold).2.trans hp, hused e hue⟩
    · refine ⟨d, h.wrote.bound d hd, hnew, ?_⟩
      rw [h.wrote.used, decide_eq_true hd, Bool.true_or]
  · rcases hcases m k hk with hold | ⟨rfl, hten, d, hd, hnew⟩
    · rcases hcases m' k' hk' with hold' | ⟨rfl, hten', d', hd', hnew'⟩
      · rw [(hpointers m k hold).2, (hpointers m' k' hold').2] at heq
        exact h.blocks.unique m k m' k' hold hold' heq
      · rw [(hpointers m k hold).2, hnew'] at heq
        exact absurd heq (h.not_new hold hd')
    · rcases hcases m' k' hk' with hold' | ⟨rfl, hten', d', hd', hnew'⟩
      · rw [(hpointers m' k' hold').2, hnew] at heq
        exact absurd heq.symm (h.not_new hold' hd)
      · refine ⟨rfl, Fin.ext (h.wrote.held_self.inj k.val hten hk.allocated k'.val hten'
          hk'.allocated ?_)⟩
        rw [pointer_val, pointer_val]
        exact heq
  · rw [h.wrote.used, Bool.or_eq_true, decide_eq_true_eq] at hue
    rcases hue with hd | hold
    · exact h.owns_new hd
    · obtain ⟨m, k, hk, hp⟩ := h.blocks.used e he hold
      exact ⟨m, k, (hpointers m k hk).1, (hpointers m k hk).2.trans hp⟩
  · have hm' : (volume σ.disk).LiveDir m :=
      ⟨(h.live_eq m).symm.trans hm.live, (h.isDir_iff m).mp hm.dir⟩
    rw [h.wrote.inode_other (h.ne_of_liveDir hm')]
    exact h.blocks.dirs m hm'

theorem block_dir {m : Nat} (hm : (volume σ.disk).LiveDir m) :
    (volume σ'.disk).block m = (volume σ.disk).block m := by
  rw [Volume.block, h.wrote.inode_other (h.ne_of_liveDir hm), Volume.block]

theorem content_dir {m : Nat} (hm : (volume σ.disk).LiveDir m) :
    (volume σ'.disk).content m = (volume σ.disk).content m := by
  rw [Volume.content, h.block_dir hm]
  exact h.dir_other (h.ne_of_liveDir hm) (h.blocks.dirBlock hm)

theorem consistent : (volume σ'.disk).Consistent where
  tree := h.mounted.consistent.tree.congr h.live_eq (fun m _ => h.isDir_iff m)
    (fun _ hm => h.block_dir hm) fun _ hm => h.content_dir hm
  blocks := h.blocks'
  counts := h.wrote.counts h.mounted.consistent.counts

theorem mounted' : Mounted σ' := by
  obtain ⟨m, hm, hpointer⟩ := h.mounted.cwd
  have hblock : (volume σ'.disk).block m = σ'.currentDirPointer := by
    rw [h.block_dir hm, hpointer, h.wrote.currentDirPointer]
  refine ⟨h.wrote.cached, ?_, ⟨m, ⟨(h.live_eq m).trans hm.live, (h.isDir_iff m).mpr hm.dir⟩, hblock⟩,
    h.consistent⟩
  rw [← hblock, h.wrote.currentDir, ← h.mounted.currentDir, ← hpointer]
  exact h.content_dir hm

end FileWrite

/-! ## Descriptors and their files -/

/-- The descriptor works on inode `n`, which is that of a file. -/
structure Stands (σ : FsState) (fd : Int) (n : Nat) : Prop where
  index : ∃ i, fdIndex fd = .ok i ∧ (σ.fdArray i).ino.toNat = n
  live : (volume σ.disk).live n = true
  type : ((volume σ.disk).inode n).type = fileNormal

structure Tracked (s : Handles) : Prop where
  mounted : Mounted s.session.fs
  aligned : ∀ n, (volume s.session.fs.disk).live n = true →
    ((volume s.session.fs.disk).inode n).sizeAllocated.toNat % 512 = 0
  listed : Listed s.session
  file : ∀ fd n, s.file fd = some n → Stands s.session.fs fd n

variable {s t : Handles} {σ σ' : FsState} {fd : Int} {i n : Nat}

theorem Idle.tracked (h : Idle s) : Tracked s := by
  refine ⟨h.mounted, h.aligned, h.listed, fun fd n hfd => ?_⟩
  rw [h.file] at hfd
  cases hfd

theorem Stands.congr (h : Stands σ fd n) (hfds : ∀ i, (σ'.fdArray i).ino = (σ.fdArray i).ino)
    (hlive : (volume σ'.disk).live n = true)
    (htype : ((volume σ'.disk).inode n).type = ((volume σ.disk).inode n).type) :
    Stands σ' fd n := by
  obtain ⟨i, hi, hino⟩ := h.index
  exact ⟨⟨i, hi, by rw [hfds, hino]⟩, hlive, htype.trans h.type⟩

theorem Stands.not_dir (h : Stands σ fd n) : ¬ (volume σ.disk).isDir n := by
  rw [Volume.isDir, h.type]
  decide

theorem Mounted.congr (h : Mounted σ) (fdArray : Nat → Fd) (fdArraySlist : Slist) :
    Mounted { σ with fdArray, fdArraySlist } :=
  ⟨h.cached.congr fdArray fdArraySlist, h.currentDir, h.cwd, h.consistent⟩

/-- A name that is found is that of a live inode. -/
theorem Mounted.isFileExist_live (h : Mounted σ) {name : CString}
    (hexist : (isFileExist name σ).toNat ≠ 0) :
    (volume σ.disk).live (isFileExist name σ).toNat = true := by
  obtain ⟨p, hp, hpointer⟩ := h.cwd
  have hcontent : (volume σ.disk).content p = σ.currentDir := by
    rw [Volume.content, hpointer, h.currentDir]
  unfold isFileExist at hexist ⊢
  split at hexist
  case h_1 k hfind =>
      rw [← hcontent] at hfind ⊢
      exact h.consistent.tree.live_ino hp (Dir.find_some hfind)
  case h_2 => exact absurd rfl hexist

namespace Tracked

variable (h : Tracked s)
include h

theorem name {call : NameCall} (hstep : nameSystem.step s.session.fs call σ') :
    Tracked ⟨⟨σ', s.session.opened⟩, s.file⟩ := by
  have hnext := nameSystem_step h.mounted hstep
  refine ⟨hnext.mounted, fun m hm => ?_, h.listed.congr hnext.fdArraySlist rfl, fun fd n hfd => ?_⟩
  · rcases hnext.inode m hm with ⟨hlive, heq⟩ | hnew
    · show ((volume σ'.disk).inode m).sizeAllocated.toNat % 512 = 0
      rw [heq]
      exact h.aligned m hlive
    · by_cases hdir : (volume σ'.disk).isDir m
      · show ((volume σ'.disk).inode m).sizeAllocated.toNat % 512 = 0
        rw [hnext.mounted.consistent.blocks.dirs m ⟨hm, hdir⟩]
        rfl
      · show ((volume σ'.disk).inode m).sizeAllocated.toNat % 512 = 0
        rw [hnew hdir]
        rfl
  · have hold := h.file fd n hfd
    obtain ⟨hlive, heq⟩ := hnext.file n hold.live hold.not_dir
    refine hold.congr (fun i => ?_) hlive ?_
    · rw [hnext.fdArray]
    · rw [heq]

/-- A descriptor has moved. -/
theorem setFd {f : Fd} (hino : f.ino = (s.session.fs.fdArray i).ino) :
    Tracked ⟨⟨Fs.setFd i f s.session.fs, s.session.opened⟩, s.file⟩ := by
  refine ⟨h.mounted.congr _ _, h.aligned, h.listed.congr rfl rfl, fun fd n hfd => ?_⟩
  have hold := h.file fd n hfd
  refine hold.congr (fun j => ?_) hold.live rfl
  by_cases hj : j = i
  · rw [hj, setFd_self, hino]
  · rw [setFd_other hj]

theorem fopen (name : CString) (access : UInt32)
    (hcareful : Careful s (.fd (.fopen name access))) :
    Tracked ⟨⟨(Fs.fopen name access s.session.fs).1,
      if (Fs.fopen name access s.session.fs).2 = -1 then s.session.opened
      else insert (Fs.fopen name access s.session.fs).2 s.session.opened⟩,
      FdCall.files s (.fopen name access)⟩ := by
  have hlisted := h.listed.fopen name access
  obtain ⟨⟨free, himpl⟩, -⟩ := h.listed
  rw [FdCall.files]
  rcases fopen_cases himpl name access with hfail | ⟨n, k, rest, rfl, hn, htype, -, hk, hopen⟩
  · rw [hfail, if_pos rfl] at hlisted ⊢
    exact ⟨h.mounted, h.aligned, hlisted, h.file⟩
  · have hminus : ¬ (k : Int) = -1 := by omega
    have hlive := h.mounted.isFileExist_live hn
    rw [readInodes_remain _ (Volume.live_lt hlive)] at htype
    rw [hopen, if_neg hminus] at hlisted ⊢
    refine ⟨h.mounted.congr _ _, h.aligned, hlisted, fun fd m hfd => ?_⟩
    dsimp only at hfd
    rw [if_neg hminus] at hfd
    by_cases hfdk : fd = k
    · rw [hfdk, Function.update_self] at hfd
      obtain rfl := Option.some.inj hfd
      rw [hfdk]
      refine ⟨⟨k, hk, ?_⟩, hlive, htype⟩
      rw [setFd_self]
      exact toNat_inoRemain (hcareful htype)
    · rw [Function.update_of_ne hfdk] at hfd
      have hold := h.file fd m hfd
      obtain ⟨j, hj, hino⟩ := hold.index
      refine ⟨⟨j, hj, ?_⟩, hold.live, hold.type⟩
      have hjk : j ≠ k := by
        rintro rfl
        exact hfdk (fdIndex_inj hj hk)
      rw [setFd_other hjk]
      exact hino

theorem fclose (fd : Int) : Tracked ⟨⟨(Fs.fclose fd s.session.fs).1, s.session.opened.erase fd⟩,
    FdCall.files s (.fclose fd)⟩ := by
  have hlisted := h.listed.fclose fd
  have hfields : ∃ slist,
      (Fs.fclose fd s.session.fs).1 = { s.session.fs with fdArraySlist := slist } := by
    rcases fclose_cases fd s.session.fs with ⟨-, hcall⟩ | ⟨i, -, -, hcall⟩
    · exact ⟨s.session.fs.fdArraySlist, by rw [hcall]⟩
    · exact ⟨_, by rw [hcall]⟩
  obtain ⟨slist, hfs⟩ := hfields
  rw [hfs] at hlisted ⊢
  refine ⟨h.mounted.congr _ _, h.aligned, hlisted, fun fd' n hfd => ?_⟩
  change Function.update s.file fd none fd' = some n at hfd
  by_cases heq : fd' = fd
  · rw [heq, Function.update_self] at hfd
    cases hfd
  · rw [Function.update_of_ne heq] at hfd
    have hold := h.file fd' n hfd
    exact hold.congr (fun _ => rfl) hold.live rfl

variable (buf : Nat → UInt8) {size : UInt32}

theorem fileWrite (hfile : s.file fd = some n) (hi : fdIndex fd = .ok i)
    (hwritable : (s.session.fs.fdArray i).writable = true)
    (hdirect : Direct ((volume s.session.fs.disk).inode n) (s.session.fs.fdArray i) size) :
    ∃ written ds x σ', FileWrite fd i n buf size written ds x s.session.fs σ' ∧
      Fs.fwrite fd buf size s.session.fs = .ok (σ', written) := by
  have hstands := h.file fd n hfile
  obtain ⟨j, hj, hino⟩ := hstands.index
  obtain rfl : j = i := Except.ok.inj (hj.symm.trans hi)
  have hrequest : WriteRequest fd j n size s.session.fs :=
    ⟨h.mounted.cached, hi, hwritable, hino, Volume.live_lt hstands.live,
      h.mounted.consistent.blocks.held hstands.live (h.aligned n hstands.live), hdirect.1, hdirect.2⟩
  obtain ⟨written, ds, x, σ', hwrote, hcall⟩ := hrequest.wrote buf
  exact ⟨written, ds, x, σ', ⟨hrequest, hwrote, h.mounted, hstands.live, hstands.not_dir⟩, hcall⟩

/-- What a careful `fwrite` does: nothing, or a write to the file. -/
theorem fwrite_cases (hcareful : Careful s (.fd (.fwrite fd buf size))) {σ' : FsState}
    {written : UInt32} (hcall : Fs.fwrite fd buf size s.session.fs = .ok (σ', written)) :
    σ' = s.session.fs ∨ ∃ n i ds x, s.file fd = some n ∧
      FileWrite fd i n buf size written ds x s.session.fs σ' := by
  obtain ⟨n, i, hfile, hi, hrequest⟩ := hcareful
  by_cases hnothing : (s.session.fs.fdArray i).writable = false ∨ size = 0
  · have hnone := fwrite_nothing buf hi hnothing
    exact .inl (Prod.mk.inj (Except.ok.inj (hcall.symm.trans hnone))).1
  · rw [not_or, Bool.not_eq_false] at hnothing
    have hdirect := (hrequest.resolve_left (by simp [hnothing.1])).resolve_left hnothing.2
    obtain ⟨written', ds, x, τ, hwrite, hcall'⟩ := h.fileWrite buf hfile hi hnothing.1 hdirect
    obtain ⟨rfl, rfl⟩ := Prod.mk.inj (Except.ok.inj (hcall.symm.trans hcall'))
    exact .inr ⟨n, i, ds, x, hfile, hwrite⟩

theorem fwrite (hcareful : Careful s (.fd (.fwrite fd buf size))) {σ' : FsState}
    {written : UInt32} (hcall : Fs.fwrite fd buf size s.session.fs = .ok (σ', written)) :
    Tracked ⟨⟨σ', s.session.opened⟩, s.file⟩ := by
  rcases h.fwrite_cases buf hcareful hcall with rfl | ⟨n, i, ds, x, -, hwrite⟩
  · exact h
  · refine ⟨hwrite.mounted', fun m hm => ?_, h.listed.congr hwrite.wrote.fdArraySlist rfl,
      fun fd' m hfd => ?_⟩
    · have hlive := (hwrite.live_eq m).symm.trans hm
      show ((volume σ'.disk).inode m).sizeAllocated.toNat % 512 = 0
      by_cases hmn : m = n
      · have haligned := hwrite.request.held.aligned
        rw [hmn, hwrite.sizeAllocated_self]
        omega
      · rw [hwrite.wrote.inode_other hmn]
        exact h.aligned m hlive
    · have hold := h.file fd' m hfd
      refine hold.congr (fun j => ?_) ((hwrite.live_eq m).trans hold.live) ?_
      · show (σ'.fdArray j).ino = _
        by_cases hj : j = i
        · rw [hj, hwrite.wrote.fd_self]
          rfl
        · rw [hwrite.wrote.fd_other hj]
      · show ((volume σ'.disk).inode m).type = _
        by_cases hmn : m = n
        · rw [hmn, hwrite.type_eq]
        · rw [hwrite.wrote.inode_other hmn]

theorem next {call : FileCall} (hstep : (handles.restrict Careful).step s call t) :
    Tracked t := by
  obtain ⟨hcareful, hrun⟩ := hstep
  cases call with
  | name call =>
      obtain rfl := Except.ok.inj hrun
      exact h.name (nameSystem_run call _ hcareful.1 hcareful.2)
  | fd call =>
      obtain ⟨session, hsession, heq⟩ := bind_eq_ok.mp hrun
      obtain rfl := Except.ok.inj heq
      cases call with
      | fopen name access =>
          obtain rfl := Except.ok.inj hsession
          exact h.fopen name access hcareful
      | fclose fd =>
          obtain rfl := Except.ok.inj hsession
          exact h.fclose fd
      | fread fd size =>
          obtain ⟨⟨σ', bytes, total⟩, hcall, heq⟩ := bind_eq_ok.mp hsession
          obtain rfl := Except.ok.inj heq
          rcases fread_fields hcall with rfl | ⟨i, f, -, rfl⟩
          · exact h
          · exact h.setFd rfl
      | fwrite fd buf size =>
          obtain ⟨⟨σ', written⟩, hcall, heq⟩ := bind_eq_ok.mp hsession
          obtain rfl := Except.ok.inj heq
          exact h.fwrite buf hcareful hcall
      | fseek fd offset =>
          obtain ⟨σ', hcall, heq⟩ := bind_eq_ok.mp hsession
          obtain rfl := Except.ok.inj heq
          rcases fseek_fields hcall with rfl | ⟨i, -, rfl⟩
          · exact h
          · exact h.setFd rfl

theorem isolated : Isolated (handles.restrict Careful) s := by
  refine ⟨fun fd n hfile => ?_, fun fd n buf size t hfile hstep => ?_⟩
  · have hstands := h.file fd n hfile
    obtain ⟨i, hi, hino⟩ := hstands.index
    refine ⟨i, hi, fun hreadable size => ?_⟩
    simp only [Fs.fread, if_neg (ne_minus_of_fdIndex hi), hi, ok_bind, hreadable,
      not_true_eq_false, if_false, hino, readInodes_remain _ (Volume.live_lt hstands.live)]
  · obtain ⟨hcareful, hrun⟩ := hstep
    obtain ⟨session, hsession, heq⟩ := bind_eq_ok.mp hrun
    obtain rfl := Except.ok.inj heq
    obtain ⟨⟨σ', written⟩, hcall, heq⟩ := bind_eq_ok.mp hsession
    obtain rfl := Except.ok.inj heq
    rcases h.fwrite_cases buf hcareful hcall with rfl | ⟨m, i, ds, x, hm, hwrite⟩
    · exact ⟨rfl, fun _ _ => rfl, fun _ _ => rfl, fun _ _ _ _ => rfl⟩
    · obtain rfl : m = n := Option.some.inj (hm.symm.trans hfile)
      exact hwrite.onlyFile

end Tracked

/-- In every run of careful calls from a consistent file system, a descriptor reads the inode
that the name stood for, and writes to it and to its blocks only. -/
theorem isolated_of_run {s t : Handles} (hidle : Idle s) {calls : List FileCall}
    (run : (handles.restrict Careful).Run s calls t) : Isolated (handles.restrict Careful) t :=
  (run.invariant (fun _ _ _ h hstep => h.next hstep) hidle.tracked).isolated

/-! ### Files of a new file system -/

def newHandles : Handles := ⟨⟨newFs, ∅⟩, fun _ => none⟩

theorem newHandles_idle : Idle newHandles := by
  obtain ⟨hmounted, hempty⟩ := mkfs_mount_mounted blankLocals
    { blankFs with fdArraySlist := slistInit blankFs.fdArraySlist fdArraySlistSize }
  refine ⟨hmounted, fun n hn => ?_, listed_slistInit (l := blankFs.fdArraySlist) rfl, fun _ => rfl⟩
  change ((volume newFs.disk).inode n).sizeAllocated.toNat % 512 = 0
  by_cases hdir : (volume newFs.disk).isDir n
  · have hsize : ((volume newFs.disk).inode n).sizeAllocated = 512 :=
      hmounted.consistent.blocks.dirs n ⟨hn, hdir⟩
    rw [hsize]
    rfl
  · have hsize : ((volume newFs.disk).inode n).sizeAllocated = 0 := hempty n hn hdir
    rw [hsize]
    rfl

def touchAll (names : List CString) (s : Handles) : Handles :=
  names.foldl (fun s name => ⟨⟨(touch name s.session.fs).1, s.session.opened⟩, s.file⟩) s

def touchesAll : List CString → FsState → Bool
  | [], _ => true
  | name :: names, σ => (touch name σ).2 = none && touchesAll names (touch name σ).1

theorem touchAll_run {names : List CString} {s : Handles}
    (h : touchesAll names s.session.fs = true) :
    (handles.restrict Careful).Run s (names.map fun name => .name (.touch name))
      (touchAll names s) := by
  induction names generalizing s with
  | nil => exact .nil s
  | cons name names ih =>
      rw [touchesAll, Bool.and_eq_true, decide_eq_true_eq] at h
      obtain ⟨hnone, hrest⟩ := h
      have hcareful : Careful s (.name (.touch name)) := by
        change (touch name s.session.fs).2 ≠ _ ∧ (touch name s.session.fs).2 ≠ _
        rw [hnone]
        exact ⟨nofun, nofun⟩
      have hstep : (handles.restrict Careful).step s (.name (.touch name))
          ⟨⟨(touch name s.session.fs).1, s.session.opened⟩, s.file⟩ := ⟨hcareful, rfl⟩
      exact Lts.Run.append (.single hstep) (ih hrest)

def openNext (name : CString) (s : Handles) : Handles :=
  ⟨⟨(fopen name oRdwr s.session.fs).1,
    if (fopen name oRdwr s.session.fs).2 = -1 then s.session.opened
    else insert (fopen name oRdwr s.session.fs).2 s.session.opened⟩,
    FdCall.files s (.fopen name oRdwr)⟩

theorem openNext_step (name : CString) (s : Handles) :
    handles.step s (.fd (.fopen name oRdwr)) (openNext name s) := rfl

/-- The files `a`, `b` and so on. -/
def fileNames (n : Nat) : List CString :=
  ((List.finRange 26).take n).map fun k : Fin 26 =>
    ⟨[UInt8.ofNat (0x61 + k.val)], by revert k; decide⟩

/-- Three bytes are written to the first file. -/
theorem isolated_first :
    ∃ s t u, Idle s ∧
      (handles.restrict Careful).Run s [.name (.touch fileName), .fd (.fopen fileName oRdwr)] t ∧
      t.file 0 = some 1 ∧
      (handles.restrict Careful).step t (.fd (.fwrite 0 (fun _ => 7) 3)) u ∧
      OnlyFile 1 (volume t.session.fs.disk) (volume u.session.fs.disk) := by
  have htouch : touchesAll [fileName] newHandles.session.fs = true := by decide +kernel
  have hopen : Careful (touchAll [fileName] newHandles) (.fd (.fopen fileName oRdwr)) := by
    intro _
    decide +kernel
  obtain ⟨t, ht⟩ : ∃ t, t = openNext fileName (touchAll [fileName] newHandles) := ⟨_, rfl⟩
  have hrun : (handles.restrict Careful).Run newHandles
      [.name (.touch fileName), .fd (.fopen fileName oRdwr)] t := by
    rw [ht]
    exact .snoc (touchAll_run htouch) ⟨hopen, openNext_step _ _⟩
  have hfile : t.file 0 = some 1 := by
    rw [ht]
    decide +kernel
  have hwritable : (t.session.fs.fdArray 0).writable = true := by
    rw [ht]
    decide +kernel
  have hoffset : (t.session.fs.fdArray 0).offset.toNat = 0 := by
    rw [ht]
    decide +kernel
  have hdirect : Direct ((volume t.session.fs.disk).inode 1) (t.session.fs.fdArray 0) 3 := by
    rw [Direct, hoffset]
    exact ⟨Nat.zero_le _, by decide⟩
  have htracked : Tracked t :=
    hrun.invariant (fun _ _ _ h hstep => h.next hstep) newHandles_idle.tracked
  obtain ⟨written, ds, x, σ', -, hcall⟩ :=
    htracked.fileWrite (fun _ => 7) hfile rfl hwritable hdirect
  have hstep : (handles.restrict Careful).step t (.fd (.fwrite 0 (fun _ => 7) 3))
      ⟨⟨σ', t.session.opened⟩, t.file⟩ := by
    refine ⟨⟨1, 0, hfile, rfl, .inr (.inr hdirect)⟩, ?_⟩
    refine bind_eq_ok.mpr ⟨⟨σ', t.session.opened⟩, ?_, rfl⟩
    exact bind_eq_ok.mpr ⟨(σ', written), hcall, rfl⟩
  exact ⟨newHandles, t, _, newHandles_idle, hrun, hfile, hstep,
    (isolated_of_run newHandles_idle hrun).writes 0 1 _ _ _ hfile hstep⟩

/-- A write through a descriptor with inode number 0 changes the root. -/
theorem Mounted.fwrite_root {σ : FsState} (h : Mounted σ) (buf : Nat → UInt8)
    (hwritable : (σ.fdArray 0).writable = true) (hino : (σ.fdArray 0).ino = 0)
    (hoffset : (σ.fdArray 0).offset = 0) :
    ∃ σ' written, fwrite 0 buf 3 σ = .ok (σ', written) ∧
      (volume σ'.disk).inode 0 ≠ (volume σ.disk).inode 0 := by
  have hroot := h.consistent.tree.root
  have hsize : ((volume σ.disk).inode 0).sizeAllocated.toNat = 512 := by
    rw [h.consistent.blocks.dirs 0 hroot]
    rfl
  have hzero : (σ.fdArray 0).offset.toNat = 0 := by
    rw [hoffset]
    rfl
  have hrequest : WriteRequest 0 0 0 3 σ :=
    ⟨h.cached, rfl, hwritable, by rw [hino]; rfl, by decide,
      h.consistent.blocks.held hroot.live (by rw [hsize]), by omega, by rw [hzero]; decide⟩
  obtain ⟨written, ds, x, σ', hwrote, hcall⟩ := hrequest.wrote buf
  refine ⟨σ', written, hcall, fun heq => ?_⟩
  have hgrown := congrArg Inode.size (hwrote.inode_self.symm.trans heq)
  have hwritten : written = 3 := by
    obtain ⟨σ₁, -, ⟨hw, -⟩ | ⟨-, -, hless⟩⟩ := hwrote.outcome
    · exact hw
    · have hthree : (3 : UInt32).toNat = 3 := rfl
      have hallocated := hwrote.sizeAllocated
      omega
  rw [hwritten] at hgrown
  simp at hgrown

/-- The eighth file has inode 8, and its descriptor works on the root. -/
theorem isolated_not_eighth :
    ¬ ∀ (s t : Handles) (calls : List FileCall), Idle s → handles.Run s calls t →
      Isolated handles t := by
  intro hall
  have htouch : touchesAll (fileNames 8) newHandles.session.fs = true := by decide +kernel
  obtain ⟨name, hname⟩ : ∃ name : CString, name = ⟨[0x68], by decide⟩ := ⟨_, rfl⟩
  have hrun := touchAll_run htouch
  have hmounted : Mounted (touchAll (fileNames 8) newHandles).session.fs :=
    (hrun.invariant (fun _ _ _ h hstep => h.next hstep) newHandles_idle.tracked).mounted
  obtain ⟨t, ht⟩ : ∃ t, t = openNext name (touchAll (fileNames 8) newHandles) := ⟨_, rfl⟩
  have hopen : handles.step (touchAll (fileNames 8) newHandles) (.fd (.fopen name oRdwr)) t := by
    rw [ht]
    exact openNext_step _ _
  have hisolated : Isolated handles t :=
    hall newHandles t _ newHandles_idle (.snoc hrun.unrestrict hopen)
  have hfile : t.file 0 = some 8 := by
    rw [ht, hname]
    decide +kernel
  have hfd : (t.session.fs.fdArray 0).writable = true ∧ (t.session.fs.fdArray 0).ino = 0 ∧
      (t.session.fs.fdArray 0).offset = 0 := by
    rw [ht, hname]
    decide +kernel
  have hopened : Mounted t.session.fs := by
    obtain ⟨fdArray, fdArraySlist, hfields⟩ :=
      fopen_fields name oRdwr (touchAll (fileNames 8) newHandles).session.fs
    have hfs : t.session.fs = (fopen name oRdwr (touchAll (fileNames 8) newHandles).session.fs).1 := by
      rw [ht, openNext]
    rw [hfs, hfields]
    exact hmounted.congr fdArray fdArraySlist
  obtain ⟨σ', written, hcall, hchanged⟩ := hopened.fwrite_root (fun _ => 7) hfd.1 hfd.2.1 hfd.2.2
  have hstep : handles.step t (.fd (.fwrite 0 (fun _ => 7) 3)) ⟨⟨σ', t.session.opened⟩, t.file⟩ := by
    refine bind_eq_ok.mpr ⟨⟨σ', t.session.opened⟩, ?_, rfl⟩
    exact bind_eq_ok.mpr ⟨(σ', written), hcall, rfl⟩
  exact hchanged ((hisolated.writes 0 8 _ _ _ hfile hstep).inode 0 (by decide))

end UcasOs.Fs
