import UcasOs.Fs.Tree

/-!
# Directory operations on a mounted file system

What `mkdir`, `touch`, `rmdir` and `cd` do to the volume and to the copies in
memory, from any state in which the volume is consistent and the copies are
those of the disk.
-/

namespace UcasOs.Fs

open UcasOs.Foundation UcasOs.Foundation.Naming UcasOs.Libs

/-- A mounted file system between two calls. -/
structure Mounted (σ : FsState) : Prop where
  cached : Cached σ
  currentDir : (volume σ.disk).dir σ.currentDirPointer = σ.currentDir
  cwd : ∃ n, (volume σ.disk).LiveDir n ∧ (volume σ.disk).block n = σ.currentDirPointer
  consistent : (volume σ.disk).Consistent

/-! ## Searching a directory -/

theorem Dir.find_some {d : Dir} {s : List UInt8} {i : Fin maxDirItemNum}
    (h : d.find s = some i) : (d.map i).valid ≠ 0 := by
  have hp := List.find?_some h
  simp only [decide_eq_true_eq] at hp
  exact hp.1

theorem Dir.find_none {d : Dir} {s : List UInt8} (hs : 0 ∉ s) (h : d.find s = none)
    (i : Fin maxDirItemNum) (hvalid : (d.map i).valid ≠ 0) : (d.map i).nameOf ≠ s := by
  intro hname
  have hp := List.find?_eq_none.mp h i (List.mem_finRange i)
  simp only [decide_eq_true_eq, not_and] at hp
  apply hp hvalid
  rw [strcmp_eq_zero_iff, untilZero_of_noZero hs]
  exact hname

theorem Dir.freeEntry_some {d : Dir} {i : Fin maxDirItemNum} (h : d.freeEntry = some i) :
    (d.map i).valid = 0 := by
  have hp := List.find?_some h
  simpa using hp

/-! ## A new entry -/

/-- `newEntry` gave inode `n` the name `s` in the entry `k` of the current directory `p`. -/
structure Entered (s : CString) (σ σ' : FsState) (p : Nat) (k : Fin maxDirItemNum) (n : Nat) :
    Prop where
  parent : (volume σ.disk).LiveDir p
  pointer : (volume σ.disk).block p = σ.currentDirPointer
  free : (((volume σ.disk).content p).map k).valid = 0
  fresh : ∀ k', (((volume σ.disk).content p).map k').valid ≠ 0 →
    (((volume σ.disk).content p).map k').nameOf ≠ s.bytes
  length : s.bytes.length ≤ maxNameLenth
  bound : n < inodeItemNum
  dead : (volume σ.disk).live n = false
  cached : Cached σ'
  samePointer : σ'.currentDirPointer = σ.currentDirPointer
  currentDir : σ'.currentDir = ((volume σ.disk).content p).link k n s.bytes
  fdArray : σ'.fdArray = σ.fdArray
  fdArraySlist : σ'.fdArraySlist = σ.fdArraySlist
  volume : volume σ'.disk =
    { (volume σ.disk).allocInode n with
      dir := Function.update (volume σ.disk).dir ((volume σ.disk).block p)
        (((volume σ.disk).content p).link k n s.bytes) }

theorem Cached.setEntry {σ : FsState} (h : Cached σ) (i : Fin maxDirItemNum) (e : DMap) :
    Cached (setEntry i e σ) :=
  ⟨h.superBlock, h.imap, h.smapIndex, h.smap⟩

theorem Cached.writeDir {σ : FsState} (h : Cached σ) {p : UInt32} (hp : IsBlock p) (d : Dir) :
    Cached { σ with disk := sdwrite d p σ.disk } ∧
      volume (sdwrite d p σ.disk) =
        { volume σ.disk with dir := Function.update (volume σ.disk).dir p d } := by
  have hvol := volume_write_dir d σ.disk hp
  refine ⟨⟨?_, ?_, h.smapIndex, fun hk => ?_⟩, hvol⟩
  · exact (congrArg Volume.superBlock hvol).trans h.superBlock
  · exact (congrArg Volume.imap hvol).trans h.imap
  · exact (congrArg (Volume.smap · σ.smapIndex) hvol).trans (h.smap hk)

theorem Cached.writeCurrentDir {σ : FsState} (h : Cached σ) (hp : IsBlock σ.currentDirPointer) :
    Cached (writeCurrentDir σ) ∧
      volume (writeCurrentDir σ).disk =
        { volume σ.disk with
          dir := Function.update (volume σ.disk).dir σ.currentDirPointer σ.currentDir } :=
  h.writeDir hp σ.currentDir

theorem Mounted.isFileExist_zero {σ : FsState} {s : CString} (h : Mounted σ)
    (hexist : isFileExist s σ = 0) : σ.currentDir.find s.bytes = none := by
  unfold isFileExist at hexist
  split at hexist
  case h_1 i hfind =>
      obtain ⟨n, hn, hp⟩ := h.cwd
      have hcontent : (volume σ.disk).content n = σ.currentDir := by
        rw [Volume.content, hp, h.currentDir]
      refine absurd hexist ?_
      rw [← hcontent]
      exact h.consistent.tree.ino_ne_zero hn (by rw [hcontent]; exact Dir.find_some hfind)
  case h_2 hfind => exact hfind

/-- A new entry passes all the checks that come before the inode map. -/
def Admits (s : CString) (σ : FsState) : Prop :=
  strlen s ≤ maxNameLenth ∧ isFileExist s σ = 0 ∧ σ.currentDir.freeEntry.isSome

theorem iarrayAlloc_none {σ : FsState} (h : scanMap σ.imap = none) : iarrayAlloc σ = (σ, none) := by
  rw [iarrayAlloc, h]

theorem iarrayAlloc_some {σ : FsState} {word : Fin 128 × Nat} (h : scanMap σ.imap = some word) :
    ∃ σ₁ n, iarrayAlloc σ = (σ₁, some n) := by
  rw [iarrayAlloc, h]
  exact ⟨_, _, rfl⟩

/-- What `mkdir` and `touch` begin with: nothing has changed, there was no inode, or there is a new
entry. -/
theorem newEntry_cases (s : CString) (σ : FsState) :
    (¬ Admits s σ ∧ ∃ m, newEntry s σ = (σ, .error m)) ∨
    (Admits s σ ∧ scanMap σ.imap = none ∧ ∃ i, (σ.currentDir.map i).valid = 0 ∧
      newEntry s σ =
        (setEntry i { σ.currentDir.map i with valid := 1 } σ, .error .insufficientInode)) ∨
    (Admits s σ ∧ ∃ i σ₁ n, σ.currentDir.freeEntry = some i ∧ scanMap σ.imap ≠ none ∧
      iarrayAlloc (setEntry i { σ.currentDir.map i with valid := 1 } σ) = (σ₁, some n) ∧
      newEntry s σ = (writeCurrentDir (setEntry i
        { σ₁.currentDir.map i with
          ino := UInt32.ofNat n, name := strcpy (σ₁.currentDir.map i).name s.bytes } σ₁),
        .ok n)) := by
  unfold newEntry
  by_cases hlong : strlen s > maxNameLenth
  · rw [if_pos hlong]
    exact .inl ⟨fun h => absurd h.1 (Nat.not_le.mpr hlong), _, rfl⟩
  rw [if_neg hlong]
  by_cases hexist : isFileExist s σ ≠ 0
  · rw [if_pos hexist]
    exact .inl ⟨fun h => hexist h.2.1, _, rfl⟩
  rw [if_neg hexist]
  rw [not_not] at hexist
  cases hfree : σ.currentDir.freeEntry with
  | none =>
      refine .inl ⟨fun h => ?_, _, rfl⟩
      rw [Admits, hfree] at h
      cases h.2.2
  | some i =>
      have hadmits : Admits s σ := by
        refine ⟨Nat.not_lt.mp hlong, hexist, ?_⟩
        rw [hfree]
        rfl
      dsimp only
      cases hscan : scanMap σ.imap with
      | none =>
          rw [iarrayAlloc_none (show scanMap (setEntry i _ σ).imap = none from hscan)]
          exact .inr (.inl ⟨hadmits, rfl, i, Dir.freeEntry_some hfree, rfl⟩)
      | some word =>
          obtain ⟨σ₁, n, hrun⟩ := iarrayAlloc_some
            (show scanMap (setEntry i { σ.currentDir.map i with valid := 1 } σ).imap = some word
              from hscan)
          rw [hrun]
          exact .inr (.inr ⟨hadmits, i, σ₁, n, rfl, Option.some_ne_none _, hrun, rfl⟩)

theorem newEntry_ok {s : CString} {σ σ' : FsState} {n : Nat} (h : Mounted σ)
    (hrun : newEntry s σ = (σ', .ok n)) : ∃ p k, Entered s σ σ' p k n := by
  obtain ⟨p, hp, hpointer⟩ := h.cwd
  have hcontent : (volume σ.disk).content p = σ.currentDir := by
    rw [Volume.content, hpointer, h.currentDir]
  have hblock : IsBlock σ.currentDirPointer := hpointer ▸ h.consistent.blocks.isBlock hp
  rcases newEntry_cases s σ with ⟨-, m, hnew⟩ | ⟨-, -, i, -, hnew⟩ |
    ⟨⟨hlen, hexist, -⟩, i, σ₁, ino, hfree, -, halloc, hnew⟩
  · rw [hnew] at hrun
    cases hrun
  · rw [hnew] at hrun
    cases hrun
  · rw [hnew] at hrun
    obtain ⟨hbound, hdead, hcached, hsame, hvol⟩ :=
      iarrayAlloc_spec (h.cached.setEntry i { σ.currentDir.map i with valid := 1 }) halloc
    obtain ⟨rfl, hn⟩ := Prod.mk.inj hrun
    obtain rfl : ino = n := Except.ok.inj hn
    -- the entry that was marked before the inode was allocated is overwritten
    have hlink : (setEntry i
        { σ₁.currentDir.map i with
          ino := UInt32.ofNat ino, name := strcpy (σ₁.currentDir.map i).name s.bytes }
        σ₁).currentDir = σ.currentDir.link i ino s.bytes := by
      simp [setEntry, hsame.currentDir, Dir.link]
    obtain ⟨hcached', hvol'⟩ := (hcached.setEntry i
      { σ₁.currentDir.map i with
        ino := UInt32.ofNat ino
        name := strcpy (σ₁.currentDir.map i).name s.bytes }).writeCurrentDir
      (show IsBlock σ₁.currentDirPointer by rw [hsame.currentDirPointer]; exact hblock)
    have hnone := h.isFileExist_zero hexist
    refine ⟨p, i, ⟨hp, hpointer, ?_, ?_, hlen, hbound, hdead,
      hcached', hsame.currentDirPointer, ?_, hsame.fdArray, hsame.fdArraySlist, ?_⟩⟩
    · rw [hcontent]
      exact Dir.freeEntry_some hfree
    · rw [hcontent]
      exact Dir.find_none s.noZero hnone
    · rw [hcontent]
      exact hlink
    · refine hvol'.trans ?_
      rw [hlink, hcontent, hpointer]
      change ({ volume σ₁.disk with
        dir := Function.update (volume σ₁.disk).dir σ₁.currentDirPointer
          (σ.currentDir.link i ino s.bytes) } : Volume) = _
      rw [hvol, hsame.currentDirPointer]
      rfl

/-- Without a new inode nothing has changed. -/
theorem newEntry_error {s : CString} {σ σ' : FsState} {m : Message}
    (hrun : newEntry s σ = (σ', .error m)) (hm : m ≠ .insufficientInode) : σ' = σ := by
  rcases newEntry_cases s σ with ⟨-, m', hnew⟩ | ⟨-, -, i, -, hnew⟩ |
    ⟨-, i, σ₁, n, -, -, -, hnew⟩
  · rw [hnew] at hrun
    exact (Prod.mk.inj hrun).1.symm
  · rw [hnew] at hrun
    exact absurd (Except.error.inj (Prod.mk.inj hrun).2).symm hm
  · rw [hnew] at hrun
    cases hrun

namespace Entered

variable {s : CString} {σ σ₁ : FsState} {p n : Nat} {k : Fin maxDirItemNum}
variable (h : Entered s σ σ₁ p k n)
include h

theorem ne_of_live {m : Nat} (hm : (UcasOs.Fs.volume σ.disk).live m = true) : m ≠ n := by
  rintro rfl
  exact nomatch h.dead.symm.trans hm

theorem inode : (UcasOs.Fs.volume σ₁.disk).inode = (UcasOs.Fs.volume σ.disk).inode := by
  rw [h.volume]
  rfl

theorem counts (hc : (UcasOs.Fs.volume σ.disk).Counts) :
    (UcasOs.Fs.volume σ₁.disk).Counts := by
  rw [h.volume]
  exact (hc.allocInode h.bound h.dead).congr rfl rfl rfl

/-- The directories that were there, after the write of the parent. -/
theorem dir (hb : (UcasOs.Fs.volume σ.disk).Blocks) {m : Nat}
    (hm : (UcasOs.Fs.volume σ.disk).LiveDir m) (hmp : m ≠ p) :
    (UcasOs.Fs.volume σ₁.disk).dir ((UcasOs.Fs.volume σ.disk).block m) =
      (UcasOs.Fs.volume σ.disk).content m := by
  rw [h.volume]
  exact Function.update_of_ne (fun heq => hmp (hb.block_inj hm h.parent heq)) _ _

/-- The new inode is written, and blocks of no directory. -/
theorem adds (hb : (UcasOs.Fs.volume σ.disk).Blocks) {v' : Volume}
    (himap : v'.imap = (UcasOs.Fs.volume σ₁.disk).imap)
    (hinode : ∀ m, m ≠ n → v'.inode m = (UcasOs.Fs.volume σ.disk).inode m)
    (hdir : ∀ m, (UcasOs.Fs.volume σ.disk).LiveDir m →
      v'.dir ((UcasOs.Fs.volume σ.disk).block m) =
        (UcasOs.Fs.volume σ₁.disk).dir ((UcasOs.Fs.volume σ.disk).block m))
    (hleaf : v'.isDir n → ∀ k', ((v'.content n).map k').valid = 0)
    (hfather : v'.isDir n → (v'.content n).fpointer = (UcasOs.Fs.volume σ.disk).block p) :
    (UcasOs.Fs.volume σ.disk).Adds v' p k n s.bytes where
  parent := h.parent
  free := h.free
  fresh := h.fresh
  string := ⟨s.noZero, h.length⟩
  bound := h.bound
  dead := h.dead
  live m := by
    rw [Volume.live, himap, h.volume]
    exact (UcasOs.Fs.volume σ.disk).live_allocInode h.bound m
  inode := hinode
  content m hm hmp := by
    rw [Volume.content, Volume.block, hinode m (h.ne_of_live hm.live)]
    exact (hdir m hm).trans (h.dir hb hm hmp)
  linked := by
    rw [Volume.content, Volume.block, hinode p (h.ne_of_live h.parent.live)]
    refine (hdir p h.parent).trans ?_
    rw [h.volume]
    exact Function.update_self _ _ _
  leaf := hleaf
  father := hfather

theorem mounted (hm : Mounted σ) {σ' : FsState} (hcached : Cached σ')
    (hadds : (UcasOs.Fs.volume σ.disk).Adds (UcasOs.Fs.volume σ'.disk) p k n s.bytes)
    (hblocks : (UcasOs.Fs.volume σ'.disk).Blocks) (hcounts : (UcasOs.Fs.volume σ'.disk).Counts)
    (hpointer : σ'.currentDirPointer = σ₁.currentDirPointer)
    (hdir : σ'.currentDir = σ₁.currentDir) : Mounted σ' where
  cached := hcached
  currentDir := by
    rw [hdir, h.currentDir, ← hadds.linked, Volume.content, hadds.parent_block, h.pointer,
      hpointer, h.samePointer]
  cwd := ⟨p, hadds.parent_liveDir, by rw [hadds.parent_block, h.pointer, hpointer, h.samePointer]⟩
  consistent := ⟨hadds.tree hm.consistent.tree, hblocks, hcounts⟩

end Entered

theorem writeInodes_cached {σ : FsState} (h : Cached σ) {disk' : Store} {n : Nat}
    (hn : n < inodeItemNum) (hread : (volume disk').inode = (volume σ.disk).inode) (i : Inode) :
    Cached (writeInodes n (Function.update (readInodes disk' n) (inoRemain n) i) σ) ∧
      volume (writeInodes n (Function.update (readInodes disk' n) (inoRemain n) i) σ).disk =
        { volume σ.disk with inode := Function.update (volume σ.disk).inode n i } := by
  have hvol := volume_write_inode i σ.disk disk' hn hread
  refine ⟨⟨?_, ?_, h.smapIndex, fun hk => ?_⟩, hvol⟩
  · exact (congrArg Volume.superBlock hvol).trans h.superBlock
  · exact (congrArg Volume.imap hvol).trans h.imap
  · exact (congrArg (Volume.smap · σ.smapIndex) hvol).trans (h.smap hk)

/-! ## `touch` -/

/-- The inode of a new file. -/
def fileInode (i : Inode) : Inode :=
  { i with type := fileNormal, links := 1, size := 0, sizeAllocated := 0 }

theorem touch_ok {s : CString} {σ σ' : FsState} (hrun : touch s σ = (σ', none)) :
    ∃ σ₁ n, newEntry s σ = (σ₁, .ok n) ∧
      σ' = writeInodes n (Function.update (readInodes σ₁.disk n) (inoRemain n)
        (fileInode (readInodes σ₁.disk n (inoRemain n)))) σ₁ := by
  unfold touch at hrun
  split at hrun
  case h_1 => cases hrun
  case h_2 σ₁ n hnew =>
      obtain ⟨rfl, -⟩ := Prod.mk.inj hrun
      exact ⟨σ₁, n, hnew, rfl⟩

theorem touch_error {s : CString} {σ σ' : FsState} {m : Message}
    (hrun : touch s σ = (σ', some m)) : newEntry s σ = (σ', .error m) := by
  unfold touch at hrun
  split at hrun
  case h_1 σ₁ m' hnew =>
      cases hrun
      exact hnew
  case h_2 => cases hrun

/-- What a successful `touch` does. -/
structure Touched (s : CString) (σ σ' : FsState) (p : Nat) (k : Fin maxDirItemNum) (n : Nat) :
    Prop where
  adds : (volume σ.disk).Adds (volume σ'.disk) p k n s.bytes
  inode : (volume σ'.disk).inode n = fileInode ((volume σ.disk).inode n)
  mounted : Mounted σ'
  fdArray : σ'.fdArray = σ.fdArray
  fdArraySlist : σ'.fdArraySlist = σ.fdArraySlist

theorem touch_spec {s : CString} {σ σ' : FsState} (h : Mounted σ)
    (hrun : touch s σ = (σ', none)) : ∃ p k n, Touched s σ σ' p k n := by
  obtain ⟨σ₁, n, hnew, hσ'⟩ := touch_ok hrun
  obtain ⟨p, k, hentered⟩ := newEntry_ok h hnew
  obtain ⟨hcached, hvol⟩ := writeInodes_cached hentered.cached hentered.bound rfl
    (fileInode (readInodes σ₁.disk n (inoRemain n)))
  rw [← hσ'] at hcached hvol
  have hinode : ∀ m, m ≠ n → (volume σ'.disk).inode m = (volume σ.disk).inode m := by
    intro m hm
    rw [hvol, ← hentered.inode]
    exact Function.update_of_ne hm _ _
  have hfile : (volume σ'.disk).inode n = fileInode ((volume σ.disk).inode n) := by
    rw [hvol, ← hentered.inode, ← readInodes_remain σ₁.disk hentered.bound]
    exact Function.update_self _ _ _
  have hnotDir : ¬ (volume σ'.disk).isDir n := by
    rw [Volume.isDir, hfile]
    exact (by decide : fileNormal ≠ fileDir)
  have hadds := hentered.adds h.consistent.blocks (by rw [hvol]) hinode
    (fun m _ => by rw [hvol]) (fun hd => absurd hd hnotDir) (fun hd => absurd hd hnotDir)
  have hblocks : (volume σ'.disk).Blocks := by
    refine h.consistent.blocks.congr (fun d => ?_) (fun m j => ?_) (fun m j hm => ?_)
      (fun m hm => ?_)
    · rw [Volume.used, hvol, hentered.volume]
      rfl
    · by_cases hm : m = n
      · subst hm
        constructor
        · rintro ⟨-, hj⟩
          rw [hfile] at hj
          exact absurd hj (by simp [fileInode])
        · intro hown
          exact absurd rfl (hadds.ne_of_live hown.live)
      · exact hadds.owns_iff hm j
    · rw [hinode m (hadds.ne_of_live hm.live)]
    · refine hadds.dirs h.consistent.blocks hm ?_
      rintro rfl
      exact hnotDir hm.dir
  have hcounts : (volume σ'.disk).Counts :=
    (hentered.counts h.consistent.counts).congr (by rw [hvol]) (by rw [hvol]) (by rw [hvol])
  refine ⟨p, k, n, hadds, hfile, ?_, ?_, ?_⟩
  · exact hentered.mounted h hcached hadds hblocks hcounts (by rw [hσ']; rfl) (by rw [hσ']; rfl)
  · rw [hσ']
    exact hentered.fdArray
  · rw [hσ']
    exact hentered.fdArraySlist

/-! ## `mkdir` -/

/-- The inode of a new directory. -/
def dirInode (i : Inode) (p : UInt32) : Inode :=
  { i with
    type := fileDir
    links := 1
    size := 512
    sizeAllocated := 512
    pointers := Function.update i.pointers 0 p }

theorem mkdir_ok {d : Dir} {s : CString} {σ σ' : FsState} (hrun : mkdir d s σ = (σ', none)) :
    ∃ σ₁ n σ₂ dno, newEntry s σ = (σ₁, .ok n) ∧ darrayAlloc σ₁ = (σ₂, some dno) ∧
      σ' = { writeInodes n (Function.update (readInodes σ₁.disk n) (inoRemain n)
          (dirInode (readInodes σ₁.disk n (inoRemain n)) (dataBlock dno))) σ₂ with
        disk := sdwrite (emptyDir d σ₂.currentDirPointer s.bytes) (dataBlock dno)
          (writeInodes n (Function.update (readInodes σ₁.disk n) (inoRemain n)
            (dirInode (readInodes σ₁.disk n (inoRemain n)) (dataBlock dno))) σ₂).disk } := by
  unfold mkdir at hrun
  split at hrun
  case h_1 => cases hrun
  case h_2 σ₁ n hnew =>
      dsimp only at hrun
      split at hrun
      case h_1 => cases hrun
      case h_2 σ₂ dno halloc =>
          obtain ⟨rfl, -⟩ := Prod.mk.inj hrun
          refine ⟨σ₁, n, σ₂, dno, hnew, halloc, ?_⟩
          simp only [Function.update_idem, Function.update_self]
          rfl

theorem mkdir_error {d : Dir} {s : CString} {σ σ' : FsState} {m : Message}
    (hrun : mkdir d s σ = (σ', some m)) :
    newEntry s σ = (σ', .error m) ∨ m = .insufficientDataBlock := by
  unfold mkdir at hrun
  split at hrun
  case h_1 σ₁ m' hnew =>
      cases hrun
      exact .inl hnew
  case h_2 σ₁ n hnew =>
      dsimp only at hrun
      split at hrun
      case h_1 =>
          obtain ⟨-, hm⟩ := Prod.mk.inj hrun
          exact .inr (Option.some.inj hm).symm
      case h_2 => cases hrun

/-- What a successful `mkdir` does. -/
structure MadeDir (s : CString) (σ σ' : FsState) (p : Nat) (k : Fin maxDirItemNum) (n d : Nat) :
    Prop where
  adds : (volume σ.disk).Adds (volume σ'.disk) p k n s.bytes
  gains : (volume σ.disk).Gains (volume σ'.disk) n 0 d
  isDir : (volume σ'.disk).isDir n
  mounted : Mounted σ'
  fdArray : σ'.fdArray = σ.fdArray
  fdArraySlist : σ'.fdArraySlist = σ.fdArraySlist

theorem mkdir_spec {junk : Dir} {s : CString} {σ σ' : FsState} (h : Mounted σ)
    (hrun : mkdir junk s σ = (σ', none)) : ∃ p k n d, MadeDir s σ σ' p k n d := by
  obtain ⟨σ₁, n, σ₂, d, hnew, halloc, hσ'⟩ := mkdir_ok hrun
  obtain ⟨p, k, hentered⟩ := newEntry_ok h hnew
  obtain ⟨hd, hunused, hcached₂, hsame, hvol₂⟩ := darrayAlloc_spec hentered.cached halloc
  obtain ⟨hcached₃, hvol₃⟩ := writeInodes_cached hcached₂ hentered.bound
    (show (volume σ₁.disk).inode = (volume σ₂.disk).inode by rw [hvol₂]; rfl)
    (dirInode (readInodes σ₁.disk n (inoRemain n)) (dataBlock d))
  obtain ⟨hcached, hvol⟩ := hcached₃.writeDir (isBlock_dataBlock hd)
    (emptyDir junk σ₂.currentDirPointer s.bytes)
  rw [← hσ'] at hcached
  have hdisk : volume σ'.disk =
      { (volume σ₁.disk).allocBlock d with
        inode := Function.update (volume σ.disk).inode n
          (dirInode ((volume σ.disk).inode n) (dataBlock d))
        dir := Function.update (volume σ₁.disk).dir (dataBlock d)
          (emptyDir junk σ₂.currentDirPointer s.bytes) } := by
    rw [hσ']
    refine hvol.trans ?_
    rw [hvol₃, hvol₂, readInodes_remain σ₁.disk hentered.bound, ← hentered.inode]
    rfl
  -- the new block belonged to nobody
  have hfree : ∀ m j, (volume σ.disk).Owns m j →
      ((volume σ.disk).inode m).pointers j ≠ dataBlock d := by
    intro m j hown hp
    obtain ⟨e, he, hp', hused⟩ := h.consistent.blocks.owned m j hown
    obtain rfl := dataBlock_inj he hd (hp'.symm.trans hp)
    rw [Volume.used, hentered.volume] at hunused
    cases hunused.symm.trans hused
  have hinode : ∀ m, m ≠ n → (volume σ'.disk).inode m = (volume σ.disk).inode m := by
    intro m hm
    rw [hdisk]
    exact Function.update_of_ne hm _ _
  have hdir : (volume σ'.disk).inode n = dirInode ((volume σ.disk).inode n) (dataBlock d) := by
    rw [hdisk]
    exact Function.update_self _ _ _
  have hcontent : (volume σ'.disk).content n = emptyDir junk σ₂.currentDirPointer s.bytes := by
    rw [Volume.content, Volume.block, hdir, hdisk]
    simp [dirInode]
  have hadds : (volume σ.disk).Adds (volume σ'.disk) p k n s.bytes := by
    refine hentered.adds h.consistent.blocks (by rw [hdisk]; rfl) hinode (fun m hm => ?_)
      (fun _ k' => ?_) (fun _ => ?_)
    · rw [hdisk]
      exact Function.update_of_ne (hfree m 0 (h.consistent.blocks.dirBlock hm)) _ _
    · rw [hcontent]
      rfl
    · rw [hcontent, hentered.pointer, ← hentered.samePointer, ← hsame.currentDirPointer]
      rfl
  have hgains : (volume σ.disk).Gains (volume σ'.disk) n 0 d := by
    refine ⟨hd, ?_, fun e => ?_, fun m j => ?_, fun m j hm => ?_, ?_, fun m hm => ?_⟩
    · rw [Volume.used, hentered.volume] at hunused
      exact hunused
    · rw [Volume.used, hdisk]
      refine ((volume σ₁.disk).used_allocBlock d e).trans ?_
      rw [Volume.used, hentered.volume]
      rfl
    · by_cases hm : m = n
      · subst hm
        constructor
        · rintro ⟨-, hj⟩
          rw [hdir] at hj
          refine .inr ⟨rfl, Fin.ext ?_⟩
          simpa [dirInode] using hj
        · rintro (hown | ⟨-, rfl⟩)
          · exact absurd rfl (hadds.ne_of_live hown.live)
          · refine ⟨(hadds.live_iff m).mpr (.inr rfl), ?_⟩
            rw [hdir]
            exact (by decide : 0 < (512 : UInt32).toNat / 512)
      · simp [hadds.owns_iff hm j, hm]
    · rw [hinode m (hadds.ne_of_live hm.live)]
    · simp [hdir, dirInode]
    · by_cases hmn : m = n
      · rw [hmn, hdir]
        rfl
      · exact hadds.dirs h.consistent.blocks hm hmn
  have hcounts : (volume σ'.disk).Counts := by
    rw [hdisk]
    exact ((hentered.counts h.consistent.counts).allocBlock hd hunused).congr rfl rfl rfl
  refine ⟨p, k, n, d, hadds, hgains, ?_, ?_, ?_, ?_⟩
  · rw [Volume.isDir, hdir]
    rfl
  · refine hentered.mounted h hcached hadds (hgains.blocks h.consistent.blocks) hcounts ?_ ?_
    · rw [hσ']
      exact hsame.currentDirPointer
    · rw [hσ']
      exact hsame.currentDir
  · rw [hσ']
    exact hsame.fdArray.trans hentered.fdArray
  · rw [hσ']
    exact hsame.fdArraySlist.trans hentered.fdArraySlist

/-! ## `rmdir` -/

theorem toNat_blockNo {d : Nat} (hd : d < dataItemNum) :
    ((dataBlock d - darrayAddr) / sectorSize).toNat = d := by
  have hd' : d < 1048576 := hd
  rw [UInt32.toNat_div, UInt32.toNat_sub, toNat_dataBlock hd,
    show darrayAddr.toNat = 0x01080000 from rfl, show sectorSize.toNat = 512 from rfl]
  omega

theorem rmdir_ok {s : CString} {σ σ' : FsState} (hrun : rmdir s σ = (σ', none)) :
    ∃ i ino inode, σ.currentDir.find s.bytes = some i ∧
      ino = (σ.currentDir.map i).ino.toNat ∧
      inode = readInodes σ.disk ino (inoRemain ino) ∧ inode.type = fileDir ∧
      (∀ j, ((sdread σ.disk (inode.pointers 0) : Dir).map j).valid = 0) ∧
      σ' = writeCurrentDir (setEntry i
        { (darrayFree ((inode.pointers 0 - darrayAddr) / sectorSize).toNat
            (iarrayFree ino σ)).currentDir.map i with valid := 0 }
        (darrayFree ((inode.pointers 0 - darrayAddr) / sectorSize).toNat (iarrayFree ino σ))) := by
  unfold rmdir at hrun
  split at hrun
  case h_1 => cases hrun
  case h_2 i hfind =>
      dsimp only at hrun
      split at hrun
      case isTrue => cases hrun
      case isFalse htype =>
          split at hrun
          case isTrue => cases hrun
          case isFalse hempty =>
              obtain ⟨rfl, -⟩ := Prod.mk.inj hrun
              refine ⟨i, _, _, hfind, rfl, rfl, not_not.mp htype, fun j => ?_, rfl⟩
              by_contra hj
              exact hempty ⟨j, hj⟩

theorem rmdir_error {s : CString} {σ σ' : FsState} {m : Message}
    (hrun : rmdir s σ = (σ', some m)) : σ' = σ := by
  unfold rmdir at hrun
  split at hrun
  case h_1 => cases hrun; rfl
  case h_2 i hfind =>
      dsimp only at hrun
      split at hrun
      case isTrue => cases hrun; rfl
      case isFalse =>
          split at hrun
          case isTrue => cases hrun; rfl
          case isFalse => cases hrun

/-- What a successful `rmdir` does. -/
structure RemovedDir (σ σ' : FsState) (p : Nat) (k : Fin maxDirItemNum) (c d : Nat) : Prop where
  removes : (volume σ.disk).Removes (volume σ'.disk) p k c
  child : (volume σ.disk).LiveDir c
  bound : d < dataItemNum
  block : (volume σ.disk).block c = dataBlock d
  used : ∀ e, (volume σ'.disk).used e = (!decide (e = d) && (volume σ.disk).used e)
  mounted : Mounted σ'
  fdArray : σ'.fdArray = σ.fdArray
  fdArraySlist : σ'.fdArraySlist = σ.fdArraySlist

theorem rmdir_spec {s : CString} {σ σ' : FsState} (h : Mounted σ)
    (hrun : rmdir s σ = (σ', none)) : ∃ p k c d, RemovedDir σ σ' p k c d := by
  obtain ⟨k, c, inode, hfind, hino, hinode, htype, hempty, hσ'⟩ := rmdir_ok hrun
  obtain ⟨p, hp, hpointer⟩ := h.cwd
  have hblocks := h.consistent.blocks
  have hcontent : (volume σ.disk).content p = σ.currentDir := by
    rw [Volume.content, hpointer, h.currentDir]
  have hvalid : (((volume σ.disk).content p).map k).valid ≠ 0 := by
    rw [hcontent]
    exact Dir.find_some hfind
  have hentry : (volume σ.disk).entry p k = some c := by
    rw [Volume.entry_of_valid hp.dir hvalid, hcontent, hino]
  have hclive := h.consistent.tree.live_entry hp hentry
  have hcbound := Volume.live_lt hclive
  rw [readInodes_remain σ.disk hcbound] at hinode
  have hc : (volume σ.disk).LiveDir c := ⟨hclive, by rw [Volume.isDir, ← hinode, htype]⟩
  obtain ⟨d, hd, hdblock, hused⟩ := hblocks.owned c 0 (hblocks.dirBlock hc)
  rw [hinode, hdblock, toNat_blockNo hd] at hσ'
  have hcempty : ∀ k', (((volume σ.disk).content c).map k').valid = 0 := by
    intro k'
    rw [Volume.content, volume_dir σ.disk (hblocks.isBlock hc), Volume.block, ← hinode]
    exact hempty k'
  obtain ⟨hcached₁, hsame₁, hvol₁⟩ := iarrayFree_spec h.cached c
  obtain ⟨hcached₂, hsame₂, hvol₂⟩ := darrayFree_spec hcached₁ hd
  have hpointer₂ := hsame₂.currentDirPointer.trans hsame₁.currentDirPointer
  have hdir₂ := hsame₂.currentDir.trans hsame₁.currentDir
  rw [hdir₂] at hσ'
  obtain ⟨hcached, hvol⟩ := (hcached₂.setEntry k
    { σ.currentDir.map k with valid := 0 }).writeCurrentDir
    (by
      change IsBlock (darrayFree d (iarrayFree c σ)).currentDirPointer
      rw [hpointer₂, ← hpointer]
      exact hblocks.isBlock hp)
  rw [← hσ'] at hcached hvol
  have hdisk : volume σ'.disk =
      { ((volume σ.disk).freeInode c).freeBlock d with
        dir := Function.update (volume σ.disk).dir ((volume σ.disk).block p)
          (((volume σ.disk).content p).unlink k) } := by
    refine hvol.trans ?_
    change ({ volume (darrayFree d (iarrayFree c σ)).disk with
      dir := Function.update (volume (darrayFree d (iarrayFree c σ)).disk).dir
        (darrayFree d (iarrayFree c σ)).currentDirPointer
        { (darrayFree d (iarrayFree c σ)).currentDir with
          map := Function.update (darrayFree d (iarrayFree c σ)).currentDir.map k
            { σ.currentDir.map k with valid := 0 } } } : Volume) = _
    rw [hvol₂, hvol₁, hpointer₂, hdir₂, hcontent, hpointer]
    rfl
  have hinode' : (volume σ'.disk).inode = (volume σ.disk).inode := by
    rw [hdisk]
    rfl
  have hused' : ∀ e, (volume σ'.disk).used e =
      (!decide (e = d) && (volume σ.disk).used e) := by
    intro e
    rw [Volume.used, hdisk]
    exact ((volume σ.disk).freeInode c).used_freeBlock d e
  have hremoves : (volume σ.disk).Removes (volume σ'.disk) p k c := by
    refine ⟨hp, hentry, hcempty, fun m => ?_, hinode', fun m hm hmp => ?_, ?_⟩
    · rw [Volume.live, hdisk]
      exact (volume σ.disk).live_freeInode hcbound m
    · rw [Volume.content, Volume.block, hinode', hdisk]
      exact Function.update_of_ne (fun heq => hmp (hblocks.block_inj hm hp heq)) _ _
    · rw [Volume.content, Volume.block, hinode', hdisk]
      exact Function.update_self _ _ _
  have hcounts : (volume σ'.disk).Counts := by
    rw [hdisk]
    exact ((h.consistent.counts.freeInode hcbound hclive).freeBlock hd hused).congr rfl rfl rfl
  have hblocks' : (volume σ'.disk).Blocks :=
    hblocks.lose hc hd hdblock hremoves.live_iff hinode' hused'
  have hpointer' : σ'.currentDirPointer = σ.currentDirPointer := by
    rw [hσ']
    exact hpointer₂
  have hdir' : σ'.currentDir = σ.currentDir.unlink k := by
    rw [hσ']
    change ({ (darrayFree d (iarrayFree c σ)).currentDir with
      map := Function.update (darrayFree d (iarrayFree c σ)).currentDir.map k
        { σ.currentDir.map k with valid := 0 } } : Dir) = _
    rw [hdir₂]
    rfl
  have hblockp : (volume σ'.disk).block p = σ'.currentDirPointer := by
    rw [Volume.block, hinode', hpointer']
    exact hpointer
  refine ⟨p, k, c, d, hremoves, hc, hd, hdblock, hused', ?_, ?_, ?_⟩
  · refine ⟨hcached, ?_, ⟨p, ⟨?_, (hremoves.isDir_iff p).mpr hp.dir⟩, hblockp⟩,
      ⟨hremoves.tree h.consistent.tree, hblocks', hcounts⟩⟩
    · rw [← hblockp, hdir', ← hcontent]
      exact hremoves.unlinked
    · exact (hremoves.live_iff p).mpr ⟨hp.live, hremoves.child_ne_parent.symm⟩
  · rw [hσ']
    exact hsame₂.fdArray.trans hsame₁.fdArray
  · rw [hσ']
    exact hsame₂.fdArraySlist.trans hsame₁.fdArraySlist

/-! ## `cd` -/

theorem separate_lt {s : List UInt8} {c : UInt8} {pos : Nat} (h : separate s c = some pos) :
    pos < s.length :=
  (List.findIdx?_eq_some_iff_getElem.mp h).1

/-- The search of a path stays in live directories. -/
theorem parseFrom_live {disk : Store} (h : (volume disk).Consistent) {s : List UInt8} {ino : UInt32}
    {n : Nat} (hn : (volume disk).LiveDir n)
    (hparse : parseFrom disk ((volume disk).content n) s = some ino) :
    (volume disk).live ino.toNat = true := by
  induction hlen : s.length using Nat.strong_induction_on generalizing s n with
  | _ len ih =>
      rw [parseFrom] at hparse
      split at hparse
      case h_1 pos hpos =>
          split at hparse
          case h_1 i hfind =>
              dsimp only at hparse
              split at hparse
              case isTrue => cases hparse
              case isFalse htype =>
                  have hlive := h.tree.live_ino hn (Dir.find_some hfind)
                  rw [readInodes_remain disk (Volume.live_lt hlive)] at htype hparse
                  have hdir : (volume disk).LiveDir _ := ⟨hlive, not_not.mp htype⟩
                  have hcontent := volume_dir disk (h.blocks.isBlock hdir)
                  rw [Volume.block] at hcontent
                  rw [← hcontent] at hparse
                  have hlt := separate_lt hpos
                  refine ih _ ?_ hdir hparse rfl
                  simp only [List.length_drop]
                  omega
          case h_2 => cases hparse
      case h_2 =>
          obtain ⟨i, hfind, hino⟩ := Option.map_eq_some_iff.mp hparse
          rw [← hino]
          exact h.tree.live_ino hn (Dir.find_some hfind)

theorem parsePath_live {disk : Store} (h : (volume disk).Consistent) {s : List UInt8}
    {ino : UInt32} (hparse : parsePath disk s = some ino) :
    (volume disk).live ino.toNat = true := by
  unfold parsePath at hparse
  split at hparse
  case isTrue =>
      cases hparse
      exact h.tree.root.live
  case isFalse =>
      have hblock := h.blocks.isBlock h.tree.root
      rw [h.tree.rootBlock] at hblock
      rw [← volume_dir disk hblock, ← h.tree.rootBlock] at hparse
      exact parseFrom_live h h.tree.root hparse

theorem cdTarget_live {s : CString} {σ : FsState} {ino : UInt32} (h : Mounted σ)
    (htarget : cdTarget s σ = some ino) : (volume σ.disk).live ino.toNat = true := by
  unfold cdTarget at htarget
  split at htarget
  case isTrue => exact parsePath_live h.consistent htarget
  case isFalse =>
      obtain ⟨n, hn, hpointer⟩ := h.cwd
      have hcontent : (volume σ.disk).content n = σ.currentDir := by
        rw [Volume.content, hpointer, h.currentDir]
      obtain ⟨i, hfind, hino⟩ := Option.map_eq_some_iff.mp htarget
      rw [← hcontent] at hfind hino
      rw [← hino]
      exact h.consistent.tree.live_ino hn (Dir.find_some hfind)

/-- `cd` stays where it is or enters a live directory. -/
theorem cd_cases {s : CString} {σ : FsState} (h : Mounted σ) :
    (cd s σ).1 = σ ∨
      ∃ n, (volume σ.disk).LiveDir n ∧ (cd s σ).1 = enterDir ((volume σ.disk).block n) σ := by
  unfold cd
  split
  case isTrue =>
      split
      case isTrue => exact .inl rfl
      case isFalse hroot =>
          -- the parent of a directory other than the root
          obtain ⟨n, hn, hpointer⟩ := h.cwd
          have hne : n ≠ 0 := by
            rintro rfl
            exact hroot (hpointer.symm.trans h.consistent.tree.rootBlock)
          obtain ⟨p, k, hp, hk⟩ := h.consistent.tree.named hn.live hne
          have hfather := h.consistent.tree.parents p k n hp hk hn.dir
          rw [Volume.content, hpointer, h.currentDir] at hfather
          exact .inr ⟨p, hp, by rw [hfather]⟩
  case isFalse =>
      split
      case isTrue => exact .inl rfl
      case isFalse =>
          split
          case h_1 => exact .inl rfl
          case h_2 ino htarget =>
              have hlive := cdTarget_live h (Option.filter_eq_some_iff.mp htarget).1
              dsimp only
              rw [readInodes_remain σ.disk (Volume.live_lt hlive)]
              split
              case isTrue => exact .inl rfl
              case isFalse htype => exact .inr ⟨_, ⟨hlive, not_not.mp htype⟩, rfl⟩

theorem cd_mounted {s : CString} {σ : FsState} (h : Mounted σ) : Mounted (cd s σ).1 := by
  rcases cd_cases (s := s) h with heq | ⟨n, hn, heq⟩
  · rw [heq]
    exact h
  · rw [heq]
    refine ⟨⟨h.cached.superBlock, h.cached.imap, h.cached.smapIndex, h.cached.smap⟩, ?_,
      ⟨n, hn, rfl⟩, h.consistent⟩
    exact volume_dir σ.disk (h.consistent.blocks.isBlock hn)

end UcasOs.Fs
