import UcasOs.Fs.Directories
import UcasOs.Foundation.Run

/-!
# The name space

From a disk with any content, `mkfs` and `mount` make a consistent file
system, and the calls that work on names keep it so, as long as there are
inodes and blocks to allocate.
-/

namespace UcasOs.Fs

open UcasOs.Foundation UcasOs.Foundation.Naming UcasOs.Libs

/-! ## A new file system -/

theorem zeroMap_mem (k : Nat) : zeroMap.mem k = false := by
  simp [Bitmap.mem, zeroMap, bitOf]

theorem rootMap_mem (k : Nat) : rootMap.mem k = decide (k = 0) := by
  have hset : rootMap = zeroMap.set 0 0 := rfl
  rw [hset, Bitmap.mem_set zeroMap 0 (by decide) k, zeroMap_mem]
  simp

theorem volume_clearSmap (n k : Nat) (disk : Store) (h : k + n < 256) :
    volume (clearSmap n k disk) =
      { volume disk with
        smap := fun i => if k < i ∧ i ≤ k + n then zeroMap else (volume disk).smap i } := by
  induction n generalizing k disk with
  | zero =>
      rw [clearSmap]
      ext1
      · rfl
      · rfl
      · funext i
        exact (if_neg (by omega)).symm
      · rfl
      · rfl
  | succ n ih =>
      rw [clearSmap, ih (k + 1) _ (by omega), volume_write_smap zeroMap disk (by omega)]
      ext1
      · rfl
      · rfl
      · funext i
        dsimp only
        by_cases hi : i = k + 1
        · subst hi
          rw [Function.update_self, ite_self, if_pos (by omega)]
        · rw [Function.update_of_ne hi]
          exact if_congr (by omega) rfl rfl
      · rfl
      · rfl

/-- What a new file system looks like; inodes that are not live hold anything. -/
structure Formatted (v : Volume) : Prop where
  dataUsed : v.superBlock.dataUsed = 1
  inodeUsed : v.superBlock.inodeUsed = 1
  live : ∀ n, v.live n = decide (n = 0)
  used : ∀ d < dataItemNum, v.used d = decide (d = 0)
  rootDir : v.isDir 0
  rootSize : (v.inode 0).sizeAllocated = 512
  rootBlock : v.block 0 = darrayAddr
  empty : ∀ k, ((v.content 0).map k).valid = 0

theorem isBlock_darrayAddr : IsBlock darrayAddr := by decide

/-- The first half of `mkfs`: the superblock and the two maps. -/
theorem volume_maps (s : SuperBlock) (disk : Store) :
    volume (clearSmap 255 0 (sdwrite rootMap smapAddr (sdwrite rootMap imapAddr
        (sdwrite s fsBase disk)))) =
      { volume disk with
        superBlock := s
        imap := rootMap
        smap := fun i => if 0 < i ∧ i ≤ 255 then zeroMap
          else Function.update (volume disk).smap 0 rootMap i } := by
  rw [volume_clearSmap 255 0 _ (by decide), ← smapSector_zero,
    volume_write_smap rootMap _ (by decide), volume_write_imap, volume_write_superBlock]

theorem mkfsDisk_formatted (u : MkfsLocals) (disk : Store) :
    Formatted (volume (mkfsDisk u disk)) := by
  have hroot : (volume (mkfsDisk u disk)).inode 0 = rootInodes u.inode 0 := by
    have hdir : (volume (mkfsDisk u disk)).inode =
        (volume (sdwrite (rootInodes u.inode) iarrayAddr _)).inode :=
      volume_inode_frame _ _ (by decide)
    rw [hdir, ← readInodes_remain _ (by decide)]
    change (sdread (sdwrite (rootInodes u.inode) iarrayAddr _) iarrayAddr : Fin 8 → Inode) 0 = _
    rw [sdread_sdwrite_self]
  have hvol := volume_write_dir (emptyDir u.dirRoot darrayAddr [0x2f])
    (sdwrite (rootInodes u.inode) iarrayAddr (clearSmap 255 0 (sdwrite rootMap smapAddr
      (sdwrite rootMap imapAddr (sdwrite (rootSuperBlock u.s) fsBase disk))))) isBlock_darrayAddr
  change volume (mkfsDisk u disk) = _ at hvol
  have hsuper : (volume (mkfsDisk u disk)).superBlock = rootSuperBlock u.s := by
    rw [hvol]
    refine (volume_superBlock_frame _ _ (by decide)).trans ?_
    rw [volume_maps]
  have himap : (volume (mkfsDisk u disk)).imap = rootMap := by
    rw [hvol]
    refine (volume_imap_frame _ _ (by decide)).trans ?_
    rw [volume_maps]
  have hsmap : (volume (mkfsDisk u disk)).smap = fun i =>
      if 0 < i ∧ i ≤ 255 then zeroMap else Function.update (volume disk).smap 0 rootMap i := by
    rw [hvol]
    refine (volume_smap_frame _ _ (by decide)).trans ?_
    rw [volume_maps]
  have hblock : (volume (mkfsDisk u disk)).block 0 = darrayAddr := by
    rw [Volume.block, hroot]
    simp [rootInodes]
  refine ⟨by rw [hsuper]; rfl, by rw [hsuper]; rfl, fun n => ?_, fun d hd => ?_, ?_, ?_, hblock,
    fun k => ?_⟩
  · rw [Volume.live, himap, rootMap_mem]
  · have hd' : d < 1048576 := hd
    rw [Volume.used, hsmap]
    dsimp only
    by_cases hsector : d / 4096 = 0
    · rw [hsector, if_neg (by omega), Function.update_self, rootMap_mem]
      apply decide_eq_decide.mpr
      omega
    · rw [if_pos (by omega), zeroMap_mem]
      symm
      rw [decide_eq_false_iff_not]
      omega
  · rw [Volume.isDir, hroot]
    rfl
  · rw [hroot]
    rfl
  · rw [Volume.content, hblock, hvol]
    simp [emptyDir]

theorem Formatted.consistent {v : Volume} (h : Formatted v) : v.Consistent := by
  have hentry : ∀ k, v.entry 0 k = none := fun k => Volume.entry_of_invalid (h.empty k)
  have hreach : ∀ n, Reachable v.entry 0 n ↔ n = 0 := by
    intro n
    constructor
    · intro hn
      induction hn with
      | root => rfl
      | child hp hk ih =>
          subst ih
          exact nomatch (hentry _).symm.trans hk
    · rintro rfl
      exact .root
  have hlive : ∀ n, v.live n = true ↔ n = 0 := by
    intro n
    rw [h.live, decide_eq_true_eq]
  have howns : ∀ n k, v.Owns n k ↔ n = 0 ∧ k = 0 := by
    intro n k
    constructor
    · rintro ⟨hn, hk⟩
      obtain rfl := (hlive n).mp hn
      rw [h.rootSize] at hk
      exact ⟨rfl, Fin.ext (by simpa using hk)⟩
    · rintro ⟨rfl, rfl⟩
      refine ⟨(hlive 0).mpr rfl, ?_⟩
      rw [h.rootSize]
      exact (by decide : 0 < (512 : UInt32).toNat / 512)
  have hpointer : (v.inode 0).pointers 0 = dataBlock 0 := h.rootBlock
  refine ⟨⟨fun n => ?_, ⟨?_, ?_⟩, h.rootDir, h.rootBlock, ?_, ?_⟩, ⟨?_, ?_, ?_, ?_⟩, ⟨?_, ?_⟩⟩
  · rw [hlive, hreach]
  · intro p k hp hk
    rw [(hreach p).mp hp, hentry] at hk
    cases hk
  · intro p k p' k' c hp _ hk
    rw [(hreach p).mp hp, hentry] at hk
    cases hk
  · intro n k k' hn hk
    rw [(hlive n).mp hn.live] at hk
    exact absurd (h.empty k) hk
  · intro p k c hp hk
    rw [(hlive p).mp hp.live, hentry] at hk
    cases hk
  · intro n k hn
    obtain ⟨rfl, rfl⟩ := (howns n k).mp hn
    exact ⟨0, by decide, hpointer, by rw [h.used 0 (by decide)]; rfl⟩
  · intro n k n' k' hn hn' _
    obtain ⟨rfl, rfl⟩ := (howns n k).mp hn
    obtain ⟨rfl, rfl⟩ := (howns n' k').mp hn'
    exact ⟨rfl, rfl⟩
  · intro d hd hused
    rw [h.used d hd, decide_eq_true_eq] at hused
    subst hused
    exact ⟨0, 0, (howns 0 0).mpr ⟨rfl, rfl⟩, hpointer⟩
  · intro n hn
    rw [(hlive n).mp hn.live, h.rootSize]
  · rw [h.inodeUsed, countBits_one (by decide) (fun n _ => h.live n)]
    rfl
  · rw [h.dataUsed, countBits_one (by decide) h.used]
    rfl

theorem mount_mounted {σ : FsState} (h : (volume σ.disk).Consistent) : Mounted (mount σ) := by
  have hroot := h.tree.root
  have hblock := h.blocks.isBlock hroot
  rw [h.tree.rootBlock] at hblock
  refine ⟨⟨rfl, rfl, Nat.zero_le _, fun _ => ?_⟩, ?_, ⟨0, hroot, h.tree.rootBlock⟩, h⟩
  · change (volume σ.disk).smap 0 = sdread σ.disk smapAddr
    rw [volume_smap σ.disk (by decide), smapSector_zero]
  · exact volume_dir σ.disk hblock

/-! ## Calls -/

/-- The calls on names; `mkdir` carries its uninitialised local. -/
inductive NameCall where
  | mkdir (d : Dir) (s : CString)
  | rmdir (s : CString)
  | touch (s : CString)
  | cd (s : CString)

def NameCall.run : NameCall → FsState → FsState × Option Message
  | mkdir d s => UcasOs.Fs.mkdir d s
  | rmdir s => UcasOs.Fs.rmdir s
  | touch s => UcasOs.Fs.touch s
  | cd s => UcasOs.Fs.cd s

/-- Calls in which `iarray_alloc` and `darray_alloc` do not return -1. -/
def nameSystem : Lts FsState NameCall where
  step σ call σ' := ∃ answer, call.run σ = (σ', answer) ∧
    answer ≠ some .insufficientInode ∧ answer ≠ some .insufficientDataBlock

theorem nameSystem_run (call : NameCall) (σ : FsState)
    (hinode : (call.run σ).2 ≠ some .insufficientInode)
    (hblock : (call.run σ).2 ≠ some .insufficientDataBlock) :
    nameSystem.step σ call (call.run σ).1 :=
  ⟨_, rfl, hinode, hblock⟩

/-- What a call on names does to the inodes, when it does not run out of anything. -/
structure NameStep (σ σ' : FsState) : Prop where
  mounted : Mounted σ'
  fdArray : σ'.fdArray = σ.fdArray
  fdArraySlist : σ'.fdArraySlist = σ.fdArraySlist
  inode : ∀ m, (volume σ'.disk).live m = true →
    ((volume σ.disk).live m = true ∧ (volume σ'.disk).inode m = (volume σ.disk).inode m) ∨
    (¬ (volume σ'.disk).isDir m → ((volume σ'.disk).inode m).sizeAllocated = 0)
  file : ∀ m, (volume σ.disk).live m = true → ¬ (volume σ.disk).isDir m →
    (volume σ'.disk).live m = true ∧ (volume σ'.disk).inode m = (volume σ.disk).inode m

theorem NameStep.refl {σ : FsState} (h : Mounted σ) : NameStep σ σ :=
  ⟨h, rfl, rfl, fun _ hm => .inl ⟨hm, rfl⟩, fun _ hm _ => ⟨hm, rfl⟩⟩

theorem NameStep.adds {σ σ' : FsState} {p n : Nat} {k : Fin maxDirItemNum} {s : List UInt8}
    (h : (volume σ.disk).Adds (volume σ'.disk) p k n s) (hmounted : Mounted σ')
    (hfds : σ'.fdArray = σ.fdArray) (hslist : σ'.fdArraySlist = σ.fdArraySlist)
    (hnew : ¬ (volume σ'.disk).isDir n → ((volume σ'.disk).inode n).sizeAllocated = 0) :
    NameStep σ σ' := by
  refine ⟨hmounted, hfds, hslist, fun m hm => ?_, fun m hm _ => ?_⟩
  · rcases (h.live_iff m).mp hm with hlive | rfl
    · exact .inl ⟨hlive, h.inode m (h.ne_of_live hlive)⟩
    · exact .inr hnew
  · exact ⟨(h.live_iff m).mpr (.inl hm), h.inode m (h.ne_of_live hm)⟩

theorem mkdir_step {junk : Dir} {s : CString} {σ σ' : FsState} {answer : Option Message}
    (h : Mounted σ) (hrun : mkdir junk s σ = (σ', answer))
    (hinode : answer ≠ some .insufficientInode)
    (hblock : answer ≠ some .insufficientDataBlock) : NameStep σ σ' := by
  cases answer with
  | some m =>
      have herror := (mkdir_error hrun).resolve_right (fun hm => hblock (by rw [hm]))
      obtain rfl := newEntry_error herror (fun hm => hinode (by rw [hm]))
      exact .refl h
  | none =>
      obtain ⟨p, k, n, d, hmade⟩ := mkdir_spec h hrun
      exact .adds hmade.adds hmade.mounted hmade.fdArray hmade.fdArraySlist
        fun hfile => absurd hmade.isDir hfile

theorem touch_step {s : CString} {σ σ' : FsState} {answer : Option Message}
    (h : Mounted σ) (hrun : touch s σ = (σ', answer))
    (hinode : answer ≠ some .insufficientInode) : NameStep σ σ' := by
  cases answer with
  | some m =>
      obtain rfl := newEntry_error (touch_error hrun) (fun hm => hinode (by rw [hm]))
      exact .refl h
  | none =>
      obtain ⟨p, k, n, htouched⟩ := touch_spec h hrun
      refine .adds htouched.adds htouched.mounted htouched.fdArray htouched.fdArraySlist fun _ => ?_
      rw [htouched.inode]
      rfl

theorem rmdir_step {s : CString} {σ σ' : FsState} {answer : Option Message}
    (h : Mounted σ) (hrun : rmdir s σ = (σ', answer)) : NameStep σ σ' := by
  cases answer with
  | some m =>
      obtain rfl := rmdir_error hrun
      exact .refl h
  | none =>
      obtain ⟨p, k, c, d, hremoved⟩ := rmdir_spec h hrun
      have hinode : ∀ m, (volume σ'.disk).inode m = (volume σ.disk).inode m :=
        fun m => congrFun hremoved.removes.inode m
      refine ⟨hremoved.mounted, hremoved.fdArray, hremoved.fdArraySlist, fun m hm => ?_,
        fun m hm hfile => ⟨?_, hinode m⟩⟩
      · exact .inl ⟨((hremoved.removes.live_iff m).mp hm).1, hinode m⟩
      · refine (hremoved.removes.live_iff m).mpr ⟨hm, ?_⟩
        rintro rfl
        exact hfile hremoved.child.dir

theorem cd_step {s : CString} {σ : FsState} (h : Mounted σ) : NameStep σ (cd s σ).1 := by
  have hmounted := cd_mounted (s := s) h
  rcases cd_cases (s := s) h with heq | ⟨n, -, heq⟩
  · rw [heq]
    exact .refl h
  · rw [heq] at hmounted ⊢
    exact ⟨hmounted, rfl, rfl, fun _ hm => .inl ⟨hm, rfl⟩, fun _ hm _ => ⟨hm, rfl⟩⟩

theorem nameSystem_step {σ σ' : FsState} {call : NameCall} (h : Mounted σ)
    (hstep : nameSystem.step σ call σ') : NameStep σ σ' := by
  obtain ⟨answer, hrun, hinode, hblock⟩ := hstep
  cases call with
  | mkdir d s => exact mkdir_step h hrun hinode hblock
  | rmdir s => exact rmdir_step h hrun
  | touch s => exact touch_step h hrun hinode
  | cd s =>
      have hcd := cd_step (s := s) h
      change cd s σ = _ at hrun
      rwa [hrun] at hcd

/-- No file has data. -/
def FilesEmpty (v : Volume) : Prop :=
  ∀ n, v.live n = true → ¬ v.isDir n → (v.inode n).sizeAllocated = 0

theorem NameStep.filesEmpty {σ σ' : FsState} (h : NameStep σ σ')
    (hempty : FilesEmpty (volume σ.disk)) : FilesEmpty (volume σ'.disk) := by
  intro m hm hfile
  rcases h.inode m hm with ⟨hlive, heq⟩ | hnew
  · rw [heq]
    refine hempty m hlive ?_
    rwa [Volume.isDir, ← heq]
  · exact hnew hfile

/-! ## Consistency of the name space -/

/-- The maps, the names and the copies in memory agree. -/
structure NamesConsistent (σ : FsState) : Prop where
  inodes : ∀ i < inodeItemNum, (volume σ.disk).live i = true ↔
    i = 0 ∨ ∃! e : Nat × Fin maxDirItemNum,
      Reachable (volume σ.disk).entry 0 e.1 ∧ (volume σ.disk).entry e.1 e.2 = some i
  blocks : ∀ d < dataItemNum, (volume σ.disk).used d = true ↔
    ∃! n, (volume σ.disk).LiveDir n ∧ (volume σ.disk).block n = dataBlock d
  /-- directories are in blocks that exist -/
  places : ∀ n, (volume σ.disk).LiveDir n → IsBlock ((volume σ.disk).block n)
  inodeUsed : σ.superBlock.inodeUsed.toNat = countBits (volume σ.disk).live inodeItemNum
  dataUsed : σ.superBlock.dataUsed.toNat = countBits (volume σ.disk).used dataItemNum
  names : ∀ n k k', (volume σ.disk).LiveDir n →
    (((volume σ.disk).content n).map k).valid ≠ 0 →
    (((volume σ.disk).content n).map k').valid ≠ 0 →
    (((volume σ.disk).content n).map k).nameOf = (((volume σ.disk).content n).map k').nameOf →
    k = k'
  parents : ∀ c, (volume σ.disk).LiveDir c → c ≠ 0 → ∃ p k, (volume σ.disk).LiveDir p ∧
    (volume σ.disk).entry p k = some c ∧
    ((volume σ.disk).content c).fpointer = (volume σ.disk).block p
  imap : sdread σ.disk imapAddr = σ.imap
  superBlock : sdread σ.disk fsBase = σ.superBlock
  smap : σ.smapIndex < 256 → sdread σ.disk (smapSector σ.smapIndex) = σ.smap
  currentDir : sdread σ.disk σ.currentDirPointer = σ.currentDir
  currentDirPointer : ∃ n, (volume σ.disk).LiveDir n ∧
    (volume σ.disk).block n = σ.currentDirPointer

theorem Volume.Tree.live_iff_named {v : Volume} (h : v.Tree) (i : Nat) :
    v.live i = true ↔ i = 0 ∨ ∃! e : Nat × Fin maxDirItemNum,
      Reachable v.entry 0 e.1 ∧ v.entry e.1 e.2 = some i := by
  rw [h.reach]
  constructor
  · intro hi
    rcases hi.named with rfl | ⟨p, k, hp, hk⟩
    · exact .inl rfl
    · refine .inr ⟨(p, k), ⟨hp, hk⟩, ?_⟩
      rintro ⟨p', k'⟩ ⟨hp', hk'⟩
      obtain ⟨rfl, rfl⟩ := h.unambiguous.unique p' k' p k i hp' hp hk' hk
      rfl
  · rintro (rfl | ⟨⟨p, k⟩, ⟨hp, hk⟩, -⟩)
    · exact .root
    · exact .child hp hk

theorem Volume.Blocks.used_iff_dir {v : Volume} (h : v.Blocks) (hempty : FilesEmpty v) {d : Nat}
    (hd : d < dataItemNum) :
    v.used d = true ↔ ∃! n, v.LiveDir n ∧ v.block n = dataBlock d := by
  constructor
  · intro hused
    obtain ⟨n, k, hn, hp⟩ := h.used d hd hused
    have hdir : v.LiveDir n := by
      refine ⟨hn.live, ?_⟩
      by_contra hfile
      have hlt := hn.allocated
      rw [hempty n hn.live hfile] at hlt
      exact absurd hlt (by simp)
    have hk : k = 0 := by
      have hlt := hn.allocated
      rw [h.dirs n hdir] at hlt
      exact Fin.ext (by simpa using hlt)
    subst hk
    refine ⟨n, ⟨hdir, hp⟩, ?_⟩
    rintro m ⟨hm, hmp⟩
    exact h.block_inj hm hdir (hmp.trans hp.symm)
  · rintro ⟨n, ⟨hn, hp⟩, -⟩
    obtain ⟨e, he, hpe, hused⟩ := h.owned n 0 (h.dirBlock hn)
    obtain rfl := dataBlock_inj he hd (hpe.symm.trans hp)
    exact hused

theorem Mounted.namesConsistent {σ : FsState} (h : Mounted σ)
    (hempty : FilesEmpty (volume σ.disk)) : NamesConsistent σ where
  inodes i _ := h.consistent.tree.live_iff_named i
  blocks d hd := h.consistent.blocks.used_iff_dir hempty hd
  places n hn := h.consistent.blocks.isBlock hn
  inodeUsed := by rw [← h.cached.superBlock, h.consistent.counts.inodeUsed]
  dataUsed := by rw [← h.cached.superBlock, h.consistent.counts.dataUsed]
  names := h.consistent.tree.names
  parents c hc hroot := by
    obtain ⟨p, k, hp, hk⟩ := h.consistent.tree.named hc.live hroot
    exact ⟨p, k, hp, hk, h.consistent.tree.parents p k c hp hk hc.dir⟩
  imap := h.cached.imap
  superBlock := h.cached.superBlock
  smap hk := by
    rw [← volume_smap σ.disk hk]
    exact h.cached.smap hk
  currentDir := by
    obtain ⟨n, hn, hp⟩ := h.cwd
    have hblock := h.consistent.blocks.isBlock hn
    rw [hp] at hblock
    rw [← volume_dir σ.disk hblock]
    exact h.currentDir
  currentDirPointer := h.cwd

theorem mkfs_mount_mounted (u : MkfsLocals) (σ₀ : FsState) :
    Mounted (mount (mkfs u σ₀)) ∧ FilesEmpty (volume (mount (mkfs u σ₀)).disk) := by
  have hformatted := mkfsDisk_formatted u σ₀.disk
  refine ⟨mount_mounted hformatted.consistent, fun n hn hfile => ?_⟩
  rw [show n = 0 by simpa using (hformatted.live n).symm.trans hn] at hfile
  exact absurd hformatted.rootDir hfile

/-- The name space is consistent after every call. -/
theorem namesConsistent_of_run (u : MkfsLocals) (σ₀ : FsState) {σ : FsState}
    {calls : List NameCall} (run : nameSystem.Run (mount (mkfs u σ₀)) calls σ) :
    NamesConsistent σ := by
  have h := run.invariant (I := fun σ => Mounted σ ∧ FilesEmpty (volume σ.disk))
    (fun _ _ _ hi hstep =>
      have hnext := nameSystem_step hi.1 hstep
      ⟨hnext.mounted, hnext.filesEmpty hi.2⟩) (mkfs_mount_mounted u σ₀)
  exact h.1.namesConsistent h.2

/-- A blank disk and a kernel whose globals are zero. -/
def blankFs : FsState where
  disk := fun _ => 0
  superBlock := default
  currentDir := default
  currentDirPointer := 0
  imap := zeroMap
  smap := zeroMap
  smapIndex := 0
  fdArray := fun _ => ⟨0, 0, 0, 0⟩
  fdArraySlist := fun _ => ⟨false, 0⟩

def blankLocals : MkfsLocals := ⟨default, fun _ => default, default⟩

def firstMkdir : NameCall := .mkdir default ⟨[0x61], noZero_a⟩

theorem namesConsistent_mkdir :
    NamesConsistent (firstMkdir.run (mount (mkfs blankLocals blankFs))).1 :=
  namesConsistent_of_run blankLocals blankFs
    (.single (nameSystem_run firstMkdir _ (by decide +kernel) (by decide +kernel)))

end UcasOs.Fs
