import UcasOs.Fs.PathRefinement

/-!
# Restarts

At a restart the kernel loses its memory and keeps the disk.  What was mounted
is found again by `init_file_system`: the superblock keeps its magic number and
the disk keeps the tree of paths.
-/

namespace UcasOs.Fs

open UcasOs.Foundation UcasOs.Foundation.Naming UcasOs.Libs

/-! ## The constants of the superblock -/

/-- The superblocks differ in their counters only. -/
def SameGeometry (s s' : SuperBlock) : Prop :=
  { s' with dataUsed := s.dataUsed, inodeUsed := s.inodeUsed } = s

theorem SameGeometry.refl (s : SuperBlock) : SameGeometry s s := rfl

theorem SameGeometry.trans {s s' s'' : SuperBlock} (h : SameGeometry s s')
    (h' : SameGeometry s' s'') : SameGeometry s s'' := by
  unfold SameGeometry at h h' ⊢
  rw [← h, ← h']

theorem SameGeometry.eq {s s' : SuperBlock} (h : SameGeometry s s') :
    s' = { s with dataUsed := s'.dataUsed, inodeUsed := s'.inodeUsed } := by
  unfold SameGeometry at h
  conv_rhs => rw [← h]

variable {σ σ' : FsState}

theorem iarrayAlloc_geometry (σ : FsState) :
    SameGeometry σ.superBlock (iarrayAlloc σ).1.superBlock := by
  unfold iarrayAlloc
  split <;> rfl

theorem darrayAllocLoop_geometry (n : Nat) (σ : FsState) :
    SameGeometry σ.superBlock (darrayAllocLoop n σ).1.superBlock := by
  induction n generalizing σ with
  | zero => rfl
  | succ n ih =>
      rw [darrayAllocLoop]
      split
      case h_1 => exact ih (readSmap (σ.smapIndex + 1) σ)
      case h_2 => rfl

theorem newEntry_geometry (s : CString) (σ : FsState) :
    SameGeometry σ.superBlock (newEntry s σ).1.superBlock := by
  rcases newEntry_cases s σ with ⟨-, m, hnew⟩ | ⟨-, -, i, -, hnew⟩ |
    ⟨-, i, σ₁, n, -, -, halloc, hnew⟩
  · rw [hnew]
    rfl
  · rw [hnew]
    rfl
  · have h := iarrayAlloc_geometry (setEntry i { σ.currentDir.map i with valid := 1 } σ)
    rw [halloc] at h
    rw [hnew]
    exact h

theorem mkdir_geometry (junk : Dir) (s : CString) (σ : FsState) :
    SameGeometry σ.superBlock (mkdir junk s σ).1.superBlock := by
  have hnew := newEntry_geometry s σ
  unfold mkdir
  split
  case h_1 σ₁ m hentry =>
      rw [hentry] at hnew
      exact hnew
  case h_2 σ₁ n hentry =>
      rw [hentry] at hnew
      have halloc := darrayAllocLoop_geometry (256 - σ₁.smapIndex) σ₁
      dsimp only
      split
      case h_1 σ₂ hrun =>
          rw [darrayAlloc] at hrun
          rw [hrun] at halloc
          exact hnew.trans halloc
      case h_2 σ₂ dno hrun =>
          rw [darrayAlloc] at hrun
          rw [hrun] at halloc
          exact hnew.trans halloc

theorem touch_geometry (s : CString) (σ : FsState) :
    SameGeometry σ.superBlock (touch s σ).1.superBlock := by
  have hnew := newEntry_geometry s σ
  unfold touch
  split
  case h_1 σ₁ m hentry =>
      rw [hentry] at hnew
      exact hnew
  case h_2 σ₁ n hentry =>
      rw [hentry] at hnew
      exact hnew

theorem rmdir_geometry (s : CString) (σ : FsState) :
    SameGeometry σ.superBlock (rmdir s σ).1.superBlock := by
  cases hrun : rmdir s σ with
  | mk σ' answer =>
      cases answer with
      | some m =>
          rw [rmdir_error hrun]
          exact .refl _
      | none =>
          obtain ⟨i, ino, inode, -, -, -, -, -, rfl⟩ := rmdir_ok hrun
          rfl

theorem cd_geometry (s : CString) (σ : FsState) : (cd s σ).1.superBlock = σ.superBlock := by
  unfold cd
  split
  · split <;> rfl
  · split
    · rfl
    · split
      · rfl
      · dsimp only
        split <;> rfl

theorem NameCall.geometry (call : NameCall) (σ : FsState) :
    SameGeometry σ.superBlock (call.run σ).1.superBlock := by
  cases call with
  | mkdir d s => exact mkdir_geometry d s σ
  | rmdir s => exact rmdir_geometry s σ
  | touch s => exact touch_geometry s σ
  | cd s =>
      change SameGeometry σ.superBlock (Fs.cd s σ).1.superBlock
      rw [cd_geometry]
      exact .refl _

/-! ## Restarting -/

/-- A call on names, or a restart with anything in memory. -/
inductive Happening where
  | call (call : NameCall)
  | restart (u : MkfsLocals) (memory : FsState)

def restartSystem : Lts FsState Happening where
  step σ happening σ' :=
    match happening with
    | .call call => nameSystem.step σ call σ'
    | .restart u memory => σ' = initFileSystem u { memory with disk := σ.disk }

noncomputable def Happening.act : Happening → PathTree → PathTree
  | call c, a => (c.act a).1
  | restart _ _, a => { a with here := [] }

noncomputable def PathTree.since (happenings : List Happening) : PathTree :=
  happenings.foldl (fun a happening => happening.act a) .root

theorem PathTree.since_concat (happenings : List Happening) (happening : Happening) :
    since (happenings ++ [happening]) = happening.act (since happenings) := by
  simp [since]

/-- What a restart needs to find the tree again. -/
structure Restartable (σ : FsState) (a : PathTree) : Prop where
  mounted : Mounted σ
  represents : Represents σ a
  magic : σ.superBlock.reserved 78 = magicNumber

theorem Restartable.call {a : PathTree} (h : Restartable σ a) {call : NameCall}
    (hstep : nameSystem.step σ call σ') : Restartable σ' (call.act a).1 := by
  have hmounted := (nameSystem_step h.mounted hstep).mounted
  obtain ⟨answer, hrun, hinode, hblock⟩ := hstep
  obtain ⟨a', hact, hnext⟩ := h.represents.step h.mounted hrun hinode hblock
  have hgeometry := call.geometry σ
  rw [hrun] at hgeometry
  refine ⟨hmounted, by rw [hact]; exact hnext, ?_⟩
  rw [← h.magic, ← hgeometry]

/-- The magic number leads to `mount`. -/
theorem initFileSystem_mounts (u : MkfsLocals) (memory : FsState) (hcached : Cached σ)
    (hmagic : σ.superBlock.reserved 78 = magicNumber) :
    initFileSystem u { memory with disk := σ.disk } =
      mount { memory with
        disk := σ.disk
        fdArraySlist := slistInit memory.fdArraySlist fdArraySlistSize } := by
  have hread : (sdread σ.disk fsBase : SuperBlock).reserved 78 = magicNumber := by
    rw [← hmagic, ← hcached.superBlock]
    rfl
  unfold initFileSystem
  exact if_neg (not_not.mpr hread)

theorem Restartable.restart {a : PathTree} (h : Restartable σ a) (u : MkfsLocals)
    (memory : FsState) :
    Restartable (initFileSystem u { memory with disk := σ.disk }) { a with here := [] } := by
  rw [initFileSystem_mounts u memory h.mounted.cached h.magic]
  have htree := h.mounted.consistent.tree
  refine ⟨mount_mounted h.mounted.consistent, ⟨h.represents.kind, 0, rfl, htree.rootDir,
    htree.rootBlock⟩, ?_⟩
  rw [← h.magic, ← h.mounted.cached.superBlock]
  rfl

theorem mkfsDisk_superBlock (u : MkfsLocals) (disk : Store) :
    (volume (mkfsDisk u disk)).superBlock = rootSuperBlock u.s := by
  refine (volume_superBlock_frame _ _ (by decide)).trans ?_
  refine (volume_superBlock_frame _ _ (by decide)).trans ?_
  rw [volume_maps]

theorem mkfs_mount_superBlock (u : MkfsLocals) (σ₀ : FsState) :
    (mount (mkfs u σ₀)).superBlock = rootSuperBlock u.s :=
  mkfsDisk_superBlock u σ₀.disk

theorem mkfs_mount_restartable (u : MkfsLocals) (σ₀ : FsState) :
    Restartable (mount (mkfs u σ₀)) .root := by
  refine ⟨(mkfs_mount_mounted u σ₀).1, mkfs_mount_represents u σ₀, ?_⟩
  rw [mkfs_mount_superBlock]
  simp [rootSuperBlock]

theorem restartable_of_run (u : MkfsLocals) (σ₀ : FsState) {happenings : List Happening}
    (run : restartSystem.Run (mount (mkfs u σ₀)) happenings σ) :
    Restartable σ (.since happenings) := by
  induction run with
  | nil => exact mkfs_mount_restartable u σ₀
  | @snoc t σ' _ happening _ hstep ih =>
      rw [PathTree.since_concat]
      cases happening with
      | call call => exact ih.call hstep
      | restart v memory =>
          obtain rfl : σ' = initFileSystem v { memory with disk := t.disk } := hstep
          exact ih.restart v memory

/-- Whatever was called before and however often the kernel was restarted, a restart writes
nothing to the disk and finds the tree of paths that the calls made, with the root as the current
directory. -/
theorem survives_restarts (u : MkfsLocals) (σ₀ : FsState) {happenings : List Happening}
    (run : restartSystem.Run (mount (mkfs u σ₀)) happenings σ) :
    Represents σ (.since happenings) ∧
      ∀ (v : MkfsLocals) (memory : FsState),
        (initFileSystem v { memory with disk := σ.disk }).disk = σ.disk ∧
        Represents (initFileSystem v { memory with disk := σ.disk })
          { PathTree.since happenings with here := [] } := by
  have h := restartable_of_run u σ₀ run
  refine ⟨h.represents, fun v memory => ⟨?_, (h.restart v memory).represents⟩⟩
  rw [initFileSystem_mounts v memory h.mounted.cached h.magic]
  rfl

theorem survives_restarts_mkdir :
    Represents (firstMkdir.run (mount (mkfs blankLocals blankFs))).1
        (.since [.call firstMkdir]) ∧
      ∀ (v : MkfsLocals) (memory : FsState),
        (initFileSystem v { memory with
          disk := (firstMkdir.run (mount (mkfs blankLocals blankFs))).1.disk }).disk =
            (firstMkdir.run (mount (mkfs blankLocals blankFs))).1.disk ∧
        Represents (initFileSystem v { memory with
          disk := (firstMkdir.run (mount (mkfs blankLocals blankFs))).1.disk })
          { PathTree.since [.call firstMkdir] with here := [] } :=
  survives_restarts blankLocals blankFs
    (.single (nameSystem_run firstMkdir _ (by decide +kernel) (by decide +kernel)))

end UcasOs.Fs
