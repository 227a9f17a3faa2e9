import UcasOs.Fs.FileData

/-!
# Calls on names that fail

`mkdir` and `touch` mark an entry of the current directory before they know
that there is an inode, and `mkdir` takes the inode before it knows that there
is a block.  All other errors are found before anything is changed.
-/

namespace UcasOs.Fs

open UcasOs.Foundation UcasOs.Libs

/-- The copies in memory are those of the disk. -/
structure Agrees (σ : FsState) : Prop where
  cached : Cached σ
  pointer : IsBlock σ.currentDirPointer
  currentDir : (volume σ.disk).dir σ.currentDirPointer = σ.currentDir

/-- Only the cached sector of the block map may differ. -/
structure Unchanged (σ σ' : FsState) : Prop where
  disk : σ'.disk = σ.disk
  imap : σ'.imap = σ.imap
  used : ∀ d, (volume σ'.disk).used d = (volume σ.disk).used d
  superBlock : σ'.superBlock = σ.superBlock
  currentDir : σ'.currentDir = σ.currentDir
  currentDirPointer : σ'.currentDirPointer = σ.currentDirPointer

theorem Unchanged.refl (σ : FsState) : Unchanged σ σ := ⟨rfl, rfl, fun _ => rfl, rfl, rfl, rfl⟩

/-- The call reports no error, or changes nothing. -/
def FailsCleanly (call : NameCall) (σ : FsState) : Prop :=
  ∀ m, (call.run σ).2 = some m → Unchanged σ (call.run σ).1

/-- The call gets as far as a map that has nothing free. -/
def RunsOut (σ : FsState) : NameCall → Prop
  | .mkdir _ s => Admits s σ ∧ (scanMap σ.imap = none ∨ (darrayAlloc σ).2 = none)
  | .touch s => Admits s σ ∧ scanMap σ.imap = none
  | _ => False

variable {σ σ' : FsState} {s : CString} {n : Nat} {m : Message}

/-! ## Clean and unclean failures -/

/-- A new entry leaves the block map alone. -/
theorem newEntry_sameMap (h : Agrees σ) {i : Fin maxDirItemNum} {e : DMap} {σ₁ : FsState}
    (hrun : iarrayAlloc (setEntry i { σ.currentDir.map i with valid := 1 } σ) = (σ₁, some n)) :
    Cached (writeCurrentDir (setEntry i e σ₁)) ∧
      SameMap σ (writeCurrentDir (setEntry i e σ₁)) := by
  have hcached := h.cached.setEntry i { σ.currentDir.map i with valid := 1 }
  obtain ⟨-, -, hcached₁, hsame, hvol⟩ := iarrayAlloc_spec hcached hrun
  have hpointer : IsBlock (setEntry i e σ₁).currentDirPointer := by
    show IsBlock σ₁.currentDirPointer
    rw [hsame.currentDirPointer]
    exact h.pointer
  obtain ⟨hcached', hvol'⟩ := (hcached₁.setEntry i e).writeCurrentDir hpointer
  have hindex : σ₁.smapIndex = σ.smapIndex ∧ σ₁.smap = σ.smap := by
    unfold iarrayAlloc at hrun
    split at hrun
    case h_1 => cases hrun
    case h_2 =>
        obtain ⟨rfl, -⟩ := Prod.mk.inj hrun
        exact ⟨rfl, rfl⟩
  refine ⟨hcached', hindex.1, fun _ => hindex.2, ?_⟩
  rw [hvol']
  show (volume σ₁.disk).smap = _
  rw [hvol]
  rfl

theorem SameMap.symm (h : SameMap σ σ') : SameMap σ' σ :=
  ⟨h.index.symm, fun hk => (h.smap (h.index ▸ hk)).symm, h.disk.symm⟩

/-- Whether there is a block depends on the block map only. -/
theorem SameMap.darrayAlloc_none (h : SameMap σ σ') (hnone : (darrayAlloc σ).2 = none) :
    (darrayAlloc σ').2 = none := by
  by_contra hsome
  obtain ⟨d, hd⟩ := Option.ne_none_iff_exists'.mp hsome
  obtain ⟨τ, hrun, -⟩ := darrayAlloc_sameMap h.symm (Prod.ext rfl hd)
  rw [hrun] at hnone
  cases hnone

theorem setEntry_changed {i : Fin maxDirItemNum} (hvalid : (σ.currentDir.map i).valid = 0) :
    (setEntry i { σ.currentDir.map i with valid := 1 } σ).currentDir ≠ σ.currentDir := by
  intro heq
  have hone := congrArg (fun d : Dir => (d.map i).valid) heq
  simp only [setEntry, Function.update_self, hvalid] at hone
  exact absurd hone (by decide)

theorem touch_failsCleanly_iff : FailsCleanly (.touch s) σ ↔ ¬ RunsOut σ (.touch s) := by
  rw [FailsCleanly, NameCall.run, touch, RunsOut]
  rcases newEntry_cases s σ with ⟨hnot, m, hrun⟩ | ⟨hadmits, hnone, i, hvalid, hrun⟩ |
    ⟨hadmits, i, σ₁, n, -, hsome, -, hrun⟩
  · rw [hrun]
    exact ⟨fun _ hruns => hnot hruns.1, fun _ _ _ => .refl σ⟩
  · rw [hrun]
    refine ⟨fun hclean => ?_, fun hruns => absurd ⟨hadmits, hnone⟩ hruns⟩
    exact absurd (hclean _ rfl).currentDir (setEntry_changed hvalid)
  · rw [hrun]
    exact ⟨fun _ hruns => hsome hruns.2, fun _ m hm => nomatch hm⟩

/-- The inode map has changed. -/
theorem iarrayAlloc_changed (h : Cached σ) {σ₁ : FsState} (hrun : iarrayAlloc σ = (σ₁, some n)) :
    σ₁.imap ≠ σ.imap := by
  obtain ⟨hn, hdead, hcached, -, hvol⟩ := iarrayAlloc_spec h hrun
  intro heq
  have hlive : (volume σ₁.disk).live n = true := by
    rw [hvol, Volume.live_allocInode _ hn]
    simp
  rw [Volume.live, hcached.imap, heq, ← h.imap] at hlive
  cases hlive.symm.trans hdead

theorem mkdir_failsCleanly_iff (h : Agrees σ) (junk : Dir) :
    FailsCleanly (.mkdir junk s) σ ↔ ¬ RunsOut σ (.mkdir junk s) := by
  rw [FailsCleanly, NameCall.run, mkdir, RunsOut]
  rcases newEntry_cases s σ with ⟨hnot, m, hrun⟩ | ⟨hadmits, hnone, i, hvalid, hrun⟩ |
    ⟨hadmits, i, σ₁, n, -, hsome, halloc, hrun⟩
  · rw [hrun]
    exact ⟨fun _ hruns => hnot hruns.1, fun _ _ _ => .refl σ⟩
  · rw [hrun]
    refine ⟨fun hclean => ?_, fun hruns => absurd ⟨hadmits, .inl hnone⟩ hruns⟩
    exact absurd (hclean _ rfl).currentDir (setEntry_changed hvalid)
  · rw [hrun]
    generalize { σ₁.currentDir.map i with
        ino := UInt32.ofNat n, name := strcpy (σ₁.currentDir.map i).name s.bytes } = e
    obtain ⟨hcached, hmap⟩ := newEntry_sameMap (e := e) h halloc
    dsimp only
    cases hblock : darrayAlloc (writeCurrentDir (setEntry i e σ₁)) with
    | mk σ₂ answer =>
        cases answer with
        | none =>
            refine ⟨fun hclean => ?_, fun hruns => absurd ⟨hadmits, .inr ?_⟩ hruns⟩
            · obtain ⟨hcached₂, -, hdisk⟩ := darrayAlloc_none hcached hblock
              have himap : σ₂.imap = σ₁.imap := by
                rw [← hcached₂.imap, hdisk, hcached.imap]
                rfl
              have hchanged := iarrayAlloc_changed (h.cached.setEntry i _) halloc
              exact absurd ((hclean _ rfl).imap.symm.trans himap).symm hchanged
            · exact hmap.symm.darrayAlloc_none (by rw [hblock])
        | some d =>
            refine ⟨fun _ hruns => ?_, fun _ m hm => nomatch hm⟩
            rcases hruns.2 with hfull | hnone
            · exact hsome hfull
            · have := hmap.darrayAlloc_none hnone
              rw [hblock] at this
              cases this

theorem cd_error (hrun : cd s σ = (σ', some m)) : σ' = σ := by
  unfold cd at hrun
  split at hrun
  case isTrue =>
      split at hrun
      case isTrue => exact nomatch (Prod.mk.inj hrun).2
      case isFalse => exact nomatch (Prod.mk.inj hrun).2
  case isFalse =>
      split at hrun
      case isTrue => exact nomatch (Prod.mk.inj hrun).2
      case isFalse =>
          split at hrun
          case h_1 => exact (Prod.mk.inj hrun).1.symm
          case h_2 =>
              dsimp only at hrun
              split at hrun
              case isTrue => exact (Prod.mk.inj hrun).1.symm
              case isFalse => exact nomatch (Prod.mk.inj hrun).2

/-- A call that fails changes nothing, except where a map has nothing free. -/
theorem failsCleanly_iff {σ : FsState} (h : Agrees σ) (call : NameCall) :
    FailsCleanly call σ ↔ ¬ RunsOut σ call := by
  cases call with
  | mkdir junk s => exact mkdir_failsCleanly_iff h junk
  | touch s => exact touch_failsCleanly_iff
  | rmdir s =>
      refine ⟨fun _ => id, fun _ m hm => ?_⟩
      have hsame : (NameCall.run (.rmdir s) σ).1 = σ := rmdir_error (Prod.ext rfl hm)
      rw [hsame]
      exact .refl σ
  | cd s =>
      refine ⟨fun _ => id, fun _ m hm => ?_⟩
      have hsame : (NameCall.run (.cd s) σ).1 = σ := cd_error (Prod.ext rfl hm)
      rw [hsame]
      exact .refl σ

theorem mount_agrees (σ : FsState) : Agrees (mount σ) := by
  refine ⟨⟨rfl, rfl, Nat.zero_le _, fun _ => ?_⟩, isBlock_darrayAddr, ?_⟩
  · change (volume σ.disk).smap 0 = sdread σ.disk smapAddr
    rw [volume_smap σ.disk (by decide), smapSector_zero]
  · exact volume_dir σ.disk isBlock_darrayAddr

/-- A directory that does not exist is removed. -/
theorem failsCleanly_rmdir :
    FailsCleanly (.rmdir fileName) newFs ∧ (rmdir fileName newFs).2 = some .noSuchDirectory := by
  refine ⟨(failsCleanly_iff ?_ (.rmdir fileName)).mpr id, by decide +kernel⟩
  rw [newFs]
  exact mount_agrees _

/-- A new file system on a disk whose inode map is full. -/
def fullFs : FsState :=
  mount { blankFs with
    disk := sdwrite (fun _ => 0xffffffff : Bitmap 128) imapAddr (mkfsDisk blankLocals blankFs.disk) }

/-- The entry is marked although there is no inode for it. -/
theorem failsCleanly_not_touch :
    ¬ ∀ (call : NameCall) (σ : FsState), Agrees σ → FailsCleanly call σ := by
  intro hall
  have hagrees : Agrees fullFs := by
    rw [fullFs]
    exact mount_agrees _
  have hfails : (touch fileName fullFs).2 = some .insufficientInode := by decide +kernel
  have hsame := (hall (.touch fileName) fullFs hagrees _ hfails).currentDir
  have hvalid := congrArg (fun d : Dir => (d.map 0).valid) hsame
  have hmarked : ((touch fileName fullFs).1.currentDir.map 0).valid ≠
      (fullFs.currentDir.map 0).valid := by
    decide +kernel
  exact hmarked hvalid

end UcasOs.Fs
