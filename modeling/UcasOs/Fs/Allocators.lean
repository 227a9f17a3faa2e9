import UcasOs.Fs.BlockSearch

/-!
# The allocators

`iarray_alloc`, `darray_alloc` and the calls that free what they return, in any
order.  The inode map is kept in memory as a whole; of the block map only one
sector is, which both calls on blocks replace.
-/

namespace UcasOs.Fs

open UcasOs.Foundation UcasOs.Libs

inductive MapCall where
  | iarrayAlloc
  | darrayAlloc
  | iarrayFree (ino : Nat)
  | darrayFree (dno : Nat)
  deriving DecidableEq, Repr

/-- Only numbers that are allocated are freed. -/
def allocators : Lts FsState MapCall where
  step σ call σ' :=
    match call with
    | .iarrayAlloc => σ' = (iarrayAlloc σ).1
    | .darrayAlloc => σ' = (darrayAlloc σ).1
    | .iarrayFree n => (volume σ.disk).live n = true ∧ σ' = iarrayFree n σ
    | .darrayFree d => d < dataItemNum ∧ (volume σ.disk).used d = true ∧ σ' = darrayFree d σ

/-! ## What is promised -/

def SetsOnly (n : Nat) (bit bit' : Nat → Bool) : Prop :=
  bit n = false ∧ ∀ k, bit' k = (decide (k = n) || bit k)

def ClearsOnly (n : Nat) (bit bit' : Nat → Bool) : Prop :=
  ∀ k, bit' k = (!decide (k = n) && bit k)

/-- The counters in memory and on the disk count the bits that are set. -/
structure Counted (σ : FsState) : Prop where
  inodeUsed : σ.superBlock.inodeUsed.toNat = countBits (volume σ.disk).live inodeItemNum
  dataUsed : σ.superBlock.dataUsed.toNat = countBits (volume σ.disk).used dataItemNum
  superBlock : (volume σ.disk).superBlock = σ.superBlock

/-- Both maps on the disk, and both counters in memory and on the disk, are the same. -/
structure Restored (σ σ' : FsState) : Prop where
  live : (volume σ'.disk).live = (volume σ.disk).live
  used : (volume σ'.disk).used = (volume σ.disk).used
  memory : σ'.superBlock = σ.superBlock
  disk : (volume σ'.disk).superBlock = (volume σ.disk).superBlock

structure SoundInodes (σ : FsState) : Prop where
  alloc : ∀ σ' n, iarrayAlloc σ = (σ', some n) → n < inodeItemNum ∧
    SetsOnly n (volume σ.disk).live (volume σ'.disk).live ∧
    (volume σ'.disk).used = (volume σ.disk).used
  least : ∀ σ' n, iarrayAlloc σ = (σ', some n) → ∀ m < n, (volume σ.disk).live m = true
  full : (iarrayAlloc σ).2 = none ↔ ∀ n < inodeItemNum, (volume σ.disk).live n = true
  free : ∀ n, (volume σ.disk).live n = true →
    ClearsOnly n (volume σ.disk).live (volume (iarrayFree n σ).disk).live ∧
    (volume (iarrayFree n σ).disk).used = (volume σ.disk).used
  restored : ∀ σ' n, iarrayAlloc σ = (σ', some n) → Restored σ (iarrayFree n σ')

structure SoundBlocks (σ : FsState) : Prop where
  alloc : ∀ σ' d, darrayAlloc σ = (σ', some d) → d < dataItemNum ∧
    SetsOnly d (volume σ.disk).used (volume σ'.disk).used ∧
    (volume σ'.disk).live = (volume σ.disk).live
  free : ∀ d < dataItemNum, (volume σ.disk).used d = true →
    ClearsOnly d (volume σ.disk).used (volume (darrayFree d σ).disk).used ∧
    (volume (darrayFree d σ).disk).live = (volume σ.disk).live
  restored : ∀ σ' d, darrayAlloc σ = (σ', some d) → Restored σ (darrayFree d σ')

structure SoundAllocators (σ : FsState) : Prop where
  counted : Counted σ
  inodes : SoundInodes σ
  blocks : SoundBlocks σ

/-! ## The maps and their copies -/

variable {σ σ' : FsState} {n d : Nat}

/-- A bit that is set and cleared again. -/
theorem SetsOnly.undo {bit bit' bit'' : Nat → Bool} (h : SetsOnly n bit bit')
    (h' : ClearsOnly n bit' bit'') : bit'' = bit := by
  funext k
  rw [h', h.2]
  by_cases hk : k = n
  · rw [hk, h.1]
    simp
  · simp [hk]

namespace Cached

variable (h : Cached σ)
include h

theorem inode_alloc (hrun : iarrayAlloc σ = (σ', some n)) : n < inodeItemNum ∧
    SetsOnly n (volume σ.disk).live (volume σ'.disk).live ∧
    (volume σ'.disk).used = (volume σ.disk).used := by
  obtain ⟨hn, hdead, -, -, hvol⟩ := iarrayAlloc_spec h hrun
  rw [hvol]
  exact ⟨hn, ⟨hdead, (volume σ.disk).live_allocInode hn⟩, rfl⟩

theorem inode_least (hrun : iarrayAlloc σ = (σ', some n)) {m : Nat} (hm : m < n) :
    (volume σ.disk).live m = true := by
  unfold iarrayAlloc at hrun
  split at hrun
  case h_1 => cases hrun
  case h_2 i j hscan =>
      obtain rfl : i.val * 32 + j = n := Option.some.inj (Prod.mk.inj hrun).2
      rw [Volume.live, h.imap]
      exact scanMap_least hscan hm

theorem inode_full :
    (iarrayAlloc σ).2 = none ↔ ∀ n < inodeItemNum, (volume σ.disk).live n = true := by
  cases hrun : iarrayAlloc σ with
  | mk σ' answer =>
      cases answer with
      | none =>
          refine iff_of_true rfl fun n hn => ?_
          unfold iarrayAlloc at hrun
          split at hrun
          case h_1 hscan =>
              rw [Volume.live, h.imap]
              exact scanMap_none hscan hn
          case h_2 => cases hrun
      | some n =>
          obtain ⟨hn, hdead, -⟩ := iarrayAlloc_spec h hrun
          refine iff_of_false (by simp) fun hall => ?_
          cases (hall n hn).symm.trans hdead

theorem inode_free (hn : n < inodeItemNum) :
    ClearsOnly n (volume σ.disk).live (volume (iarrayFree n σ).disk).live ∧
    (volume (iarrayFree n σ).disk).used = (volume σ.disk).used := by
  obtain ⟨-, -, hvol⟩ := iarrayFree_spec h n
  rw [hvol]
  exact ⟨(volume σ.disk).live_freeInode hn, rfl⟩

theorem block_alloc (hrun : darrayAlloc σ = (σ', some d)) : d < dataItemNum ∧
    SetsOnly d (volume σ.disk).used (volume σ'.disk).used ∧
    (volume σ'.disk).live = (volume σ.disk).live := by
  obtain ⟨hd, hunused, -, -, hvol⟩ := darrayAlloc_spec h hrun
  rw [hvol]
  exact ⟨hd, ⟨hunused, (volume σ.disk).used_allocBlock d⟩, rfl⟩

theorem block_free (hd : d < dataItemNum) :
    ClearsOnly d (volume σ.disk).used (volume (darrayFree d σ).disk).used ∧
    (volume (darrayFree d σ).disk).live = (volume σ.disk).live := by
  obtain ⟨-, -, hvol⟩ := darrayFree_spec h hd
  rw [hvol]
  exact ⟨(volume σ.disk).used_freeBlock d, rfl⟩

theorem inode_restored (hrun : iarrayAlloc σ = (σ', some n)) : Restored σ (iarrayFree n σ') := by
  obtain ⟨hn, -, hcached, -, hvol⟩ := iarrayAlloc_spec h hrun
  obtain ⟨hcached', -, hvol'⟩ := iarrayFree_spec hcached n
  obtain ⟨-, hsets, hused⟩ := h.inode_alloc hrun
  obtain ⟨hclears, hused'⟩ := hcached.inode_free hn
  have hsuper : (volume (iarrayFree n σ').disk).superBlock = (volume σ.disk).superBlock := by
    rw [hvol', hvol]
    simp [Volume.freeInode, Volume.allocInode]
  refine ⟨hsets.undo hclears, hused'.trans hused, ?_, hsuper⟩
  rw [← hcached'.superBlock, hsuper, h.superBlock]

theorem block_restored (hrun : darrayAlloc σ = (σ', some d)) : Restored σ (darrayFree d σ') := by
  obtain ⟨hd, -, hcached, -, hvol⟩ := darrayAlloc_spec h hrun
  obtain ⟨hcached', -, hvol'⟩ := darrayFree_spec hcached hd
  obtain ⟨-, hsets, hlive⟩ := h.block_alloc hrun
  obtain ⟨hclears, hlive'⟩ := hcached.block_free hd
  have hsuper : (volume (darrayFree d σ').disk).superBlock = (volume σ.disk).superBlock := by
    rw [hvol', hvol]
    simp [Volume.freeBlock, Volume.allocBlock]
  refine ⟨hlive'.trans hlive, hsets.undo hclears, ?_, hsuper⟩
  rw [← hcached'.superBlock, hsuper, h.superBlock]

theorem sound (hcounts : (volume σ.disk).Counts) : SoundAllocators σ where
  counted := by
    refine ⟨?_, ?_, h.superBlock⟩
    · rw [← h.superBlock, hcounts.inodeUsed]
    · rw [← h.superBlock, hcounts.dataUsed]
  inodes := ⟨fun _ _ hrun => h.inode_alloc hrun, fun _ _ hrun _ hm => h.inode_least hrun hm,
    h.inode_full, fun _ hn => h.inode_free (Volume.live_lt hn), fun _ _ hrun => h.inode_restored hrun⟩
  blocks := ⟨fun _ _ hrun => h.block_alloc hrun, fun _ hd _ => h.block_free hd,
    fun _ _ hrun => h.block_restored hrun⟩

end Cached

/-! ## Runs -/

/-- The copies in memory stay those of the disk, and the counters right. -/
theorem allocators_step {call : MapCall} (h : Cached σ ∧ (volume σ.disk).Counts)
    (hstep : allocators.step σ call σ') : Cached σ' ∧ (volume σ'.disk).Counts := by
  obtain ⟨hcached, hcounts⟩ := h
  cases call with
  | iarrayAlloc =>
      obtain rfl : σ' = _ := hstep
      cases hrun : iarrayAlloc σ with
      | mk σ' answer =>
          cases answer with
          | none =>
              unfold iarrayAlloc at hrun
              split at hrun
              case h_1 =>
                  cases hrun
                  exact ⟨hcached, hcounts⟩
              case h_2 => cases hrun
          | some n =>
              obtain ⟨hn, hdead, hcached', -, hvol⟩ := iarrayAlloc_spec hcached hrun
              dsimp only
              rw [hvol]
              exact ⟨hcached', hcounts.allocInode hn hdead⟩
  | darrayAlloc =>
      obtain rfl : σ' = _ := hstep
      cases hrun : darrayAlloc σ with
      | mk σ' answer =>
          cases answer with
          | none =>
              obtain ⟨hcached', -, hdisk⟩ := darrayAlloc_none hcached hrun
              dsimp only
              rw [hdisk]
              exact ⟨hcached', hcounts⟩
          | some d =>
              obtain ⟨hd, hunused, hcached', -, hvol⟩ := darrayAlloc_spec hcached hrun
              dsimp only
              rw [hvol]
              exact ⟨hcached', hcounts.allocBlock hd hunused⟩
  | iarrayFree n =>
      obtain ⟨hlive, rfl⟩ := hstep
      obtain ⟨hcached', -, hvol⟩ := iarrayFree_spec hcached n
      rw [hvol]
      exact ⟨hcached', hcounts.freeInode (Volume.live_lt hlive) hlive⟩
  | darrayFree d =>
      obtain ⟨hd, hused, rfl⟩ := hstep
      obtain ⟨hcached', -, hvol⟩ := darrayFree_spec hcached hd
      rw [hvol]
      exact ⟨hcached', hcounts.freeBlock hd hused⟩

/-- Whatever has been allocated and freed since the disk was formatted, the next calls do what
they should. -/
theorem soundAllocators_of_run (u : MkfsLocals) (σ₀ : FsState) {calls : List MapCall} {σ : FsState}
    (run : allocators.Run (mount (mkfs u σ₀)) calls σ) : SoundAllocators σ := by
  have hmounted := (mkfs_mount_mounted u σ₀).1
  obtain ⟨hcached, hcounts⟩ := run.invariant
    (I := fun σ => Cached σ ∧ (volume σ.disk).Counts) (fun _ _ _ h hstep => allocators_step h hstep)
    ⟨hmounted.cached, hmounted.consistent.counts⟩
  exact hcached.sound hcounts

/-- An inode and a block are allocated, and the block is freed. -/
theorem soundAllocators_three :
    ∃ σ, allocators.Run (mount (mkfs blankLocals blankFs))
        [.iarrayAlloc, .darrayAlloc, .darrayFree 1] σ ∧ SoundAllocators σ := by
  obtain ⟨σ, hσ⟩ : ∃ σ, σ = (darrayAlloc (iarrayAlloc (mount (mkfs blankLocals blankFs))).1).1 :=
    ⟨_, rfl⟩
  have hused : (volume σ.disk).used 1 = true := by
    rw [hσ]
    decide +kernel
  have hfirst : allocators.Run (mount (mkfs blankLocals blankFs)) [.iarrayAlloc, .darrayAlloc] σ := by
    rw [hσ]
    exact .snoc (.single (rfl : allocators.step _ .iarrayAlloc _)) rfl
  have hrun : allocators.Run (mount (mkfs blankLocals blankFs))
      [.iarrayAlloc, .darrayAlloc, .darrayFree 1] (darrayFree 1 σ) :=
    .snoc hfirst ⟨by decide, hused, rfl⟩
  exact ⟨_, hrun, soundAllocators_of_run blankLocals blankFs hrun⟩

end UcasOs.Fs
