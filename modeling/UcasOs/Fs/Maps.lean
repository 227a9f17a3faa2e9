import UcasOs.Fs.Volume

/-!
# Allocation of inodes and data blocks

The four functions over the inode map and the block map, as changes of the
volume.  They rely on the copies in memory being those of the disk.
-/

namespace UcasOs.Fs

open UcasOs.Foundation UcasOs.Libs

/-! ## The search for a zero -/

theorem scanWord_le (n : Nat) (t : UInt32) : scanWord n t ≤ n := by
  induction n generalizing t with
  | zero => exact Nat.le_refl 0
  | succ n ih =>
      rw [scanWord]
      split
      · exact Nat.succ_le_succ (ih _)
      · exact Nat.zero_le _

theorem bitOf_scanWord {n : Nat} {t : UInt32} (h : scanWord n t < n) :
    bitOf t (scanWord n t) = false := by
  induction n generalizing t with
  | zero => cases h
  | succ n ih =>
      rw [scanWord] at h ⊢
      split at h
      case isTrue hone =>
          rw [if_pos hone, ← bitOf_shift]
          exact ih (Nat.lt_of_succ_lt_succ h)
      case isFalse hzero =>
          rw [if_neg hzero]
          rw [bitOf_low] at hzero
          simpa using hzero

theorem scanMap_some {m : Bitmap 128} {i : Fin 128} {j : Nat} (h : scanMap m = some (i, j)) :
    j < 32 ∧ m.mem (i * 32 + j) = false := by
  rw [scanMap, Option.map_eq_some_iff] at h
  obtain ⟨i', hfind, heq⟩ := h
  obtain ⟨rfl, rfl⟩ := Prod.mk.inj heq
  have hne := List.find?_some hfind
  simp only [decide_eq_true_eq] at hne
  have hlt : scanWord 32 (m i') < 32 := lt_of_le_of_ne (scanWord_le 32 _) hne
  exact ⟨hlt, by rw [Bitmap.mem_word m i' hlt]; exact bitOf_scanWord hlt⟩

/-! ## The maps of a volume -/

namespace Volume

def live (v : Volume) (n : Nat) : Bool := v.imap.mem n

def used (v : Volume) (d : Nat) : Bool := (v.smap (d / 4096)).mem (d % 4096)

def allocInode (v : Volume) (n : Nat) : Volume :=
  { v with
    imap := v.imap.set (Fin.ofNat 128 (n / 32)) (n % 32)
    superBlock := { v.superBlock with inodeUsed := v.superBlock.inodeUsed + 1 } }

def freeInode (v : Volume) (n : Nat) : Volume :=
  { v with
    imap := v.imap.clear (Fin.ofNat 128 (n / 32)) (n % 32)
    superBlock := { v.superBlock with inodeUsed := v.superBlock.inodeUsed - 1 } }

def allocBlock (v : Volume) (d : Nat) : Volume :=
  { v with
    smap := Function.update v.smap (d / 4096)
      ((v.smap (d / 4096)).set (Fin.ofNat 128 (d % 4096 / 32)) (d % 32))
    superBlock := { v.superBlock with dataUsed := v.superBlock.dataUsed + 1 } }

def freeBlock (v : Volume) (d : Nat) : Volume :=
  { v with
    smap := Function.update v.smap (d / 4096)
      ((v.smap (d / 4096)).clear (Fin.ofNat 128 (d % 4096 / 32)) (d % 32))
    superBlock := { v.superBlock with dataUsed := v.superBlock.dataUsed - 1 } }

theorem live_lt {v : Volume} {n : Nat} (h : v.live n = true) : n < inodeItemNum := by
  unfold live Bitmap.mem at h
  split at h
  case isTrue hn => show n < 4096; omega
  case isFalse => cases h

theorem live_allocInode (v : Volume) {n : Nat} (hn : n < inodeItemNum) (k : Nat) :
    (v.allocInode n).live k = (decide (k = n) || v.live k) := by
  have hn' : n < 4096 := hn
  have hidx : (Fin.ofNat 128 (n / 32)).val * 32 + n % 32 = n := by
    simp only [Fin.ofNat]
    omega
  have h := v.imap.mem_set (Fin.ofNat 128 (n / 32)) (show n % 32 < 32 by omega) k
  rwa [hidx] at h

theorem live_freeInode (v : Volume) {n : Nat} (hn : n < inodeItemNum) (k : Nat) :
    (v.freeInode n).live k = (!decide (k = n) && v.live k) := by
  have hn' : n < 4096 := hn
  have hidx : (Fin.ofNat 128 (n / 32)).val * 32 + n % 32 = n := by
    simp only [Fin.ofNat]
    omega
  have h := v.imap.mem_clear (Fin.ofNat 128 (n / 32)) (show n % 32 < 32 by omega) k
  rwa [hidx] at h

theorem used_allocBlock (v : Volume) (d k : Nat) :
    (v.allocBlock d).used k = (decide (k = d) || v.used k) := by
  unfold used allocBlock
  by_cases hsector : k / 4096 = d / 4096
  · have hidx : (Fin.ofNat 128 (d % 4096 / 32)).val * 32 + d % 32 = d % 4096 := by
      simp only [Fin.ofNat]
      omega
    have h := (v.smap (d / 4096)).mem_set (Fin.ofNat 128 (d % 4096 / 32))
      (show d % 32 < 32 by omega) (k % 4096)
    rw [hidx] at h
    simp only [hsector, Function.update_self, h]
    congr 1
    apply decide_eq_decide.mpr
    omega
  · have hne : k ≠ d := fun h => hsector (by rw [h])
    simp [Function.update_of_ne hsector, hne]

theorem used_freeBlock (v : Volume) (d k : Nat) :
    (v.freeBlock d).used k = (!decide (k = d) && v.used k) := by
  unfold used freeBlock
  by_cases hsector : k / 4096 = d / 4096
  · have hidx : (Fin.ofNat 128 (d % 4096 / 32)).val * 32 + d % 32 = d % 4096 := by
      simp only [Fin.ofNat]
      omega
    have h := (v.smap (d / 4096)).mem_clear (Fin.ofNat 128 (d % 4096 / 32))
      (show d % 32 < 32 by omega) (k % 4096)
    rw [hidx] at h
    simp only [hsector, Function.update_self, h]
    congr 2
    apply decide_eq_decide.mpr
    omega
  · have hne : k ≠ d := fun h => hsector (by rw [h])
    simp [Function.update_of_ne hsector, hne]

end Volume

/-! ## The copies in memory -/

/-- The superblock and the maps in memory are those of the disk. -/
structure Cached (σ : FsState) : Prop where
  superBlock : (volume σ.disk).superBlock = σ.superBlock
  imap : (volume σ.disk).imap = σ.imap
  smapIndex : σ.smapIndex ≤ 256
  smap : σ.smapIndex < 256 → (volume σ.disk).smap σ.smapIndex = σ.smap

/-- What the maps have nothing to do with. -/
structure SameDir (σ σ' : FsState) : Prop where
  currentDir : σ'.currentDir = σ.currentDir
  currentDirPointer : σ'.currentDirPointer = σ.currentDirPointer
  fdArray : σ'.fdArray = σ.fdArray
  fdArraySlist : σ'.fdArraySlist = σ.fdArraySlist

theorem SameDir.trans {σ σ₁ σ' : FsState} (h : SameDir σ σ₁) (h' : SameDir σ₁ σ') :
    SameDir σ σ' :=
  ⟨h'.currentDir.trans h.currentDir, h'.currentDirPointer.trans h.currentDirPointer,
    h'.fdArray.trans h.fdArray, h'.fdArraySlist.trans h.fdArraySlist⟩

theorem Cached.writeSuperBlock {σ : FsState} (h : Cached σ) (s : SuperBlock) :
    Cached (writeSuperBlock s σ) ∧
      volume (writeSuperBlock s σ).disk = { volume σ.disk with superBlock := s } := by
  have hvol := volume_write_superBlock s σ.disk
  refine ⟨⟨?_, ?_, h.smapIndex, fun hk => ?_⟩, hvol⟩
  · exact congrArg Volume.superBlock hvol
  · exact (congrArg Volume.imap hvol).trans h.imap
  · exact (congrArg (Volume.smap · σ.smapIndex) hvol).trans (h.smap hk)

theorem Cached.writeImap {σ : FsState} (h : Cached σ) (m : Bitmap 128) :
    Cached (writeImap m σ) ∧ volume (writeImap m σ).disk = { volume σ.disk with imap := m } := by
  have hvol := volume_write_imap m σ.disk
  refine ⟨⟨?_, ?_, h.smapIndex, fun hk => ?_⟩, hvol⟩
  · exact (congrArg Volume.superBlock hvol).trans h.superBlock
  · exact congrArg Volume.imap hvol
  · exact (congrArg (Volume.smap · σ.smapIndex) hvol).trans (h.smap hk)

theorem Cached.writeSmap {σ : FsState} (h : Cached σ) (m : Bitmap 128) (hk : σ.smapIndex < 256) :
    Cached (writeSmap m σ) ∧
      volume (writeSmap m σ).disk =
        { volume σ.disk with smap := Function.update (volume σ.disk).smap σ.smapIndex m } := by
  have hvol := volume_write_smap m σ.disk hk
  refine ⟨⟨?_, ?_, h.smapIndex, fun hk => ?_⟩, hvol⟩
  · exact (congrArg Volume.superBlock hvol).trans h.superBlock
  · exact (congrArg Volume.imap hvol).trans h.imap
  · refine (congrArg (Volume.smap · σ.smapIndex) hvol).trans ?_
    exact Function.update_self _ _ _

theorem Cached.readSmap {σ : FsState} (h : Cached σ) {k : Nat} (hk : k ≤ 256) :
    Cached (readSmap k σ) := by
  refine ⟨h.superBlock, h.imap, hk, fun hlt => ?_⟩
  have hlt' : k < 256 := hlt
  simp [UcasOs.Fs.readSmap, volume, hlt']

theorem iarrayAlloc_spec {σ σ' : FsState} {n : Nat} (h : Cached σ)
    (hrun : iarrayAlloc σ = (σ', some n)) :
    n < inodeItemNum ∧ (volume σ.disk).live n = false ∧ Cached σ' ∧ SameDir σ σ' ∧
      volume σ'.disk = (volume σ.disk).allocInode n := by
  unfold iarrayAlloc at hrun
  split at hrun
  case h_1 => cases hrun
  case h_2 i j hscan =>
      obtain ⟨hj, hbit⟩ := scanMap_some hscan
      obtain ⟨rfl, hn⟩ := Prod.mk.inj hrun
      obtain rfl : i.val * 32 + j = n := Option.some.inj hn
      obtain ⟨h1, hvol1⟩ := h.writeImap (σ.imap.set i j)
      obtain ⟨h2, hvol2⟩ := h1.writeSuperBlock
        { σ.superBlock with inodeUsed := σ.superBlock.inodeUsed + 1 }
      have hi : Fin.ofNat 128 ((i.val * 32 + j) / 32) = i := by
        apply Fin.ext
        simp only [Fin.ofNat]
        omega
      have hj' : (i.val * 32 + j) % 32 = j := by omega
      refine ⟨by show _ < 4096; omega, ?_, h2, ⟨rfl, rfl, rfl, rfl⟩, ?_⟩
      · rw [Volume.live, h.imap]
        exact hbit
      · refine hvol2.trans ?_
        rw [hvol1, Volume.allocInode, hi, hj', h.imap, h.superBlock]

theorem iarrayFree_spec {σ : FsState} (h : Cached σ) (n : Nat) :
    Cached (iarrayFree n σ) ∧ SameDir σ (iarrayFree n σ) ∧
      volume (iarrayFree n σ).disk = (volume σ.disk).freeInode n := by
  obtain ⟨h1, hvol1⟩ := h.writeImap (σ.imap.clear (Fin.ofNat 128 (n / 32)) (n - n / 32 * 32))
  obtain ⟨h2, hvol2⟩ := h1.writeSuperBlock
    { σ.superBlock with inodeUsed := σ.superBlock.inodeUsed - 1 }
  have hj : n - n / 32 * 32 = n % 32 := by omega
  refine ⟨h2, ⟨rfl, rfl, rfl, rfl⟩, ?_⟩
  refine hvol2.trans ?_
  rw [hvol1, Volume.freeInode, hj, h.imap, h.superBlock]

theorem darrayAllocLoop_sameDir (fuel : Nat) (σ : FsState) :
    SameDir σ (darrayAllocLoop fuel σ).1 ∧
      ((darrayAllocLoop fuel σ).2 = none → (darrayAllocLoop fuel σ).1.disk = σ.disk) := by
  induction fuel generalizing σ with
  | zero => exact ⟨⟨rfl, rfl, rfl, rfl⟩, fun _ => rfl⟩
  | succ fuel ih =>
      rw [darrayAllocLoop]
      split
      case h_1 =>
          have hread : SameDir σ (readSmap (σ.smapIndex + 1) σ) := ⟨rfl, rfl, rfl, rfl⟩
          have ih := ih (readSmap (σ.smapIndex + 1) σ)
          exact ⟨hread.trans ih.1, ih.2⟩
      case h_2 => exact ⟨⟨rfl, rfl, rfl, rfl⟩, fun h => (nomatch h)⟩

theorem darrayAlloc_sameDir (σ : FsState) :
    SameDir σ (darrayAlloc σ).1 ∧ ((darrayAlloc σ).2 = none → (darrayAlloc σ).1.disk = σ.disk) :=
  darrayAllocLoop_sameDir _ σ

theorem darrayAllocLoop_spec {fuel : Nat} {σ σ' : FsState} {d : Nat} (h : Cached σ)
    (hfuel : fuel = 256 - σ.smapIndex) (hrun : darrayAllocLoop fuel σ = (σ', some d)) :
    d < dataItemNum ∧ (volume σ.disk).used d = false ∧ Cached σ' ∧ SameDir σ σ' ∧
      volume σ'.disk = (volume σ.disk).allocBlock d := by
  induction fuel generalizing σ with
  | zero => cases hrun
  | succ fuel ih =>
      have hlt : σ.smapIndex < 256 := by omega
      rw [darrayAllocLoop] at hrun
      split at hrun
      case h_1 =>
          have hnext := h.readSmap (show σ.smapIndex + 1 ≤ 256 by omega)
          obtain ⟨hd, hused, hcached, hsame, hvol⟩ := ih hnext
            (by show fuel = 256 - (σ.smapIndex + 1); omega) hrun
          exact ⟨hd, hused, hcached,
            ⟨hsame.currentDir, hsame.currentDirPointer, hsame.fdArray, hsame.fdArraySlist⟩, hvol⟩
      case h_2 i j hscan =>
          obtain ⟨hj, hbit⟩ := scanMap_some hscan
          obtain ⟨rfl, hn⟩ := Prod.mk.inj hrun
          have hd : σ.smapIndex * 4096 + i.val * 32 + j = d := Option.some.inj hn
          obtain ⟨h1, hvol1⟩ := h.writeSmap (σ.smap.set i j) hlt
          obtain ⟨h2, hvol2⟩ := h1.writeSuperBlock
            { σ.superBlock with dataUsed := σ.superBlock.dataUsed + 1 }
          have hsector : d / 4096 = σ.smapIndex := by omega
          have hoffset : d % 4096 = i.val * 32 + j := by omega
          have hi : Fin.ofNat 128 (d % 4096 / 32) = i := by
            apply Fin.ext
            simp only [Fin.ofNat]
            omega
          have hj' : d % 32 = j := by omega
          refine ⟨by show d < 1048576; omega, ?_, h2, ⟨rfl, rfl, rfl, rfl⟩, ?_⟩
          · rw [Volume.used, hsector, hoffset, h.smap hlt]
            exact hbit
          · refine hvol2.trans ?_
            rw [hvol1, Volume.allocBlock, hi, hj', hsector, h.smap hlt, h.superBlock]

theorem darrayAlloc_spec {σ σ' : FsState} {d : Nat} (h : Cached σ)
    (hrun : darrayAlloc σ = (σ', some d)) :
    d < dataItemNum ∧ (volume σ.disk).used d = false ∧ Cached σ' ∧ SameDir σ σ' ∧
      volume σ'.disk = (volume σ.disk).allocBlock d :=
  darrayAllocLoop_spec h rfl hrun

theorem darrayFree_spec {σ : FsState} (h : Cached σ) {d : Nat} (hd : d < dataItemNum) :
    Cached (darrayFree d σ) ∧ SameDir σ (darrayFree d σ) ∧
      volume (darrayFree d σ).disk = (volume σ.disk).freeBlock d := by
  have hd' : d < 1048576 := hd
  have hread := h.readSmap (show d / 4096 ≤ 256 by omega)
  have hlt : (readSmap (d / 4096) σ).smapIndex < 256 := by show d / 4096 < 256; omega
  obtain ⟨h1, hvol1⟩ := hread.writeSmap ((readSmap (d / 4096) σ).smap.clear
    (Fin.ofNat 128 ((d - d / 4096 * 4096) / 32))
    (d - d / 4096 * 4096 - (d - d / 4096 * 4096) / 32 * 32)) hlt
  obtain ⟨h2, hvol2⟩ := h1.writeSuperBlock
    { σ.superBlock with dataUsed := σ.superBlock.dataUsed - 1 }
  have hi : d - d / 4096 * 4096 = d % 4096 := by omega
  have hj : d % 4096 - d % 4096 / 32 * 32 = d % 32 := by omega
  refine ⟨h2, ⟨rfl, rfl, rfl, rfl⟩, ?_⟩
  refine hvol2.trans ?_
  rw [hvol1, ← hread.smap hlt, hi, hj, Volume.freeBlock, h.superBlock]
  rfl

end UcasOs.Fs
