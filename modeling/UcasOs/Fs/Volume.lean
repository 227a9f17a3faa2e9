import UcasOs.Fs.Operations

/-!
# What is on the disk

The disk as the file system means it: a superblock, two maps, an array of
inodes and the directories in the data blocks.  Each write of a sector changes
one field of it.
-/

namespace UcasOs.Fs

open UcasOs.Foundation UcasOs.Libs

@[ext] structure Volume where
  superBlock : SuperBlock
  imap : Bitmap 128
  smap : Nat → Bitmap 128
  inode : Nat → Inode
  dir : UInt32 → Dir

/-- The addresses of the data blocks. -/
def IsBlock (p : UInt32) : Prop :=
  0x01080000 ≤ p.toNat ∧ (p.toNat - 0x01080000) % 512 = 0 ∧
    (p.toNat - 0x01080000) / 512 < 1048576

instance (p : UInt32) : Decidable (IsBlock p) :=
  inferInstanceAs (Decidable (_ ∧ _ ∧ _))

/-- Inodes, map sectors and blocks that do not exist read as zero. -/
def volume (disk : Store) : Volume where
  superBlock := sdread disk fsBase
  imap := sdread disk imapAddr
  smap k := if k < 256 then sdread disk (smapSector k) else default
  inode n := if n < inodeItemNum then readInodes disk n (inoRemain n) else default
  dir p := if IsBlock p then sdread disk p else default

theorem isBlock_dataBlock {d : Nat} (hd : d < dataItemNum) : IsBlock (dataBlock d) := by
  have hd' : d < 1048576 := hd
  rw [IsBlock, toNat_dataBlock hd]
  omega

theorem IsBlock.exists {p : UInt32} (h : IsBlock p) : ∃ d < dataItemNum, p = dataBlock d := by
  obtain ⟨hlow, hmod, hhigh⟩ := h
  refine ⟨_, hhigh, UInt32.toNat_inj.mp ?_⟩
  rw [toNat_dataBlock hhigh]
  omega

theorem dataBlock_inj {d d' : Nat} (hd : d < dataItemNum) (hd' : d' < dataItemNum)
    (h : dataBlock d = dataBlock d') : d = d' := by
  have := congrArg UInt32.toNat h
  rw [toNat_dataBlock hd, toNat_dataBlock hd'] at this
  omega

theorem IsBlock.disjoint {p q : UInt32} (hp : IsBlock p) (hq : IsBlock q) (hne : p ≠ q) :
    p.toNat + 512 ≤ q.toNat ∨ q.toNat + 512 ≤ p.toNat := by
  have hne' : p.toNat ≠ q.toNat := fun h => hne (UInt32.toNat_inj.mp h)
  obtain ⟨hp, hpmod, -⟩ := hp
  obtain ⟨hq, hqmod, -⟩ := hq
  omega

theorem volume_dir (disk : Store) {p : UInt32} (hp : IsBlock p) :
    (volume disk).dir p = sdread disk p :=
  if_pos hp

theorem volume_smap (disk : Store) {k : Nat} (hk : k < 256) :
    (volume disk).smap k = sdread disk (smapSector k) :=
  if_pos hk

theorem smapSector_zero : smapSector 0 = smapAddr := by decide

/-! ## One write -/

section

variable {β : Type} [Sector β] (buf : β) (disk : Store) {b : UInt32}

theorem volume_superBlock_frame (h : 0x01000200 ≤ b.toNat) :
    (volume (sdwrite buf b disk)).superBlock = (volume disk).superBlock :=
  sdread_sdwrite_disjoint buf disk (.inl h)

theorem volume_imap_frame (h : b.toNat = 0x01000000 ∨ 0x01000400 ≤ b.toNat) :
    (volume (sdwrite buf b disk)).imap = (volume disk).imap := by
  apply sdread_sdwrite_disjoint
  have : imapAddr.toNat = 0x01000200 := rfl
  omega

theorem volume_smap_frame (h : b.toNat ≤ 0x01000200 ∨ 0x01020400 ≤ b.toNat) :
    (volume (sdwrite buf b disk)).smap = (volume disk).smap := by
  funext k
  simp only [volume]
  split
  case isTrue hk =>
      have haddr := toNat_smapSector (show k ≤ 256 by omega)
      exact sdread_sdwrite_disjoint buf disk (by omega)
  case isFalse => rfl

theorem volume_inode_frame (h : b.toNat ≤ 0x01020200 ∨ 0x01060400 ≤ b.toNat) :
    (volume (sdwrite buf b disk)).inode = (volume disk).inode := by
  funext n
  simp only [volume, readInodes]
  split
  case isTrue hn =>
      have hn' : n < 4096 := hn
      have haddr := toNat_iarraySector (show n / 8 < 512 by omega)
      rw [sdread_sdwrite_disjoint buf disk (by omega)]
  case isFalse => rfl

theorem volume_dir_frame (h : b.toNat ≤ 0x0107fe00) :
    (volume (sdwrite buf b disk)).dir = (volume disk).dir := by
  funext p
  simp only [volume]
  split
  case isTrue hp =>
      have hlow := hp.1
      exact sdread_sdwrite_disjoint buf disk (by omega)
  case isFalse => rfl

end

theorem volume_write_superBlock (s : SuperBlock) (disk : Store) :
    volume (sdwrite s fsBase disk) = { volume disk with superBlock := s } := by
  have haddr : fsBase.toNat = 0x01000000 := rfl
  ext1
  · exact sdread_sdwrite_self s fsBase disk
  · exact volume_imap_frame s disk (by omega)
  · exact volume_smap_frame s disk (by omega)
  · exact volume_inode_frame s disk (by omega)
  · exact volume_dir_frame s disk (by omega)

theorem volume_write_imap (m : Bitmap 128) (disk : Store) :
    volume (sdwrite m imapAddr disk) = { volume disk with imap := m } := by
  have haddr : imapAddr.toNat = 0x01000200 := rfl
  ext1
  · exact volume_superBlock_frame m disk (by omega)
  · exact sdread_sdwrite_self m imapAddr disk
  · exact volume_smap_frame m disk (by omega)
  · exact volume_inode_frame m disk (by omega)
  · exact volume_dir_frame m disk (by omega)

theorem volume_write_smap (m : Bitmap 128) (disk : Store) {k : Nat} (hk : k < 256) :
    volume (sdwrite m (smapSector k) disk) =
      { volume disk with smap := Function.update (volume disk).smap k m } := by
  have haddr := toNat_smapSector (show k ≤ 256 by omega)
  ext1
  · exact volume_superBlock_frame m disk (by omega)
  · exact volume_imap_frame m disk (by omega)
  · funext i
    change (volume _).smap i = Function.update (volume disk).smap k m i
    by_cases hi : i = k
    · subst hi
      simp [volume, hk]
    · rw [Function.update_of_ne hi]
      simp only [volume]
      split
      case isTrue hi256 =>
          have haddr' := toNat_smapSector (show i ≤ 256 by omega)
          exact sdread_sdwrite_disjoint m disk (by omega)
      case isFalse => rfl
  · exact volume_inode_frame m disk (by omega)
  · exact volume_dir_frame m disk (by omega)

theorem volume_write_dir (d : Dir) (disk : Store) {p : UInt32} (hp : IsBlock p) :
    volume (sdwrite d p disk) =
      { volume disk with dir := Function.update (volume disk).dir p d } := by
  have hlow := hp.1
  ext1
  · exact volume_superBlock_frame d disk (by omega)
  · exact volume_imap_frame d disk (by omega)
  · exact volume_smap_frame d disk (by omega)
  · exact volume_inode_frame d disk (by omega)
  · funext q
    change (volume _).dir q = Function.update (volume disk).dir p d q
    by_cases hq : q = p
    · subst hq
      simp [volume, hp]
    · rw [Function.update_of_ne hq]
      simp only [volume]
      split
      case isTrue hblock => exact sdread_sdwrite_disjoint d disk (hblock.disjoint hp hq)
      case isFalse => rfl

/-- The file system does not reach below its base. -/
theorem volume_write_below {β : Type} [Sector β] (buf : β) (disk : Store) {b : UInt32}
    (h : b.toNat + 512 ≤ 0x01000000) : volume (sdwrite buf b disk) = volume disk := by
  have haddr : fsBase.toNat = 0x01000000 := rfl
  have haddr' : imapAddr.toNat = 0x01000200 := rfl
  ext1
  · exact sdread_sdwrite_disjoint buf disk (by omega)
  · exact sdread_sdwrite_disjoint buf disk (by omega)
  · exact volume_smap_frame buf disk (by omega)
  · exact volume_inode_frame buf disk (by omega)
  · exact volume_dir_frame buf disk (by omega)

/-- Reading the sector of an inode gives the eight inodes of its group. -/
theorem readInodes_eq (disk : Store) {n : Nat} (hn : n < inodeItemNum) (r : Fin 8) :
    readInodes disk n r = (volume disk).inode (n / 8 * 8 + r) := by
  have hn' : n < 4096 := hn
  have hlt : n / 8 * 8 + r.val < inodeItemNum := by show _ < 4096; omega
  have hgroup : (n / 8 * 8 + r.val) / 8 = n / 8 := by omega
  have hr : inoRemain (n / 8 * 8 + r.val) = r := by
    apply Fin.ext
    simp only [inoRemain]
    omega
  simp only [volume, if_pos hlt, readInodes, hgroup, hr]

theorem readInodes_remain (disk : Store) {n : Nat} (hn : n < inodeItemNum) :
    readInodes disk n (inoRemain n) = (volume disk).inode n := by
  simp only [volume, if_pos hn]

/-- One inode of a sector that was read before is replaced. -/
theorem volume_write_inode (i : Inode) (disk disk' : Store) {n : Nat} (hn : n < inodeItemNum)
    (hread : (volume disk').inode = (volume disk).inode) :
    volume (sdwrite (Function.update (readInodes disk' n) (inoRemain n) i)
        (iarraySector (n / 8)) disk) =
      { volume disk with inode := Function.update (volume disk).inode n i } := by
  have hn' : n < 4096 := hn
  have haddr := toNat_iarraySector (show n / 8 < 512 by omega)
  ext1
  · exact volume_superBlock_frame _ disk (by omega)
  · exact volume_imap_frame _ disk (by omega)
  · exact volume_smap_frame _ disk (by omega)
  · funext m
    change (volume _).inode m = Function.update (volume disk).inode n i m
    by_cases hm : m < inodeItemNum
    case neg =>
        have hne : m ≠ n := fun h => hm (h ▸ hn)
        simp [volume, hm, Function.update_of_ne hne]
    case pos =>
        have hm' : m < 4096 := hm
        rw [← readInodes_remain _ hm, readInodes]
        by_cases hgroup : m / 8 = n / 8
        · rw [hgroup, sdread_sdwrite_self]
          by_cases hmn : m = n
          · subst hmn
            simp
          · have hr : inoRemain m ≠ inoRemain n := by
              intro h
              have := congrArg Fin.val h
              simp only [inoRemain] at this
              omega
            have hidx : n / 8 * 8 + (inoRemain m).val = m := by
              simp only [inoRemain]
              omega
            rw [Function.update_of_ne hr, Function.update_of_ne hmn, readInodes_eq _ hn, hread,
              hidx]
        · have haddr' := toNat_iarraySector (show m / 8 < 512 by omega)
          have hmn : m ≠ n := fun h => hgroup (by rw [h])
          rw [sdread_sdwrite_disjoint _ _ (by omega), Function.update_of_ne hmn,
            ← readInodes_remain _ hm, readInodes]
  · exact volume_dir_frame _ disk (by omega)

end UcasOs.Fs
