import UcasOs.Fs.Namespace
import Mathlib.Data.Finset.Image
import Mathlib.Data.Fintype.Card

/-!
# Boot

`init_file_system` formats a disk without the magic number and mounts one that
has it, but does not mount what it has formatted.
-/

namespace UcasOs.Fs

open UcasOs.Foundation UcasOs.Libs

/-- The kernel before `init_file_system`, with its globals still zero. -/
def bootState (disk : Store) : FsState := { blankFs with disk := disk }

/-- The file system is mounted, and the first name created leaves the root and the disk below
the file system alone. -/
structure BootMounted (σ : FsState) : Prop where
  mounted : mount σ = σ
  root : ∀ s, (newEntry s σ).2 ≠ .ok 0
  below : ∀ junk s a, a < fsBase.toNat →
    (mkdir junk s σ).1.disk a = σ.disk a ∧ (touch s σ).1.disk a = σ.disk a

/-! ## Writes above the base -/

theorem sdwrite_below {α : Type} [Sector α] (buf : α) (disk : Store) {addr : UInt32} {a : Nat}
    (haddr : fsBase.toNat ≤ addr.toNat) (ha : a < fsBase.toNat) :
    sdwrite buf addr disk a = disk a :=
  Store.write_outside _ _ _ (.inl (by omega))

theorem iarrayAlloc_below (σ : FsState) {a : Nat} (ha : a < fsBase.toNat) :
    (iarrayAlloc σ).1.disk a = σ.disk a := by
  unfold iarrayAlloc
  split
  case h_1 => rfl
  case h_2 i j _ =>
      refine (sdwrite_below _ _ (Nat.le_refl _) ha).trans ?_
      exact sdwrite_below _ _ (by decide) ha

theorem iarrayAlloc_lt {σ σ' : FsState} {n : Nat} (h : iarrayAlloc σ = (σ', some n)) :
    n < inodeItemNum := by
  unfold iarrayAlloc at h
  split at h
  case h_1 => cases h
  case h_2 i j hscan =>
      obtain ⟨hj, -⟩ := scanMap_some hscan
      obtain ⟨-, hn⟩ := Prod.mk.inj h
      have hn' : i.val * 32 + j = n := Option.some.inj hn
      show n < 4096
      omega

theorem darrayAllocLoop_below (fuel : Nat) (σ : FsState) (hfuel : σ.smapIndex + fuel ≤ 256) {a : Nat}
    (ha : a < fsBase.toNat) : (darrayAllocLoop fuel σ).1.disk a = σ.disk a := by
  induction fuel generalizing σ with
  | zero => rfl
  | succ fuel ih =>
      rw [darrayAllocLoop]
      split
      case h_1 =>
          refine (ih (readSmap (σ.smapIndex + 1) σ) ?_).trans rfl
          show σ.smapIndex + 1 + fuel ≤ 256
          omega
      case h_2 i j _ =>
          refine (sdwrite_below _ _ (Nat.le_refl _) ha).trans ?_
          refine sdwrite_below _ _ ?_ ha
          rw [toNat_smapSector (by omega)]
          exact Nat.le_trans (by decide) (Nat.le_add_right _ _)

theorem darrayAllocLoop_lt {fuel : Nat} {σ σ' : FsState} {d : Nat}
    (hfuel : σ.smapIndex + fuel ≤ 256) (h : darrayAllocLoop fuel σ = (σ', some d)) :
    d < dataItemNum := by
  induction fuel generalizing σ with
  | zero => cases h
  | succ fuel ih =>
      rw [darrayAllocLoop] at h
      split at h
      case h_1 =>
          refine ih ?_ h
          show σ.smapIndex + 1 + fuel ≤ 256
          omega
      case h_2 i j hscan =>
          obtain ⟨hj, -⟩ := scanMap_some hscan
          obtain ⟨-, hn⟩ := Prod.mk.inj h
          have hn' : σ.smapIndex * 4096 + i.val * 32 + j = d := Option.some.inj hn
          show d < 1048576
          omega

/-- What an allocation of an inode cannot change, whatever is on the disk. -/
theorem iarrayAlloc_frame (σ : FsState) :
    (iarrayAlloc σ).1.currentDirPointer = σ.currentDirPointer ∧
      (iarrayAlloc σ).1.smapIndex = σ.smapIndex := by
  unfold iarrayAlloc
  split
  case h_1 => exact ⟨rfl, rfl⟩
  case h_2 => exact ⟨rfl, rfl⟩

section

variable {s : CString} {σ : FsState} (hpointer : fsBase.toNat ≤ σ.currentDirPointer.toNat)

include hpointer in
theorem newEntry_below {a : Nat} (ha : a < fsBase.toNat) :
    (newEntry s σ).1.disk a = σ.disk a := by
  unfold newEntry
  split
  case isTrue => rfl
  case isFalse =>
    split
    case isTrue => rfl
    case isFalse =>
      split
      case h_1 => rfl
      case h_2 i _ =>
        have hbelow := iarrayAlloc_below
          (setEntry i { σ.currentDir.map i with valid := 1 } σ) ha
        have hframe := (iarrayAlloc_frame
          (setEntry i { σ.currentDir.map i with valid := 1 } σ)).1
        dsimp only
        split
        case h_1 σ₁ halloc =>
            rw [halloc] at hbelow
            exact hbelow
        case h_2 σ₁ ino halloc =>
            rw [halloc] at hbelow hframe
            refine (sdwrite_below _ _ ?_ ha).trans hbelow
            change fsBase.toNat ≤ σ₁.currentDirPointer.toNat
            rw [hframe]
            exact hpointer

theorem newEntry_frame {σ₁ : FsState} {n : Nat} (h : newEntry s σ = (σ₁, .ok n)) :
    n < inodeItemNum ∧ σ₁.smapIndex = σ.smapIndex := by
  unfold newEntry at h
  split at h
  case isTrue => cases h
  case isFalse =>
    split at h
    case isTrue => cases h
    case isFalse =>
      split at h
      case h_1 => cases h
      case h_2 i _ =>
        have hframe := (iarrayAlloc_frame
          (setEntry i { σ.currentDir.map i with valid := 1 } σ)).2
        dsimp only at h
        split at h
        case h_1 => cases h
        case h_2 σ₂ ino halloc =>
            obtain ⟨rfl, hn⟩ := Prod.mk.inj h
            obtain rfl : ino = n := Except.ok.inj hn
            rw [halloc] at hframe
            exact ⟨iarrayAlloc_lt halloc, hframe⟩

theorem writeInodes_below {n : Nat} (hn : n < inodeItemNum) (inode : Fin 8 → Inode) (σ : FsState)
    {a : Nat} (ha : a < fsBase.toNat) : (writeInodes n inode σ).disk a = σ.disk a := by
  have hn' : n < 4096 := hn
  refine sdwrite_below _ _ ?_ ha
  rw [toNat_iarraySector (by omega)]
  exact Nat.le_trans (by decide) (Nat.le_add_right _ _)

include hpointer in
theorem touch_below {a : Nat} (ha : a < fsBase.toNat) : (touch s σ).1.disk a = σ.disk a := by
  have hbelow := newEntry_below (s := s) hpointer ha
  unfold touch
  split
  case h_1 σ₁ m hnew =>
      rw [hnew] at hbelow
      exact hbelow
  case h_2 σ₁ n hnew =>
      rw [hnew] at hbelow
      exact (writeInodes_below (newEntry_frame hnew).1 _ σ₁ ha).trans hbelow

include hpointer in
theorem mkdir_below {junk : Dir} (hindex : σ.smapIndex ≤ 256) {a : Nat} (ha : a < fsBase.toNat) :
    (mkdir junk s σ).1.disk a = σ.disk a := by
  have hbelow := newEntry_below (s := s) hpointer ha
  unfold mkdir
  split
  case h_1 σ₁ m hnew =>
      rw [hnew] at hbelow
      exact hbelow
  case h_2 σ₁ n hnew =>
      rw [hnew] at hbelow
      obtain ⟨hn, hindex₁⟩ := newEntry_frame hnew
      have hfuel : σ₁.smapIndex + (256 - σ₁.smapIndex) ≤ 256 := by omega
      have halloc := (darrayAllocLoop_below _ σ₁ hfuel ha).trans hbelow
      dsimp only
      split
      case h_1 σ₂ hrun =>
          rw [darrayAlloc] at hrun
          rw [hrun] at halloc
          exact halloc
      case h_2 σ₂ dno hrun =>
          rw [darrayAlloc] at hrun
          rw [hrun] at halloc
          refine (sdwrite_below _ _ ?_ ha).trans ((writeInodes_below hn _ σ₂ ha).trans halloc)
          rw [toNat_dataBlock (darrayAllocLoop_lt hfuel hrun)]
          exact Nat.le_trans (by decide) (Nat.le_add_right _ _)

end

/-! ## The root's inode -/

theorem scanMap_zero {m : Bitmap 128} (h : m.mem 0 = false) : scanMap m = some (0, 0) := by
  have hbit : bitOf (m 0) 0 = false := by
    rw [← Bitmap.mem_word m 0 (by decide)]
    exact h
  have hlow : ¬ m 0 &&& 1 ≠ 0 := by
    rw [bitOf_low, hbit]
    exact Bool.false_ne_true
  have hscan : scanWord 32 (m 0) = 0 := by
    rw [scanWord, if_neg hlow]
  rw [scanMap, show List.finRange 128 = 0 :: (List.finRange 127).map Fin.succ from
    List.finRange_succ, List.find?_cons_of_pos (by rw [hscan]; decide), Option.map_some, hscan]

/-- There are more names than entries. -/
theorem exists_fresh_name (d : Dir) :
    ∃ s : CString, strlen s ≤ maxNameLenth ∧ d.find s.bytes = none := by
  have hnames : ((Finset.univ : Finset (Fin 27)).image fun n =>
      List.replicate n.val (0x61 : UInt8)).card = 27 := by
    rw [Finset.card_image_of_injective]
    · rfl
    · intro n m h
      simpa [Fin.ext_iff] using congrArg List.length h
  have hcard : ((Finset.univ : Finset (Fin maxDirItemNum)).image fun i => (d.map i).nameOf).card <
      ((Finset.univ : Finset (Fin 27)).image fun n => List.replicate n.val (0x61 : UInt8)).card := by
    rw [hnames]
    exact lt_of_le_of_lt Finset.card_image_le (by decide)
  obtain ⟨s, hs, hfresh⟩ := Finset.exists_mem_notMem_of_card_lt_card hcard
  obtain ⟨n, -, rfl⟩ := Finset.mem_image.mp hs
  have hzero : (0 : UInt8) ∉ List.replicate n.val 0x61 := by
    intro hmem
    exact absurd (List.eq_of_mem_replicate hmem) (by decide)
  refine ⟨⟨_, hzero⟩, ?_, ?_⟩
  · have := n.isLt
    simp only [strlen, List.length_replicate]
    show n.val ≤ 26
    omega
  · rw [Dir.find, List.find?_eq_none]
    intro i _ hfound
    simp only [decide_eq_true_eq] at hfound
    rw [strcmp_eq_zero_iff, untilZero_of_noZero hzero] at hfound
    exact hfresh (Finset.mem_image.mpr ⟨i, Finset.mem_univ i, hfound.2⟩)

theorem iarrayAlloc_zero (σ : FsState) :
    (iarrayAlloc σ).2 = some 0 ↔ σ.imap.mem 0 = false := by
  constructor
  · intro h
    unfold iarrayAlloc at h
    split at h
    case h_1 => cases h
    case h_2 i j hscan =>
        have hzero : i.val * 32 + j = 0 := Option.some.inj h
        rw [← hzero]
        exact (scanMap_some hscan).2
  · intro h
    rw [iarrayAlloc, scanMap_zero h]
    rfl

theorem newEntry_root_iff (σ : FsState) :
    (∀ s, (newEntry s σ).2 ≠ .ok 0) ↔
      σ.imap.mem 0 = true ∨ ∀ k, (σ.currentDir.map k).valid ≠ 0 := by
  constructor
  · intro h
    by_contra hnot
    rw [not_or, Bool.not_eq_true, not_forall] at hnot
    obtain ⟨hbit, k, hk⟩ := hnot
    obtain ⟨s, hlen, hfind⟩ := exists_fresh_name σ.currentDir
    apply h s
    have hexist : isFileExist s σ = 0 := by
      rw [isFileExist, hfind]
    cases hfree : σ.currentDir.freeEntry with
    | none =>
        have hall := List.find?_eq_none.mp hfree k (List.mem_finRange k)
        simp only [decide_eq_true_eq] at hall
        exact absurd (not_not.mp hk) hall
    | some i =>
        have hzero := (iarrayAlloc_zero
          (setEntry i { σ.currentDir.map i with valid := 1 } σ)).mpr hbit
        unfold newEntry
        rw [if_neg (by omega), if_neg (by simp [hexist]), hfree]
        dsimp only
        split
        case h_1 σ₁ halloc =>
            rw [halloc] at hzero
            cases hzero
        case h_2 σ₁ ino halloc =>
            rw [halloc] at hzero
            rw [show ino = 0 from Option.some.inj hzero]
  · intro h s hok
    unfold newEntry at hok
    split at hok
    case isTrue => cases hok
    case isFalse =>
      split at hok
      case isTrue => cases hok
      case isFalse =>
        split at hok
        case h_1 => cases hok
        case h_2 i hfree =>
          dsimp only at hok
          split at hok
          case h_1 => cases hok
          case h_2 σ₁ ino halloc =>
              obtain rfl : ino = 0 := Except.ok.inj hok
              have hbit := (iarrayAlloc_zero
                (setEntry i { σ.currentDir.map i with valid := 1 } σ)).mp (by rw [halloc])
              rcases h with hset | hfull
              · exact nomatch hset.symm.trans hbit
              · exact hfull i (Dir.freeEntry_some hfree)

/-! ## Boot -/

theorem mount_mount (σ : FsState) : mount (mount σ) = mount σ := rfl

/-- What is formatted at boot is not what the kernel has in memory. -/
theorem mkfs_not_mounted (u : MkfsLocals) (σ : FsState) (hzero : σ.superBlock = blankFs.superBlock) :
    mount (mkfs u σ) ≠ mkfs u σ := by
  intro h
  have hused : (volume (mkfsDisk u σ.disk)).superBlock.dataUsed = σ.superBlock.dataUsed :=
    congrArg (fun σ => σ.superBlock.dataUsed) h
  rw [(mkfsDisk_formatted u σ.disk).dataUsed, hzero] at hused
  exact absurd hused (by decide)

theorem bootMounted_mount (σ : FsState) :
    BootMounted (mount σ) ↔
      (sdread σ.disk imapAddr : Bitmap 128).mem 0 = true ∨
        ∀ k, ((sdread σ.disk darrayAddr : Dir).map k).valid ≠ 0 := by
  have hpointer : fsBase.toNat ≤ (mount σ).currentDirPointer.toNat :=
    (by decide : fsBase.toNat ≤ darrayAddr.toNat)
  constructor
  · intro h
    exact (newEntry_root_iff (mount σ)).mp h.root
  · intro hroot
    refine ⟨mount_mount σ, (newEntry_root_iff (mount σ)).mpr hroot, fun junk s a ha => ?_⟩
    exact ⟨mkdir_below hpointer (Nat.zero_le _) ha, touch_below hpointer ha⟩

/-- Boot leaves the file system mounted exactly when the disk has the magic number, and then the
first name created spares the root exactly when the inode map has it or its directory is full. -/
theorem bootMounted_iff (u : MkfsLocals) (disk : Store) :
    BootMounted (initFileSystem u (bootState disk)) ↔
      (sdread disk fsBase : SuperBlock).reserved 78 = magicNumber ∧
        ((sdread disk imapAddr : Bitmap 128).mem 0 = true ∨
          ∀ k, ((sdread disk darrayAddr : Dir).map k).valid ≠ 0) := by
  unfold initFileSystem
  dsimp only
  split
  case isTrue hmagic =>
      constructor
      · intro h
        exact absurd h.mounted (mkfs_not_mounted u _ rfl)
      · rintro ⟨h, -⟩
        exact absurd h hmagic
  case isFalse hmagic =>
      rw [bootMounted_mount]
      constructor
      · intro h
        exact ⟨not_not.mp hmagic, h⟩
      · intro h
        exact h.2

/-- A blank disk: the file system is not mounted, the first name gets the root's inode and the
directory is written to the first sector of the disk. -/
theorem boot_blank :
    ¬ BootMounted (initFileSystem blankLocals (bootState fun _ => 0)) ∧
      (newEntry ⟨[0x61], by decide⟩
        (initFileSystem blankLocals (bootState fun _ => 0))).2 = .ok 0 ∧
      (touch ⟨[0x61], by decide⟩
        (initFileSystem blankLocals (bootState fun _ => 0))).1.disk 32 ≠ 0 := by
  refine ⟨?_, by decide +kernel, by decide +kernel⟩
  intro h
  exact h.root ⟨[0x61], by decide⟩ (by decide +kernel)

end UcasOs.Fs
