import UcasOs.Fs.FileContents
import UcasOs.Fs.FileTree

/-!
# The file system is a tree of files

A boot from a disk that `mkfs` has written, and any calls and restarts after
it: their answers are those of the tree of files in `Fs.FileTree`, and the disk
holds that tree.  A write must begin at the end of its file, and in every new
sector with its own beginning, which is what `fwrite` stores there.
-/

namespace UcasOs.Fs

open UcasOs.Foundation UcasOs.Foundation.Naming UcasOs.Libs

/-! ## The calls and their answers -/

/-- The kernel after a boot: no descriptor is open. -/
def restarted (u : MkfsLocals) (memory : FsState) (disk : Store) : Handles :=
  ⟨⟨initFileSystem u { memory with disk }, ∅⟩, fun _ => none⟩

def Exchange.Leads (s t : Handles) : Exchange → Prop
  | .name call answer => (call.run s.session.fs).2 = answer ∧ handles.step s (.name call) t
  | .fopen string access fd =>
      (Fs.fopen string access s.session.fs).2 = fd ∧
        handles.step s (.fd (.fopen string access)) t
  | .fclose fd closed =>
      (Fs.fclose fd s.session.fs).2 = closed ∧ handles.step s (.fd (.fclose fd)) t
  | .fread fd size bytes total =>
      (∃ σ, Fs.fread fd size s.session.fs = .ok (σ, bytes, total)) ∧
        handles.step s (.fd (.fread fd size)) t
  | .fwrite fd bytes written =>
      (∃ σ, Fs.fwrite fd (source bytes) (UInt32.ofNat bytes.length) s.session.fs =
        .ok (σ, written)) ∧
        handles.step s (.fd (.fwrite fd (source bytes) (UInt32.ofNat bytes.length))) t
  | .fseek fd offset => handles.step s (.fd (.fseek fd offset)) t
  | .restart u memory => t = restarted u memory s.session.fs.disk

def fileSystem : Lts Handles Exchange where
  step s exchange t := exchange.Leads s t

/-- The bytes are added at the end of the file, within the direct pointers. -/
def Appending (x : Inode) (f : Fd) (bytes : List UInt8) : Prop :=
  f.offset = x.size ∧ f.offset.toNat + bytes.length ≤ 5120 ∧
    GoesOn f.offset.toNat bytes.length (source bytes)

/-- Calls on names that run out of nothing, files in the first sector of inodes, and descriptors
that are open, stay within what they know of their file and write at its end. -/
def Modest (s : Handles) : Exchange → Prop
  | .name call _ => Careful s (.name call)
  | .fopen name access _ => Careful s (.fd (.fopen name access))
  | .fread fd _ _ _ => fd = -1 ∨ s.file fd ≠ none
  | .fwrite fd bytes _ => fd = -1 ∨ ∃ n i, s.file fd = some n ∧ fdIndex fd = .ok i ∧
      ((s.session.fs.fdArray i).writable = false ∨ bytes = [] ∨
        Appending ((volume s.session.fs.disk).inode n) (s.session.fs.fdArray i) bytes)
  | .fseek fd offset => fd = -1 ∨ ∃ n i, s.file fd = some n ∧ fdIndex fd = .ok i ∧
      offset ≤ (s.session.fs.fdArray i).size
  | _ => True

/-! ## The magic number -/

variable {i : Nat} {r : Fin 8} {I I' : Fin 8 → Inode} {buf : Nat → UInt8} {size w w' : UInt32}
  {σ σ' : FsState}

theorem fwriteLoop_geometry {fuel : Nat} {stores : List (Nat × Nat)}
    (h : fwriteLoop i r buf fuel I size w σ = .ok (σ', I', w', stores)) :
    SameGeometry σ.superBlock σ'.superBlock := by
  induction fuel generalizing I size w σ stores with
  | zero => cases h
  | succ fuel ih =>
      rw [fwriteLoop] at h
      split at h
      case isTrue =>
          cases h
          exact .refl _
      case isFalse =>
          dsimp only at h
          split at h
          case isTrue =>
              obtain ⟨p, -, h⟩ := bind_eq_ok.mp h
              have hrest := ih h
              exact hrest
          case isFalse =>
              have halloc := darrayAllocLoop_geometry (256 - σ.smapIndex) σ
              split at h
              case h_1 σ₁ hrun =>
                  rw [darrayAlloc] at hrun
                  rw [hrun] at halloc
                  cases h
                  exact halloc
              case h_2 σ₁ d hrun =>
                  rw [darrayAlloc] at hrun
                  rw [hrun] at halloc
                  obtain ⟨I₁, -, h⟩ := bind_eq_ok.mp h
                  obtain ⟨⟨σ₂, I₂, w₂, rest⟩, hloop, h⟩ := bind_eq_ok.mp h
                  cases h
                  exact halloc.trans (ih hloop)

theorem fwrite_geometry {fd : Int} {written : UInt32}
    (h : fwrite fd buf size σ = .ok (σ', written)) :
    SameGeometry σ.superBlock σ'.superBlock := by
  obtain ⟨stores, h⟩ := fwrite_eq_ok.mp h
  unfold fwriteStores at h
  split at h
  case isTrue =>
      cases h
      exact .refl _
  case isFalse =>
      obtain ⟨i, -, h⟩ := bind_eq_ok.mp h
      split at h
      case isTrue =>
          cases h
          exact .refl _
      case isFalse =>
          obtain ⟨⟨σ₁, I₁, w₁, rest⟩, hloop, h⟩ := bind_eq_ok.mp h
          cases h
          have hgeometry := fwriteLoop_geometry hloop
          exact hgeometry

/-! ## The refinement -/

/-- Descriptor `fd` of inode `n` is the open file `f`. -/
structure StandsFor (σ : FsState) (data : Path → List UInt8) (fd : Int) (n : Nat) (f : Opened) :
    Prop where
  path : (volume σ.disk).resolve f.path = some n
  entry : ∃ i, fdIndex fd = .ok i ∧ (σ.fdArray i).access = f.access ∧
    (σ.fdArray i).offset.toNat = f.offset ∧ (σ.fdArray i).size.toNat = f.size
  offset : f.offset ≤ f.size
  size : f.size ≤ (data f.path).length

structure Refines (s : Handles) (a : FileTree) : Prop where
  tracked : Tracked s
  restartable : Restartable s.session.fs a.tree
  files : FilesOf (volume s.session.fs.disk) a.data
  opened : ∀ fd, fd ∈ s.session.opened ↔ s.file fd ≠ none
  vacant : ∀ fd, s.file fd = none → a.handle fd = none
  handle : ∀ fd n, s.file fd = some n →
    ∃ f, a.handle fd = some f ∧ StandsFor s.session.fs a.data fd n f

theorem Restartable.congr {a : PathTree} (h : Restartable σ a) (fdArray : Nat → Fd)
    (fdArraySlist : Slist) : Restartable { σ with fdArray, fdArraySlist } a :=
  ⟨h.mounted.congr _ _, ⟨h.represents.kind, h.represents.here⟩, h.magic⟩

/-- What a descriptor knows does not depend on the rest of memory. -/
theorem StandsFor.congr {data data' : Path → List UInt8} {fd : Int} {n : Nat} {f : Opened}
    (h : StandsFor σ data fd n f)
    (hpath : (volume σ'.disk).resolve f.path = (volume σ.disk).resolve f.path)
    (hfds : ∀ i, fdIndex fd = .ok i → σ'.fdArray i = σ.fdArray i)
    (hdata : (data f.path).length ≤ (data' f.path).length) : StandsFor σ' data' fd n f := by
  obtain ⟨i, hi, hentry⟩ := h.entry
  exact ⟨hpath.trans h.path, ⟨i, hi, by rw [hfds i hi]; exact hentry⟩, h.offset, h.size.trans hdata⟩

namespace Refines

variable {s t : Handles} {a : FileTree} {fd : Int} {n : Nat}

theorem mounted (h : Refines s a) : Mounted s.session.fs := h.restartable.mounted

theorem tree (h : Refines s a) : (volume s.session.fs.disk).Tree := h.mounted.consistent.tree

theorem handle_isSome (h : Refines s a) (fd : Int) : (a.handle fd).isSome ↔ s.file fd ≠ none := by
  cases hfile : s.file fd with
  | none => simp [h.vacant fd hfile]
  | some n =>
      obtain ⟨f, hf, -⟩ := h.handle fd n hfile
      simp [hf]

theorem minus (h : Refines s a) : a.handle (-1) = none := by
  refine h.vacant (-1) ?_
  cases hfile : s.file (-1) with
  | none => rfl
  | some n =>
      obtain ⟨i, hi, -⟩ := (h.tracked.file _ n hfile).index
      exact absurd rfl (ne_minus_of_fdIndex hi)

/-! ### Names -/

theorem name (h : Refines s a) {call : NameCall} (hcareful : Careful s (.name call)) :
    ∃ tree, call.act a.tree = (tree, (call.run s.session.fs).2) ∧
      Refines ⟨⟨(call.run s.session.fs).1, s.session.opened⟩, s.file⟩ { a with tree } := by
  have hstep := nameSystem_run call s.session.fs hcareful.1 hcareful.2
  have hnext := nameSystem_step h.mounted hstep
  have hkeeps := NameCall.keepsFiles h.mounted hstep
  have hrestartable := h.restartable.call hstep
  obtain ⟨tree, hact, -⟩ := h.restartable.represents.step h.mounted
    (Prod.mk.eta (p := call.run s.session.fs)).symm hcareful.1 hcareful.2
  rw [hact] at hrestartable
  refine ⟨tree, hact, h.tracked.name hstep, hrestartable,
    h.files.keeps hkeeps h.tracked.aligned h.tree hrestartable.mounted.consistent.tree,
    h.opened, h.vacant, fun fd n hfile => ?_⟩
  obtain ⟨f, hf, hstands⟩ := h.handle fd n hfile
  have hkept := hkeeps.path f.path n hstands.path (h.tracked.file fd n hfile).not_dir
  exact ⟨f, hf, hstands.congr (hkept.trans hstands.path.symm)
    (fun i _ => by rw [hnext.fdArray]) le_rfl⟩

/-! ### Descriptors -/

/-- The name of the current directory leads to the inode that is found. -/
theorem resolve_place (h : Refines s a) {name : CString}
    (hexist : (isFileExist name s.session.fs).toNat ≠ 0) :
    (volume s.session.fs.disk).resolve (a.place name) =
      some (isFileExist name s.session.fs).toNat := by
  obtain ⟨p, hp, hlive, -, hcontent⟩ := h.restartable.represents.current h.mounted
  rw [FileTree.place, Volume.resolve_name _ _ hp, ← Volume.find_ino hlive name.noZero, hcontent]
  unfold isFileExist at hexist ⊢
  cases hfind : s.session.fs.currentDir.find name.bytes with
  | none =>
      rw [hfind] at hexist
      exact absurd rfl hexist
  | some k => rfl

theorem kind_place (h : Refines s a) (name : CString) :
    a.tree.kind (a.place name) = some .file ↔
      (isFileExist name s.session.fs).toNat ≠ 0 ∧
        ((volume s.session.fs.disk).inode (isFileExist name s.session.fs).toNat).type =
          fileNormal := by
  by_cases hexist : (isFileExist name s.session.fs).toNat = 0
  · have hnone : a.tree.kind (a.place name) = none := by
      by_contra hkind
      have hne := (h.restartable.represents.isFileExist_iff h.mounted).mp hkind
      exact hne (UInt32.toNat_inj.mp hexist)
    simp [hnone, hexist]
  · have hplace := h.resolve_place hexist
    rw [h.restartable.represents.kind, hplace, Option.map_some, Option.some.injEq]
    constructor
    · intro hkind
      have hfile : ¬ (volume s.session.fs.disk).isDir (isFileExist name s.session.fs).toNat := by
        intro hdir
        rw [Volume.kindOf_dir hdir] at hkind
        cases hkind
      exact ⟨hexist, (h.files.file _ _ hplace hfile).type⟩
    · rintro ⟨-, htype⟩
      refine Volume.kindOf_file ?_
      rw [Volume.isDir, htype]
      decide

end Refines

/-- Why `fopen` fails. -/
theorem fopen_refused {free : List Nat} (himpl : Implements σ.fdArraySlist fdArraySlistSize free)
    {name : CString} {access : UInt32} (h : (fopen name access σ).2 = -1) :
    (isFileExist name σ).toNat = 0 ∨
      (readInodes σ.disk (isFileExist name σ).toNat
        (inoRemain (isFileExist name σ).toNat)).type ≠ fileNormal ∨ free = [] := by
  by_contra hnot
  rw [not_or, not_or] at hnot
  obtain ⟨hexist, htype, hfree⟩ := hnot
  obtain ⟨t, rest, rfl⟩ := List.exists_cons_of_ne_nil hfree
  obtain ⟨ht, -, hpos, -, -⟩ := slistAlloc_cons himpl
  have hfd : ((slistAlloc σ.fdArraySlist).1 : Int) - 1 ≠ -1 := by
    rw [ht]
    omega
  rw [fopen, if_neg hexist] at h
  dsimp only at h
  rw [if_neg htype] at h
  have hne : ¬ (fdArrayAlloc σ).2 = -1 := hfd
  rw [if_neg hne] at h
  exact hne h

/-- A descriptor that the static list has not handed out is not open. -/
theorem Refines.file_free {s : Handles} {a : FileTree} (h : Refines s a) {t : Nat}
    (hfree : (s.session.fs.fdArraySlist (t + 1)).valid = false) : s.file t = none := by
  by_contra hfile
  have hvalid := (h.tracked.listed.2 t).mp ((h.opened t).mpr hfile)
  obtain ⟨j, hj, hallocated⟩ := slistIsValid_iff.mp hvalid
  obtain rfl : j = t + 1 := by omega
  exact Bool.false_ne_true (hfree.symm.trans hallocated.2.2)

theorem Refines.full {s : Handles} {a : FileTree} (h : Refines s a)
    (himpl : Implements s.session.fs.fdArraySlist fdArraySlistSize []) : a.Full := by
  intro fd hnonneg hlt hnone
  obtain ⟨t, rfl⟩ := Int.eq_ofNat_of_zero_le hnonneg
  have hlt' : (t : Int) < 64 := hlt
  have hvalid : (s.session.fs.fdArraySlist (t + 1)).valid = true := by
    by_contra hinvalid
    exact List.not_mem_nil ((himpl.mem_iff (t + 1)).mpr ⟨by omega, by
      show t + 1 < 65
      omega, by simpa using hinvalid⟩)
  have hopen := (h.tracked.listed.2 t).mpr (slistIsValid_iff.mpr ⟨t + 1, by omega, by omega, by
    show t + 1 < 65
    omega, hvalid⟩)
  have hsome := (h.handle_isSome t).mpr ((h.opened t).mp hopen)
  rw [hnone] at hsome
  cases hsome

/-! ### Steps -/

namespace Refines

variable {s t : Handles} {a : FileTree} {fd : Int} {n : Nat} (h : Refines s a)
include h

/-- An open descriptor, what it is of, and its entry. -/
theorem entry (hfile : s.file fd = some n) {i : Nat} (hi : fdIndex fd = .ok i) :
    ∃ f, a.handle fd = some f ∧ StandsFor s.session.fs a.data fd n f ∧
      (s.session.fs.fdArray i).access = f.access ∧
      (s.session.fs.fdArray i).offset.toNat = f.offset ∧
      (s.session.fs.fdArray i).size.toNat = f.size := by
  obtain ⟨f, hf, hstands⟩ := h.handle fd n hfile
  obtain ⟨j, hj, hentry⟩ := hstands.entry
  obtain rfl : j = i := Except.ok.inj (hj.symm.trans hi)
  exact ⟨f, hf, hstands, hentry⟩

/-- The descriptors when one of them has changed. -/
theorem handles_update (data' : Path → List UInt8) (f' : Opened) {i : Nat} {f : Opened}
    (hfile : s.file fd = some n) (hi : fdIndex fd = .ok i) (hf : a.handle fd = some f)
    (hpath : f'.path = f.path)
    (hresolve : ∀ path, (volume σ'.disk).resolve path =
      (volume s.session.fs.disk).resolve path)
    (hself : (σ'.fdArray i).access = f'.access ∧ (σ'.fdArray i).offset.toNat = f'.offset ∧
      (σ'.fdArray i).size.toNat = f'.size)
    (hothers : ∀ j, j ≠ i → σ'.fdArray j = s.session.fs.fdArray j)
    (hgrows : ∀ path, (a.data path).length ≤ (data' path).length)
    (hoffset : f'.offset ≤ f'.size) (hsize : f'.size ≤ (data' f.path).length) :
    ∀ fd' m, s.file fd' = some m → ∃ g, Function.update a.handle fd (some f') fd' = some g ∧
      StandsFor σ' data' fd' m g := by
  intro fd' m hfile'
  obtain ⟨g, hg, hstands⟩ := h.handle fd' m hfile'
  by_cases hfd : fd' = fd
  · subst hfd
    obtain rfl := Option.some.inj (hg.symm.trans hf)
    obtain rfl := Option.some.inj (hfile'.symm.trans hfile)
    refine ⟨f', Function.update_self _ _ _, ?_, ⟨i, hi, hself⟩, hoffset, ?_⟩
    · rw [hpath, hresolve, hstands.path]
    · rwa [hpath]
  · refine ⟨g, by rw [Function.update_of_ne hfd, hg], hstands.congr (hresolve _) (fun j hj => ?_)
      (hgrows _)⟩
    refine hothers j ?_
    rintro rfl
    exact hfd (fdIndex_inj hj hi)

theorem vacant_update {f : Option Opened} (hfile : s.file fd ≠ none) :
    ∀ fd', s.file fd' = none → Function.update a.handle fd f fd' = none := by
  intro fd' hnone
  have hne : fd' ≠ fd := by
    rintro rfl
    exact hfile hnone
  rw [Function.update_of_ne hne, h.vacant fd' hnone]

/-- The same descriptor is opened or closed on both sides. -/
theorem vacant_updates {x : Option Nat} {f : Option Opened} (hxf : x = none → f = none) :
    ∀ fd', Function.update s.file fd x fd' = none →
      Function.update a.handle fd f fd' = none := by
  intro fd' hnone
  by_cases heq : fd' = fd
  · rw [heq, Function.update_self] at hnone ⊢
    exact hxf hnone
  · rw [Function.update_of_ne heq] at hnone ⊢
    exact h.vacant fd' hnone

/-- A descriptor has moved. -/
theorem setFd (offset : UInt32) {i : Nat} {f : Opened} (hfile : s.file fd = some n)
    (hi : fdIndex fd = .ok i) (hf : a.handle fd = some f) (hle : offset.toNat ≤ f.size) :
    Refines ⟨⟨Fs.setFd i { s.session.fs.fdArray i with offset } s.session.fs,
      s.session.opened⟩, s.file⟩
      (a.setHandle fd (some { f with offset := offset.toNat })) := by
  obtain ⟨f', hf', hstands, haccess, -, hsize⟩ := h.entry hfile hi
  obtain rfl := Option.some.inj (hf.symm.trans hf')
  have htracked := h.tracked.setFd (i := i) (f := { s.session.fs.fdArray i with offset }) rfl
  refine ⟨htracked, h.restartable.congr _ _, h.files, h.opened,
    h.vacant_update (by rw [hfile]; exact Option.some_ne_none n), ?_⟩
  refine h.handles_update a.data _ hfile hi hf rfl (fun _ => rfl) ?_
    (fun j hj => setFd_other hj) (fun _ => le_rfl) hle hstands.size
  rw [setFd_self]
  exact ⟨haccess, rfl, hsize⟩

theorem fopen (string : CString) (access : UInt32)
    (hcareful : Careful s (.fd (.fopen string access)))
    (hstep : handles.step s (.fd (.fopen string access)) t) :
    ∃ b, a.Moves b (.fopen string access (Fs.fopen string access s.session.fs).2) ∧
      Refines t b := by
  have ht : t = ⟨⟨(Fs.fopen string access s.session.fs).1,
      if (Fs.fopen string access s.session.fs).2 = -1 then s.session.opened
      else insert (Fs.fopen string access s.session.fs).2 s.session.opened⟩,
      FdCall.files s (.fopen string access)⟩ := (Except.ok.inj hstep).symm
  have htracked := h.tracked.fopen string access hcareful
  obtain ⟨⟨free, himpl⟩, -⟩ := h.tracked.listed
  rcases fopen_cases himpl string access with hfail | ⟨n, k, rest, rfl, hn, htype, rfl, hk, hopen⟩
  · have hminus : (Fs.fopen string access s.session.fs).2 = -1 := by rw [hfail]
    refine ⟨a, .inl ⟨hminus, ?_, rfl⟩, ?_⟩
    · have hrefused := fopen_refused himpl hminus
      by_cases hexist : (isFileExist string s.session.fs).toNat = 0
      · exact .inl fun hkind => ((h.kind_place string).mp hkind).1 hexist
      · obtain htype | rfl := hrefused.resolve_left hexist
        · refine .inl fun hkind => htype ?_
          have hlive := h.mounted.isFileExist_live hexist
          rw [readInodes_remain _ (Volume.live_lt hlive)]
          exact ((h.kind_place string).mp hkind).2
        · exact .inr (h.full himpl)
    · have hsame : FdCall.files s (.fopen string access) = s.file := if_pos hminus
      rw [ht, hsame, hfail]
      exact h
  · have hlive := h.mounted.isFileExist_live hn
    have hplace := h.resolve_place hn
    have hminus : ¬ (k : Int) = -1 := by omega
    rw [readInodes_remain _ (Volume.live_lt hlive)] at htype hopen
    have hfd : (Fs.fopen string access s.session.fs).2 = (k : Int) := by rw [hopen]
    have hfiles : FdCall.files s (.fopen string access) =
        Function.update s.file k (some (isFileExist string s.session.fs).toNat) := by
      rw [FdCall.files, hfd]
      exact if_neg hminus
    have hkind := (h.kind_place string).mpr ⟨hn, htype⟩
    have hfree : s.file k = none :=
      h.file_free ((himpl.mem_iff (k + 1)).mp List.mem_cons_self).2.2
    have hdata := h.files.file _ _ hplace fun hdir => by
      rw [Volume.isDir, htype] at hdir
      exact absurd hdir (by decide)
    rw [hfd]
    refine ⟨_, .inr ⟨hminus, hkind, h.vacant k hfree, rfl⟩, ?_⟩
    rw [hfiles, hopen, if_neg hminus] at htracked
    rw [ht, hfiles, hopen, if_neg hminus]
    refine ⟨htracked, h.restartable.congr _ _, h.files, fun fd => ?_,
      h.vacant_updates fun hnone => absurd hnone (Option.some_ne_none _), fun fd m hfile => ?_⟩
    · change fd ∈ insert (k : Int) s.session.opened ↔ Function.update s.file k _ fd ≠ none
      rw [Finset.mem_insert, h.opened]
      by_cases heq : fd = k
      · rw [heq, Function.update_self]
        simp
      · simp [heq]
    · change Function.update s.file k _ fd = some m at hfile
      change ∃ f, Function.update a.handle k _ fd = some f ∧ _
      by_cases heq : fd = k
      · subst heq
        rw [Function.update_self] at hfile ⊢
        obtain rfl := Option.some.inj hfile
        refine ⟨_, rfl, hplace, ⟨k, hk, ?_⟩, Nat.zero_le _, le_rfl⟩
        rw [setFd_self]
        exact ⟨rfl, rfl, hdata.size⟩
      · rw [Function.update_of_ne heq] at hfile ⊢
        obtain ⟨f, hf, hstands⟩ := h.handle fd m hfile
        refine ⟨f, hf, hstands.congr rfl (fun j hj => ?_) le_rfl⟩
        refine (setFd_other (i := k) ?_).trans rfl
        rintro rfl
        exact heq (fdIndex_inj hj hk)

theorem fclose (hstep : handles.step s (.fd (.fclose fd)) t) :
    ∃ b, a.Moves b (.fclose fd (Fs.fclose fd s.session.fs).2) ∧ Refines t b := by
  obtain rfl := Except.ok.inj hstep
  have htracked := h.tracked.fclose fd
  refine ⟨_, ⟨?_, rfl⟩, ?_⟩
  · rw [Bool.eq_iff_iff, h.handle_isSome, ← h.opened, h.tracked.listed.2]
    rcases fclose_cases fd s.session.fs with ⟨hinvalid, hcall⟩ | ⟨i, hi, hallocated, hcall⟩
    · rw [hcall, hinvalid]
    · rw [hcall]
      exact iff_of_true rfl (slistIsValid_iff.mpr ⟨i, hi, hallocated⟩)
  · have hfields : ∃ slist,
        (Fs.fclose fd s.session.fs).1 = { s.session.fs with fdArraySlist := slist } := by
      rcases fclose_cases fd s.session.fs with ⟨-, hcall⟩ | ⟨i, -, -, hcall⟩
      · exact ⟨s.session.fs.fdArraySlist, by rw [hcall]⟩
      · exact ⟨_, by rw [hcall]⟩
    obtain ⟨slist, hfs⟩ := hfields
    rw [hfs] at htracked ⊢
    refine ⟨htracked, h.restartable.congr _ _, h.files, fun fd' => ?_,
      h.vacant_updates fun _ => rfl, fun fd' m hfile => ?_⟩
    · change fd' ∈ s.session.opened.erase fd ↔ Function.update s.file fd none fd' ≠ none
      rw [Finset.mem_erase, h.opened]
      by_cases heq : fd' = fd
      · simp [heq]
      · simp [heq]
    · change Function.update s.file fd none fd' = some m at hfile
      change ∃ f, Function.update a.handle fd none fd' = some f ∧ _
      by_cases heq : fd' = fd
      · rw [heq, Function.update_self] at hfile
        cases hfile
      · rw [Function.update_of_ne heq] at hfile ⊢
        obtain ⟨f, hf, hstands⟩ := h.handle fd' m hfile
        exact ⟨f, hf, hstands.congr rfl (fun _ _ => rfl) le_rfl⟩

/-! ### Reading and moving -/

theorem held (hlive : (volume s.session.fs.disk).live n = true) :
    Held (volume s.session.fs.disk) ((volume s.session.fs.disk).inode n) :=
  h.mounted.consistent.blocks.held hlive (h.tracked.aligned n hlive)

/-- The file of an open descriptor. -/
theorem data_of (hfile : s.file fd = some n) {f : Opened}
    (hstands : StandsFor s.session.fs a.data fd n f) :
    HasData (volume s.session.fs.disk) n (a.data f.path) :=
  h.files.file f.path n hstands.path (h.tracked.file fd n hfile).not_dir

theorem fread {size total : UInt32} {bytes : List UInt8} {σ' : FsState}
    (hmodest : fd = -1 ∨ s.file fd ≠ none)
    (hcall : Fs.fread fd size s.session.fs = .ok (σ', bytes, total)) :
    ∃ b, a.Moves b (.fread fd size bytes total) ∧
      Refines ⟨⟨σ', s.session.opened⟩, s.file⟩ b := by
  by_cases hminus : fd = -1
  · subst hminus
    have hnone : Fs.fread (-1) size s.session.fs = .ok (s.session.fs, [], 0) := if_pos rfl
    obtain ⟨rfl, hrest⟩ := Prod.mk.inj (Except.ok.inj (hcall.symm.trans hnone))
    obtain ⟨rfl, rfl⟩ := Prod.mk.inj hrest
    exact ⟨a, ⟨rfl, .inl ⟨h.minus, rfl, rfl⟩⟩, h⟩
  · obtain ⟨n, hfile⟩ := Option.ne_none_iff_exists'.mp (hmodest.resolve_left hminus)
    have hstands := h.tracked.file fd n hfile
    obtain ⟨i, hi, hino⟩ := hstands.index
    obtain ⟨f, hf, hopen, haccess, hoffset, hsize⟩ := h.entry hfile hi
    have hdata := h.data_of hfile hopen
    have hle := hopen.offset
    have hle' := hopen.size
    have hfit := hdata.fit
    by_cases hreadable : (s.session.fs.fdArray i).readable = true
    · have hread : f.Readable := by
        rw [Opened.Readable, ← haccess]
        simpa [Fd.readable] using hreadable
      obtain ⟨total', htotal, hcall'⟩ := fread_reads size hi hreadable hino
        (Volume.live_lt hstands.live) (h.held hstands.live) (by omega)
        (by have := hdata.room; omega) (by omega)
      obtain ⟨rfl, hrest⟩ := Prod.mk.inj (Except.ok.inj (hcall.symm.trans hcall'))
      obtain ⟨rfl, rfl⟩ := Prod.mk.inj hrest
      rw [hoffset, hsize] at htotal
      have hadvance : ((s.session.fs.fdArray i).offset + total).toNat = f.offset + total.toNat := by
        rw [UInt32.toNat_add, hoffset, Nat.mod_eq_of_lt (by omega)]
      have hnext := h.setFd ((s.session.fs.fdArray i).offset + total) hfile hi hf (by omega)
      rw [hadvance] at hnext
      refine ⟨_, ⟨(length_fileBytes _ _ _ _).symm, .inr ⟨f, hf, ?_, ?_⟩⟩, hnext⟩
      · rw [hoffset, fileBytes_piece hdata.bytes (by omega), Opened.reads, if_pos hread,
          List.drop_take, List.take_take, htotal]
      · rw [length_fileBytes]
    · have hnot : ¬ f.Readable := by
        rw [Opened.Readable, ← haccess]
        simpa [Fd.readable] using hreadable
      have hnone : Fs.fread fd size s.session.fs = .ok (s.session.fs, [], 0) :=
        fread_nothing hi (.inl (Bool.not_eq_true _ ▸ hreadable))
      obtain ⟨rfl, hrest⟩ := Prod.mk.inj (Except.ok.inj (hcall.symm.trans hnone))
      obtain ⟨rfl, rfl⟩ := Prod.mk.inj hrest
      refine ⟨a, ⟨rfl, .inr ⟨f, hf, (if_neg hnot).symm, ?_⟩⟩, h⟩
      exact (a.setHandle_self hf).symm

theorem fseek {offset : UInt32} {σ' : FsState}
    (hmodest : fd = -1 ∨ ∃ n i, s.file fd = some n ∧ fdIndex fd = .ok i ∧
      offset ≤ (s.session.fs.fdArray i).size)
    (hcall : Fs.fseek fd offset s.session.fs = .ok σ') :
    ∃ b, a.Moves b (.fseek fd offset) ∧ Refines ⟨⟨σ', s.session.opened⟩, s.file⟩ b := by
  rcases hmodest with rfl | ⟨n, i, hfile, hi, hle⟩
  · have hnone : Fs.fseek (-1) offset s.session.fs = .ok s.session.fs := if_pos rfl
    obtain rfl := Except.ok.inj (hcall.symm.trans hnone)
    exact ⟨a, .inl ⟨h.minus, rfl⟩, h⟩
  · obtain ⟨f, hf, -, -, -, hsize⟩ := h.entry hfile hi
    have hseek : Fs.fseek fd offset s.session.fs =
        .ok (Fs.setFd i { s.session.fs.fdArray i with offset } s.session.fs) := by
      rw [Fs.fseek, if_neg (ne_minus_of_fdIndex hi), hi]
      rfl
    obtain rfl := Except.ok.inj (hcall.symm.trans hseek)
    rw [UInt32.le_iff_toNat_le, hsize] at hle
    exact ⟨_, .inr ⟨f, hf, rfl⟩, h.setFd offset hfile hi hf hle⟩

end Refines

/-! ### Writing -/

theorem FileWrite.restartable {fd : Int} {n : Nat} {written : UInt32} {ds : List Nat}
    {x : Inode} {a : PathTree} (h : FileWrite fd i n buf size written ds x σ σ')
    (hrestartable : Restartable σ a) (hcall : fwrite fd buf size σ = .ok (σ', written)) :
    Restartable σ' a := by
  have hkind : (volume σ'.disk).kindOf = (volume σ.disk).kindOf := by
    funext m
    exact Volume.kindOf_congr (h.isDir_iff m)
  obtain ⟨p, hp, hlive, hpointer, -⟩ := hrestartable.represents.current h.mounted
  refine ⟨h.mounted', ⟨fun path => ?_, p, (h.resolve_eq _).trans hp,
    (h.isDir_iff p).mpr hlive.dir, ?_⟩, ?_⟩
  · rw [h.resolve_eq, hkind, hrestartable.represents.kind]
  · rw [h.block_dir hlive, hpointer, h.wrote.currentDirPointer]
  · rw [← hrestartable.magic, ← fwrite_geometry hcall]

namespace Refines

variable {s t : Handles} {a : FileTree} {fd : Int} {n : Nat} (h : Refines s a)
include h

theorem fwrite {bytes : List UInt8} {written : UInt32} {σ' : FsState}
    (hmodest : Modest s (.fwrite fd bytes written))
    (hcall : Fs.fwrite fd (source bytes) (UInt32.ofNat bytes.length) s.session.fs =
      .ok (σ', written)) :
    ∃ b, a.Moves b (.fwrite fd bytes written) ∧
      Refines ⟨⟨σ', s.session.opened⟩, s.file⟩ b := by
  rcases hmodest with rfl | ⟨n, i, hfile, hi, hrequest⟩
  · have hnone : Fs.fwrite (-1) (source bytes) (UInt32.ofNat bytes.length) s.session.fs =
        .ok (s.session.fs, 0) := rfl
    obtain ⟨rfl, rfl⟩ := Prod.mk.inj (Except.ok.inj (hcall.symm.trans hnone))
    exact ⟨a, .inl ⟨h.minus, rfl, rfl⟩, h⟩
  obtain ⟨f, hf, hopen, haccess, hoffset, hsize⟩ := h.entry hfile hi
  have hwritable : (s.session.fs.fdArray i).writable = true ↔ f.Writable := by
    rw [Opened.Writable, ← haccess]
    simp [Fd.writable]
  by_cases hnothing : (s.session.fs.fdArray i).writable = false ∨ bytes = []
  · have hnone : Fs.fwrite fd (source bytes) (UInt32.ofNat bytes.length) s.session.fs =
        .ok (s.session.fs, 0) :=
      fwrite_nothing _ hi (hnothing.imp_right fun hnil => by rw [hnil]; rfl)
    obtain ⟨rfl, rfl⟩ := Prod.mk.inj (Except.ok.inj (hcall.symm.trans hnone))
    refine ⟨a, .inr ⟨f, hf, .inl ⟨rfl, ?_, rfl⟩⟩, h⟩
    rcases hnothing with hnot | hnil
    · refine .inl fun hw => ?_
      rw [hwritable.mpr hw] at hnot
      cases hnot
    · exact .inr (.inl hnil)
  rw [not_or, Bool.not_eq_false] at hnothing
  obtain ⟨hend, hfit, hgoes⟩ :=
    (hrequest.resolve_left (by simp [hnothing.1])).resolve_left hnothing.2
  have hdata := h.data_of hfile hopen
  have hlength : (UInt32.ofNat bytes.length).toNat = bytes.length := by
    rw [UInt32.toNat_ofNat']
    exact Nat.mod_eq_of_lt (by omega)
  have hstart : (s.session.fs.fdArray i).offset.toNat = (a.data f.path).length := by
    rw [hend, hdata.size]
  have hdirect : Direct ((volume s.session.fs.disk).inode n) (s.session.fs.fdArray i)
      (UInt32.ofNat bytes.length) := by
    refine ⟨?_, by rwa [hlength]⟩
    rw [hstart]
    exact hdata.room
  obtain ⟨written', ds, x, τ, hwrite, hcall'⟩ :=
    h.tracked.fileWrite (source bytes) hfile hi hnothing.1 hdirect
  obtain ⟨rfl, rfl⟩ := Prod.mk.inj (Except.ok.inj (hcall.symm.trans hcall'))
  have htracked := h.tracked.fwrite (source bytes)
    ⟨n, i, hfile, hi, .inr (.inr hdirect)⟩ hcall
  have hrestartable := hwrite.restartable h.restartable hcall
  have hself := hwrite.wrote.fd_self
  have hold := hopen.offset
  have hold' := hopen.size
  rcases hwrite.request.outcome hwrite.wrote with ⟨rfl, -, hroom⟩ | ⟨rfl, hshort⟩
  · -- all is written
    rw [hlength, hstart] at hroom
    have hnew := hwrite.appended hdata hlength hstart hroom (by rwa [← hstart])
    refine ⟨_, .inr ⟨f, hf, .inr ⟨hwritable.mp hnothing.1, ?_, hlength, rfl⟩⟩, htracked,
      hrestartable, hwrite.filesOf h.files h.tracked.aligned hopen.path hnew, h.opened,
      h.vacant_update (by rw [hfile]; exact Option.some_ne_none n), ?_⟩
    · rw [← hoffset, hstart]
    · refine h.handles_update _ { f with
        offset := f.offset + bytes.length, size := f.size + bytes.length } hfile hi hf rfl
        hwrite.resolve_eq ?_ (fun j hj => hwrite.wrote.fd_other hj)
        (fun path => (a.data_prefix_append f.path bytes path).length_le) ?_ ?_
      · rw [hself, Fd.advance]
        refine ⟨haccess, ?_, ?_⟩
        · rw [UInt32.toNat_add, hlength, hoffset, Nat.mod_eq_of_lt (by omega)]
        · rw [UInt32.toNat_add, hlength, hsize, Nat.mod_eq_of_lt (by omega)]
      · show f.offset + _ ≤ f.size + _
        omega
      · change f.size + _ ≤ ((a.append f.path bytes).data f.path).length
        rw [a.data_append_self, List.length_append]
        omega
  · -- there was no block
    have hsame := hwrite.filesOf h.files h.tracked.aligned hopen.path
      (hwrite.refused hdata hstart)
    rw [Function.update_eq_self] at hsame
    refine ⟨a, .inr ⟨f, hf, .inl ⟨rfl, .inr (.inr ?_), rfl⟩⟩, htracked, hrestartable, hsame,
      h.opened, h.vacant, ?_⟩
    · have hmissing : missing i n (UInt32.ofNat bytes.length) s.session.fs ≠ 0 := by
        intro hzero
        rw [hzero] at hshort
        exact hshort ⟨[], _, rfl, .nil _⟩
      have haligned := hwrite.request.held.aligned
      have hroom := hdata.room
      rw [missing, blocksFor, Inode.blocks, hlength] at hmissing
      rw [Opened.NeedsBlock]
      omega
    · have hkept := h.handles_update a.data f hfile hi hf rfl
        hwrite.resolve_eq ?_ (fun j hj => hwrite.wrote.fd_other hj) (fun _ => le_rfl) hold hold'
      · rw [← hf, Function.update_eq_self] at hkept
        exact hkept
      · rw [hself]
        simp only [Fd.advance, UInt32.add_zero]
        exact ⟨haccess, hoffset, hsize⟩

end Refines

/-! ### Restarts -/

theorem refines_restarted {a : PathTree} {data : Path → List UInt8}
    (hrestartable : Restartable σ a)
    (haligned : ∀ n, (volume σ.disk).live n = true →
      ((volume σ.disk).inode n).sizeAllocated.toNat % 512 = 0)
    (hfiles : FilesOf (volume σ.disk) data) (u : MkfsLocals) (memory : FsState) :
    Refines (restarted u memory σ.disk) ⟨{ a with here := [] }, data, fun _ => none⟩ := by
  have hnext := hrestartable.restart u memory
  have hdisk : (initFileSystem u { memory with disk := σ.disk }).disk = σ.disk := by
    rw [initFileSystem_mounts u memory hrestartable.mounted.cached hrestartable.magic]
    rfl
  refine ⟨⟨hnext.mounted, ?_, listed_boot u _, nofun⟩, hnext, ?_, fun fd => ?_, fun _ _ => rfl,
    nofun⟩
  · change ∀ n, (volume (initFileSystem u { memory with disk := σ.disk }).disk).live n = true → _
    rw [restarted, hdisk]
    exact haligned
  · rw [restarted, hdisk]
    exact hfiles
  · simp [restarted]

theorem refines_mkfs (u v : MkfsLocals) (σ₀ memory : FsState) :
    Refines (restarted v memory (mkfs u σ₀).disk) .empty := by
  obtain ⟨hmounted, hempty⟩ := mkfs_mount_mounted u σ₀
  have hformatted := mkfsDisk_formatted u σ₀.disk
  have haligned : ∀ n, (volume (mount (mkfs u σ₀)).disk).live n = true →
      ((volume (mount (mkfs u σ₀)).disk).inode n).sizeAllocated.toNat % 512 = 0 := by
    intro n hn
    by_cases hdir : (volume (mount (mkfs u σ₀)).disk).isDir n
    · rw [hmounted.consistent.blocks.dirs n ⟨hn, hdir⟩]
      rfl
    · rw [hempty n hn hdir]
      rfl
  have hfiles : FilesOf (volume (mount (mkfs u σ₀)).disk) fun _ => [] := by
    refine ⟨fun _ _ => rfl, fun path n hn hfile => ?_⟩
    have hroot := hn.symm.trans (hformatted.represents path)
    split at hroot
    case isTrue =>
        obtain rfl := Option.some.inj hroot
        exact absurd hformatted.rootDir hfile
    case isFalse => cases hroot
  exact refines_restarted (mkfs_mount_restartable u σ₀) haligned hfiles v memory

/-! ## Runs -/

/-- A call that opens and closes nothing changes the file system only. -/
theorem step_of_run {s t : Handles} {call : FdCall}
    (hcalled : call.run s.session = .ok ⟨σ', s.session.opened⟩) (hfiles : call.files s = s.file)
    (hrun : handles.step s (.fd call) t) : t = ⟨⟨σ', s.session.opened⟩, s.file⟩ := by
  obtain ⟨session, hsession, ht⟩ := bind_eq_ok.mp hrun
  obtain rfl := Except.ok.inj (hsession.symm.trans hcalled)
  rw [hfiles] at ht
  exact (Except.ok.inj ht).symm

/-- One exchange on the disk is one on the tree of files. -/
theorem Refines.step {s t : Handles} {a : FileTree} (h : Refines s a) {exchange : Exchange}
    (hstep : (fileSystem.restrict Modest).step s exchange t) :
    ∃ b, fileTreeSystem.step a exchange b ∧ Refines t b := by
  obtain ⟨hmodest, hleads⟩ := hstep
  cases exchange with
  | name call answer =>
      obtain ⟨rfl, hrun⟩ := hleads
      obtain rfl := Except.ok.inj hrun
      obtain ⟨tree, hact, hnext⟩ := h.name hmodest
      exact ⟨_, ⟨tree, hact, rfl⟩, hnext⟩
  | fopen string access fd =>
      obtain ⟨rfl, hrun⟩ := hleads
      exact h.fopen string access hmodest hrun
  | fclose fd closed =>
      obtain ⟨rfl, hrun⟩ := hleads
      exact h.fclose hrun
  | fread fd size bytes total =>
      obtain ⟨⟨σ', hcall⟩, hrun⟩ := hleads
      have hcalled : FdCall.run (.fread fd size) s.session = .ok ⟨σ', s.session.opened⟩ := by
        rw [FdCall.run, hcall]
        rfl
      obtain rfl := step_of_run hcalled rfl hrun
      exact h.fread hmodest hcall
  | fwrite fd bytes written =>
      obtain ⟨⟨σ', hcall⟩, hrun⟩ := hleads
      have hcalled : FdCall.run (.fwrite fd (source bytes) (UInt32.ofNat bytes.length)) s.session =
          .ok ⟨σ', s.session.opened⟩ := by
        rw [FdCall.run, hcall]
        rfl
      obtain rfl := step_of_run hcalled rfl hrun
      exact h.fwrite hmodest hcall
  | fseek fd offset =>
      obtain ⟨session, hsession, -⟩ := bind_eq_ok.mp hleads
      obtain ⟨σ', hcall, heq⟩ := bind_eq_ok.mp hsession
      obtain rfl := Except.ok.inj heq
      obtain rfl := step_of_run hsession rfl hleads
      exact h.fseek hmodest hcall
  | restart u memory =>
      obtain rfl := hleads
      exact ⟨_, rfl, refines_restarted h.restartable h.tracked.aligned h.files u memory⟩

theorem Refines.run {s t : Handles} {a : FileTree} (h : Refines s a) {exchanges : List Exchange}
    (run : (fileSystem.restrict Modest).Run s exchanges t) :
    ∃ b, fileTreeSystem.Run a exchanges b ∧ Refines t b := by
  refine run.simulate (I := fun _ => True) (P := fun _ => True) (fun _ _ _ _ _ => trivial)
    (fun _ _ _ _ _ _ => trivial) (fun _ _ _ _ _ hrefines hstep _ => hrefines.step hstep)
    trivial h trivial

/-- The bytes of the file at a path of the disk. -/
def storedAt (v : Volume) (path : Path) : Option (List UInt8) :=
  (v.resolve path).bind fun n =>
    if v.isDir n then none else some (fileBytes v (v.inode n) 0 (v.inode n).size.toNat)

theorem Refines.storedAt_eq {s : Handles} {a : FileTree} (h : Refines s a) (path : Path) :
    storedAt (volume s.session.fs.disk) path =
      if a.tree.kind path = some .file then some (a.data path) else none := by
  rw [h.restartable.represents.kind, storedAt]
  cases hn : (volume s.session.fs.disk).resolve path with
  | none => rfl
  | some n =>
      rw [Option.bind_some, Option.map_some]
      by_cases hdir : (volume s.session.fs.disk).isDir n
      · rw [if_pos hdir, Volume.kindOf_dir hdir, if_neg (by decide)]
      · have hdata := h.files.file path n hn hdir
        rw [if_neg hdir, Volume.kindOf_file hdir, if_pos rfl, hdata.size, hdata.bytes]

/-- The first boot after `mkfs`. -/
def bootedHandles : Handles :=
  restarted blankLocals blankFs (mkfs blankLocals blankFs).disk

def firstFile : Handles := openNext fileName (touchAll [fileName] bootedHandles)

def firstExchanges : List Exchange :=
  [.name (.touch fileName) none, .fopen fileName oRdwr 0]

theorem firstFile_run :
    (fileSystem.restrict Modest).Run bootedHandles firstExchanges firstFile := by
  have htouch : (touch fileName bootedHandles.session.fs).2 = none := by decide +kernel
  have hcareful : Careful bootedHandles (.name (.touch fileName)) := by
    change (touch fileName bootedHandles.session.fs).2 ≠ _ ∧
      (touch fileName bootedHandles.session.fs).2 ≠ _
    rw [htouch]
    exact ⟨nofun, nofun⟩
  have hopen : Careful (touchAll [fileName] bootedHandles) (.fd (.fopen fileName oRdwr)) := by
    intro _
    decide +kernel
  have hfd : (fopen fileName oRdwr (touchAll [fileName] bootedHandles).session.fs).2 = 0 := by
    decide +kernel
  have hfirst : (fileSystem.restrict Modest).step bootedHandles (.name (.touch fileName) none)
      (touchAll [fileName] bootedHandles) := ⟨hcareful, htouch, rfl⟩
  exact .snoc (.single hfirst) ⟨hopen, hfd, openNext_step _ _⟩

/-- Whatever is called after the boot from a new file system, and however often the kernel is
restarted, the tree of files takes the same calls with the same answers, and the disk holds its
files. -/
theorem file_tree_of_run (u v : MkfsLocals) (σ₀ memory : FsState) {exchanges : List Exchange}
    {s : Handles}
    (run : (fileSystem.restrict Modest).Run (restarted v memory (mkfs u σ₀).disk) exchanges s) :
    ∃ a, fileTreeSystem.Run .empty exchanges a ∧ Represents s.session.fs a.tree ∧
      ∀ path, storedAt (volume s.session.fs.disk) path =
        if a.tree.kind path = some .file then some (a.data path) else none := by
  obtain ⟨a, hrun, h⟩ := (refines_mkfs u v σ₀ memory).run run
  exact ⟨a, hrun, h.restartable.represents, h.storedAt_eq⟩

/-- A new file is opened. -/
theorem file_tree_opened :
    ∃ a, fileTreeSystem.Run .empty firstExchanges a ∧ Represents firstFile.session.fs a.tree ∧
      ∀ path, storedAt (volume firstFile.session.fs.disk) path =
        if a.tree.kind path = some .file then some (a.data path) else none :=
  file_tree_of_run blankLocals blankLocals blankFs blankFs firstFile_run

end UcasOs.Fs
