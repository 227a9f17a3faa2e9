import UcasOs.Fs.Namespace

/-!
# Absolute and relative paths

`parse_path` walks an absolute path on the disk, `cd` looks a name up in the
copy of the current directory.  Walking a path at once and entering its
directories one after the other come to the same place.
-/

namespace UcasOs.Fs

open UcasOs.Foundation UcasOs.Libs

/-- A name between two separators of a path. -/
structure Component where
  name : CString
  nonempty : name.bytes ≠ []
  noSeparator : backslash ∉ name.bytes
  ne_dot : name.bytes ≠ [dot]
  ne_dots : name.bytes ≠ [dot, dot]

/-- The absolute path, each name behind a separator. -/
def joined (cs : List Component) : List UInt8 := cs.flatMap fun c => backslash :: c.name.bytes

theorem joined_noZero (cs : List Component) : 0 ∉ joined cs := by
  intro hmem
  obtain ⟨c, -, hc⟩ := List.mem_flatMap.mp hmem
  cases hc with
  | tail _ hzero => exact c.name.noZero hzero

def absolute (cs : List Component) : CString := ⟨joined cs, joined_noZero cs⟩

def rootPath : CString := ⟨[backslash], by decide⟩

/-- Entering one directory after the other, up to the first that fails. -/
def cdAll : List CString → FsState → Option FsState
  | [], σ => some σ
  | s :: rest, σ =>
      match cd s σ with
      | (σ, none) => cdAll rest σ
      | (_, some _) => none

/-! ## One call of `cd` -/

/-- The first block of a directory, and nothing for another inode. -/
def dirBlock (disk : Store) (ino : UInt32) : Option UInt32 :=
  let inode := readInodes disk ino.toNat (inoRemain ino.toNat)
  if inode.type ≠ fileDir then none else some (inode.pointers 0)

/-- The directory that `cd` enters for the inode that it found. -/
def reaches (disk : Store) (target : Option UInt32) : Option UInt32 :=
  (target.filter (· ≠ 0xffffffff)).bind (dirBlock disk)

variable {σ : FsState} {s : CString} {cs : List Component}

theorem strcmp_ne {t : List UInt8} (ht : 0 ∉ t) (h : s.bytes ≠ t) : ¬ strcmp t s.bytes = 0 := by
  rw [strcmp_eq_zero_iff, untilZero_of_noZero ht, untilZero_of_noZero s.noZero]
  exact h.symm

theorem cd_enters {p : UInt32} (hdots : s.bytes ≠ [dot, dot]) (hdot : s.bytes ≠ [dot])
    (h : reaches σ.disk (cdTarget s σ) = some p) : cd s σ = (enterDir p σ, none) := by
  obtain ⟨ino, htarget, hblock⟩ := Option.bind_eq_some_iff.mp h
  unfold dirBlock at hblock
  dsimp only at hblock
  unfold cd
  rw [if_neg (strcmp_ne (by decide) hdots), if_neg (strcmp_ne (by decide) hdot), htarget]
  dsimp only
  split at hblock
  case isTrue => cases hblock
  case isFalse htype =>
      rw [if_neg htype, Option.some.inj hblock]

theorem cd_stays (hdots : s.bytes ≠ [dot, dot]) (hdot : s.bytes ≠ [dot])
    (h : reaches σ.disk (cdTarget s σ) = none) : ∃ m, cd s σ = (σ, some m) := by
  unfold cd
  rw [if_neg (strcmp_ne (by decide) hdots), if_neg (strcmp_ne (by decide) hdot)]
  split
  case h_1 => exact ⟨_, rfl⟩
  case h_2 ino htarget =>
      rw [reaches, htarget] at h
      change dirBlock σ.disk ino = none at h
      unfold dirBlock at h
      dsimp only at h
      split at h
      case isTrue htype => exact ⟨_, if_pos htype⟩
      case isFalse => cases h

/-! ## A path -/

theorem joined_cons (c : Component) (cs : List Component) :
    joined (c :: cs) = backslash :: (c.name.bytes ++ joined cs) := rfl

/-- The names of a consistent volume never name the inode that stands for none. -/
theorem reaches_eq {target : Option UInt32} (hlive : ∀ ino ∈ target, ino.toNat < inodeItemNum) :
    reaches σ.disk target = target.bind (dirBlock σ.disk) := by
  cases target with
  | none => rfl
  | some ino =>
      have hne : ino ≠ 0xffffffff := by
        intro heq
        have hlt := hlive ino rfl
        rw [heq] at hlt
        exact absurd hlt (by decide)
      rw [reaches, Option.filter_some, if_pos (decide_eq_true hne)]

theorem cdTarget_component (c : Component) (σ : FsState) :
    cdTarget c.name σ =
      (σ.currentDir.find c.name.bytes).map fun i => (σ.currentDir.map i).ino := by
  refine if_neg fun hhead => c.noSeparator ?_
  exact List.mem_of_mem_head? (Option.mem_def.mpr hhead)

/-- The last name of a path. -/
theorem parseFrom_last (c : Component) (disk : Store) (d : Dir) :
    parseFrom disk d c.name.bytes = (d.find c.name.bytes).map fun i => (d.map i).ino := by
  rw [parseFrom]
  split
  case h_1 pos hpos => exact nomatch (separate_none c.noSeparator).symm.trans hpos
  case h_2 => rfl

/-- A name with more of the path behind it. -/
theorem parseFrom_cons (c : Component) (disk : Store) (d : Dir) (rest : List UInt8) :
    parseFrom disk d (c.name.bytes ++ backslash :: rest) =
      ((d.find c.name.bytes).bind fun i => dirBlock disk (d.map i).ino).bind fun p =>
        parseFrom disk (sdread disk p) rest := by
  have hsep := separate_append c.noSeparator rest
  rw [parseFrom]
  split
  case h_1 pos hpos =>
      obtain rfl : c.name.bytes.length = pos := Option.some.inj (hsep.symm.trans hpos)
      rw [List.take_left, List.append_cons, List.drop_left' (by simp)]
      split
      case h_1 i hfind =>
          rw [hfind]
          dsimp only [Option.bind, dirBlock]
          split
          case isTrue => rfl
          case isFalse => rfl
      case h_2 hfind =>
          rw [hfind]
          rfl
  case h_2 hnone => cases hsep.symm.trans hnone

/-- Entering the names of a path one after the other is looking the path up and entering what
is found. -/
theorem cdAll_eq (h : Mounted σ) (c : Component) (cs : List Component) :
    cdAll ((c :: cs).map Component.name) σ =
      (reaches σ.disk (parseFrom σ.disk σ.currentDir (c.name.bytes ++ joined cs))).map
        (enterDir · σ) := by
  induction cs generalizing c σ with
  | nil =>
      rw [joined, List.flatMap_nil, List.append_nil, parseFrom_last, ← cdTarget_component]
      cases hreach : reaches σ.disk (cdTarget c.name σ) with
      | none =>
          obtain ⟨m, hcd⟩ := cd_stays c.ne_dots c.ne_dot hreach
          simp only [List.map_cons, cdAll, hcd, Option.map_none]
      | some p =>
          have hcd := cd_enters c.ne_dots c.ne_dot hreach
          simp only [List.map_cons, List.map_nil, cdAll, hcd, Option.map_some]
  | cons next cs ih =>
      rw [joined_cons, parseFrom_cons]
      have hblock : ((σ.currentDir.find c.name.bytes).bind fun i =>
          dirBlock σ.disk (σ.currentDir.map i).ino) = reaches σ.disk (cdTarget c.name σ) := by
        rw [reaches_eq fun ino hino => Volume.live_lt (cdTarget_live h hino), cdTarget_component, Option.bind_map]
        rfl
      rw [hblock]
      cases hreach : reaches σ.disk (cdTarget c.name σ) with
      | none =>
          obtain ⟨m, hcd⟩ := cd_stays c.ne_dots c.ne_dot hreach
          simp only [List.map_cons, cdAll, hcd]
          rfl
      | some p =>
          have hcd := cd_enters c.ne_dots c.ne_dot hreach
          have hmounted : Mounted (enterDir p σ) := by
            have hafter := cd_mounted (s := c.name) h
            rwa [hcd] at hafter
          rw [List.map_cons, cdAll, hcd]
          exact ih hmounted next

/-! ## The two ways -/

theorem cd_rootPath (h : Mounted σ) : cd rootPath σ = (enterDir darrayAddr σ, none) := by
  have htree := h.consistent.tree
  have hinode := readInodes_remain σ.disk (Volume.live_lt htree.root.live)
  refine cd_enters (by decide) (by decide) ?_
  have htarget : cdTarget rootPath σ = some 0 := rfl
  rw [htarget]
  change dirBlock σ.disk 0 = some darrayAddr
  unfold dirBlock
  dsimp only
  rw [show (0 : UInt32).toNat = 0 from rfl, hinode]
  refine (if_neg (not_not.mpr htree.rootDir)).trans ?_
  exact congrArg some htree.rootBlock

theorem cdTarget_absolute (c : Component) (cs : List Component) (σ : FsState) :
    cdTarget (absolute (c :: cs)) σ =
      parseFrom σ.disk (sdread σ.disk darrayAddr) (c.name.bytes ++ joined cs) := by
  have hne : ¬ strcmp (joined (c :: cs)) [backslash] = 0 := by
    rw [strcmp_eq_zero_iff, untilZero_of_noZero (joined_noZero _), joined_cons,
      untilZero_of_noZero (by decide)]
    intro heq
    exact c.nonempty (List.append_eq_nil_iff.mp (List.cons.inj heq).2).1
  have hhead : (absolute (c :: cs)).bytes.head? = some backslash := rfl
  rw [cdTarget, if_pos hhead]
  exact if_neg hne

/-- Walking an absolute path at once leads where entering its directories from the root one
after the other leads, and nowhere if that fails. -/
theorem cd_absolute {σ : FsState} (h : Mounted σ) {cs : List Component} (hcs : cs ≠ []) :
    (∀ σ', cdAll (rootPath :: cs.map Component.name) σ = some σ' →
      (cd (absolute cs) σ).1.currentDir = σ'.currentDir ∧
      (cd (absolute cs) σ).1.currentDirPointer = σ'.currentDirPointer) ∧
    (cdAll (rootPath :: cs.map Component.name) σ = none →
      (cd (absolute cs) σ).1.currentDir = σ.currentDir ∧
      (cd (absolute cs) σ).1.currentDirPointer = σ.currentDirPointer) := by
  obtain ⟨c, cs, rfl⟩ := List.exists_cons_of_ne_nil hcs
  have hroot : Mounted (enterDir darrayAddr σ) := by
    have hafter := cd_mounted (s := rootPath) h
    rwa [cd_rootPath h] at hafter
  have hall : cdAll (rootPath :: (c :: cs).map Component.name) σ =
      (reaches σ.disk (cdTarget (absolute (c :: cs)) σ)).map (enterDir · σ) := by
    rw [cdAll, cd_rootPath h, cdTarget_absolute]
    exact cdAll_eq hroot c cs
  -- an absolute path begins with a separator
  have hdots : (absolute (c :: cs)).bytes ≠ [dot, dot] := by
    intro heq
    exact absurd (List.cons.inj heq).1 (by decide)
  have hdot : (absolute (c :: cs)).bytes ≠ [dot] := by
    intro heq
    exact absurd (List.cons.inj heq).1 (by decide)
  rw [hall]
  cases hreach : reaches σ.disk (cdTarget (absolute (c :: cs)) σ) with
  | none =>
      obtain ⟨m, hcd⟩ := cd_stays hdots hdot hreach
      rw [hcd]
      exact ⟨fun σ' hσ' => (nomatch hσ'), fun _ => ⟨rfl, rfl⟩⟩
  | some p =>
      rw [cd_enters hdots hdot hreach]
      refine ⟨fun σ' hσ' => ?_, fun hnone => (nomatch hnone)⟩
      rw [← Option.some.inj hσ']
      exact ⟨rfl, rfl⟩

/-- The directory `a`. -/
def letter : Component := ⟨⟨[0x61], noZero_a⟩, by decide, by decide, by decide, by decide⟩

def letterFs : FsState := (mkdir default letter.name (mount (mkfs blankLocals blankFs))).1

theorem mkdir_mounted {junk : Dir} (h : Mounted σ) (hmade : (mkdir junk s σ).2 = none) :
    Mounted (mkdir junk s σ).1 := by
  obtain ⟨p, k, n, d, hmkdir⟩ := mkdir_spec h (Prod.ext rfl hmade)
  exact hmkdir.mounted

theorem letterFs_mounted : Mounted letterFs := by
  have hmade : (mkdir default letter.name (mount (mkfs blankLocals blankFs))).2 = none := by
    decide +kernel
  exact mkdir_mounted (mkfs_mount_mounted blankLocals blankFs).1 hmade

theorem cd_absolute_letter :
    ∃ σ', cdAll [rootPath, letter.name] letterFs = some σ' ∧
      (cd (absolute [letter]) letterFs).1.currentDir = σ'.currentDir ∧
      (cd (absolute [letter]) letterFs).1.currentDirPointer = σ'.currentDirPointer := by
  have hsome : (cdAll [rootPath, letter.name] letterFs).isSome = true := by decide +kernel
  obtain ⟨σ', hσ'⟩ := Option.isSome_iff_exists.mp hsome
  have hboth := cd_absolute letterFs_mounted (List.cons_ne_nil letter [])
  exact ⟨σ', hσ', hboth.1 σ' hσ'⟩

end UcasOs.Fs
