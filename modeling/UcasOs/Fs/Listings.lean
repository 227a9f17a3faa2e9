import UcasOs.Fs.Queries

/-!
# `ls`, `statfs` and the current directory's name

What the file system prints about itself, after any calls and restarts: the
names in the current directory in rows of five, the number of paths and of
directories, and the last name of the current path.
-/

namespace UcasOs.Fs

open UcasOs.Foundation UcasOs.Foundation.Naming UcasOs.Libs

/-! ## The functions that print -/

/-- An array of characters as the argument of a directive.  There is none where the array does not
end inside itself. -/
def nameArg {n : Nat} (name : Bytes n) : Option VaArg :=
  if 0 ∈ List.ofFn name then some (.pointer (List.ofFn name)) else none

def selfAndParent : CString := ⟨ascii ".  ..\n", by decide⟩

def entryFormat : CString := ⟨ascii "%s  ", by decide⟩

def newline : CString := ⟨ascii "\n", by decide⟩

def lsLoop (d : Dir) : List (Fin maxDirItemNum) → Nat → Option (List UInt8)
  | [], j => if j ≠ 0 then printks newline [] else some []
  | i :: is, j =>
      if (d.map i).valid ≠ 0 then do
        let name ← nameArg (d.map i).name
        let entry ← printks entryFormat [name]
        if j = 4 then
          let line ← printks newline []
          let rest ← lsLoop d is 0
          return entry ++ line ++ rest
        else
          let rest ← lsLoop d is (j + 1)
          return entry ++ rest
      else lsLoop d is j

/-- All that is printed, one `printks` after the other. -/
def ls (σ : FsState) : Option (List UInt8) := do
  let header ← printks selfAndParent []
  let entries ← lsLoop σ.currentDir (List.finRange maxDirItemNum) 0
  return header ++ entries

def usedFormat : CString :=
  ⟨ascii "[FS] used inode items: %d/%d,  used data blocks: %d/%d.\n", by decide⟩

def magicFormat : CString :=
  ⟨ascii "[FS] magic number: 0x%08X,  start address: 0x%08x.\n", by decide⟩

def imapFormat : CString :=
  ⟨ascii "[FS] inode  map offset: %d sector(s),  occupied: %d sector(s)\n", by decide⟩

def smapFormat : CString :=
  ⟨ascii "[FS] sector map offset: %d sector(s),  occupied: %d sector(s)\n", by decide⟩

def offsetFormat : CString :=
  ⟨ascii "[FS] inode offset: %d sector(s),  data offset: %d sector(s).\n", by decide⟩

def sizeFormat : CString :=
  ⟨ascii "[FS] inode size: %d byte(s),  directory size: %d byte(s).\n", by decide⟩

theorem magicPlace_lt : 78 < 118 := by decide

def statfs (σ : FsState) : Option (List UInt8) := do
  let s : SuperBlock := sdread σ.disk fsBase
  let used ← printks usedFormat
    [.word s.inodeUsed, .word s.inodeNumber, .word s.dataUsed, .word s.dataNumber]
  let magic ← printks magicFormat [.word (s.reserved ⟨78, magicPlace_lt⟩), .word fsBase]
  let imap ← printks imapFormat [.word s.imapOffset, .word 1]
  let smap ← printks smapFormat [.word s.smapOffset, .word 256]
  let offset ← printks offsetFormat [.word s.iarrayOffset, .word s.darrayOffset]
  let size ← printks sizeFormat [.word s.inodeSize, .word s.directorySize]
  return used ++ magic ++ imap ++ smap ++ offset ++ size

def lineFormat : CString := ⟨ascii "%s\n", by decide⟩

/-- The array whose address `get_curr_dir_name` returns. -/
def getCurrDirName (σ : FsState) : Bytes (maxNameLenth + 1) := σ.currentDir.name

/-- The command `currdir` of the shell. -/
def printCurrDir (σ : FsState) : Option (List UInt8) := do
  let s ← nameArg (getCurrDirName σ)
  printf lineFormat [s]

/-! ## Rows of five -/

def row (names : List Name) : List UInt8 := names.flatMap (· ++ [0x20, 0x20]) ++ [0x0a]

def listing : List Name → List UInt8
  | a :: b :: c :: d :: e :: rest => row [a, b, c, d, e] ++ listing rest
  | [] => []
  | rest => row rest

/-- The names as the loop of `ls` prints them when `j` stand in the row already. -/
def rowsFrom : Nat → List Name → List UInt8
  | j, [] => if j ≠ 0 then [0x0a] else []
  | j, s :: names =>
      s ++ [0x20, 0x20] ++
        if j = 4 then 0x0a :: rowsFrom 0 names else rowsFrom (j + 1) names

theorem rowsFrom_zero (names : List Name) : rowsFrom 0 names = listing names := by
  induction names using listing.induct with
  | case1 a b c d e rest ih => simp [rowsFrom, listing, row, ih]
  | case2 => rfl
  | case3 rest hfive hnil =>
      rcases rest with _ | ⟨a, _ | ⟨b, _ | ⟨c, _ | ⟨d, _ | ⟨e, rest⟩⟩⟩⟩⟩
      · exact absurd rfl hnil
      · simp [rowsFrom, listing, row]
      · simp [rowsFrom, listing, row]
      · simp [rowsFrom, listing, row]
      · simp [rowsFrom, listing, row]
      · exact absurd rfl (hfive a b c d e rest)

theorem printks_newline : printks newline [] = some [0x0a] := by decide +kernel

section

variable {n : Nat} {name : Bytes n}

theorem untilZero_ofFn_length (h : 0 ∈ List.ofFn name) :
    (untilZero (List.ofFn name)).length < n := by
  have hne : untilZero (List.ofFn name) ≠ List.ofFn name := by
    intro heq
    rw [← heq] at h
    exact zero_notMem_untilZero _ h
  have hinit : untilZero (List.ofFn name) <+: List.ofFn name := List.takeWhile_prefix _
  have hlt := lt_of_le_of_ne hinit.length_le fun hlen => hne (hinit.eq_of_length hlen)
  rwa [List.length_ofFn] at hlt

theorem nameArg_addressable (hn : n < 2 ^ 32) (h : 0 ∈ List.ofFn name) :
    nameArg name = some (.pointer (List.ofFn name)) ∧
      ∀ a ∈ [VaArg.pointer (List.ofFn name)], a.Addressable := by
  refine ⟨if_pos h, fun a ha => ?_⟩
  rw [List.mem_singleton.mp ha]
  change (List.ofFn name).length < 2 ^ 32
  rwa [List.length_ofFn]

/-- A name and a few characters behind it fit in the buffer. -/
theorem printks_name (fmt : CString) (t : List UInt8) (hn : n ≤ 64) (h : 0 ∈ List.ofFn name)
    (ht : 0 ∉ t) (hshort : t.length ≤ 2)
    (hrender : render (pieces fmt.bytes) [.pointer (List.ofFn name)] =
      some (untilZero (List.ofFn name) ++ t)) :
    printks fmt [.pointer (List.ofFn name)] = some (untilZero (List.ofFn name) ++ t) := by
  have hlen := untilZero_ofFn_length h
  rw [printks_render (nameArg_addressable (by omega) h).2 hrender, List.take_of_length_le,
    untilZero_of_noZero]
  · rw [List.mem_append, not_or]
    exact ⟨zero_notMem_untilZero _, ht⟩
  · rw [List.length_append]
    omega

end

/-! ## `ls` -/

/-- The names of the valid entries, in the order of the entries. -/
def Dir.listed (d : Dir) (is : List (Fin maxDirItemNum)) : List Name :=
  (is.filter fun i => (d.map i).valid ≠ 0).map fun i => (d.map i).nameOf

theorem lsLoop_eq {d : Dir} (hnames : ∀ i, (d.map i).valid ≠ 0 → 0 ∈ List.ofFn (d.map i).name)
    (is : List (Fin maxDirItemNum)) (j : Nat) :
    lsLoop d is j = some (rowsFrom j (d.listed is)) := by
  induction is generalizing j with
  | nil =>
      by_cases hj : j ≠ 0
      · simp [lsLoop, Dir.listed, rowsFrom, hj, printks_newline]
      · simp [lsLoop, Dir.listed, rowsFrom, hj]
  | cons i is ih =>
      by_cases hvalid : (d.map i).valid ≠ 0
      · have hzero := hnames i hvalid
        have hentry := printks_name entryFormat [0x20, 0x20] (by decide) hzero (by decide)
          (by decide) rfl
        have hlisted : d.listed (i :: is) = (d.map i).nameOf :: d.listed is := by
          simp [Dir.listed, hvalid]
        rw [lsLoop, if_pos hvalid, (nameArg_addressable (by decide) hzero).1, hlisted, rowsFrom,
          ih, ih]
        simp only [Option.bind_eq_bind, Option.bind_some, hentry, printks_newline]
        split
        · rw [List.append_assoc]
          rfl
        · rfl
      · have hlisted : d.listed (i :: is) = d.listed is := by
          simp [Dir.listed, hvalid]
        rw [lsLoop, if_neg hvalid, ih, hlisted]

theorem ls_eq {σ : FsState}
    (hnames : ∀ i, (σ.currentDir.map i).valid ≠ 0 → 0 ∈ List.ofFn (σ.currentDir.map i).name) :
    ls σ = some (ascii ".  ..\n" ++
      listing (σ.currentDir.listed (List.finRange maxDirItemNum))) := by
  have hheader : printks selfAndParent [] = some (ascii ".  ..\n") := by decide +kernel
  rw [ls, hheader, lsLoop_eq hnames, rowsFrom_zero]
  rfl

/-! ## After any calls and restarts -/

/-- What the printing functions rely on. -/
structure Shown (s : SuperBlock) (σ : FsState) (a : PathTree) : Prop where
  restartable : Restartable σ a
  dirNames : DirNames (volume σ.disk)
  filesEmpty : FilesEmpty (volume σ.disk)
  geometry : SameGeometry s σ.superBlock

section

variable {s : SuperBlock} {σ σ' : FsState} {a : PathTree}

theorem Shown.call (h : Shown s σ a) {call : NameCall} (hstep : nameSystem.step σ call σ') :
    Shown s σ' (call.act a).1 := by
  have hm := h.restartable.mounted
  have hgeometry : SameGeometry σ.superBlock σ'.superBlock := by
    obtain ⟨answer, hrun, -, -⟩ := hstep
    have hcall := call.geometry σ
    rwa [hrun] at hcall
  exact ⟨h.restartable.call hstep, dirNames_step hm h.dirNames hstep,
    (nameSystem_step hm hstep).filesEmpty h.filesEmpty, h.geometry.trans hgeometry⟩

theorem Shown.restart (h : Shown s σ a) (u : MkfsLocals) (memory : FsState) :
    Shown s (initFileSystem u { memory with disk := σ.disk }) { a with here := [] } := by
  have hcached := h.restartable.mounted.cached
  have hmounts := initFileSystem_mounts u memory hcached h.restartable.magic
  refine ⟨h.restartable.restart u memory, ?_, ?_, ?_⟩
  · rw [hmounts]
    exact h.dirNames
  · rw [hmounts]
    exact h.filesEmpty
  · rw [hmounts]
    have hgeometry := h.geometry
    rwa [← hcached.superBlock] at hgeometry

theorem shown_of_run (u : MkfsLocals) (σ₀ : FsState) {happenings : List Happening}
    (run : restartSystem.Run (mount (mkfs u σ₀)) happenings σ) :
    Shown (rootSuperBlock u.s) σ (.since happenings) := by
  induction run with
  | nil =>
      refine ⟨mkfs_mount_restartable u σ₀, mkfs_mount_dirNames u σ₀,
        (mkfs_mount_mounted u σ₀).2, ?_⟩
      rw [mkfs_mount_superBlock]
      exact .refl _
  | @snoc t σ' _ happening _ hstep ih =>
      rw [PathTree.since_concat]
      cases happening with
      | call call => exact ih.call hstep
      | restart v memory =>
          obtain rfl : σ' = initFileSystem v { memory with disk := t.disk } := hstep
          exact ih.restart v memory

/-- The directory in memory is the one at the current path. -/
theorem Shown.here (h : Shown s σ a) :
    ∃ n, (volume σ.disk).resolve a.here = some n ∧ (volume σ.disk).LiveDir n ∧
      (volume σ.disk).content n = σ.currentDir := by
  obtain ⟨n, hpath, hdir, hblock⟩ := h.restartable.represents.here
  have hm := h.restartable.mounted
  exact ⟨n, hpath, ⟨hm.consistent.tree.live_resolve hpath, hdir⟩, hm.content_eq hblock⟩

theorem Shown.listed (h : Shown s σ a) :
    (σ.currentDir.listed (List.finRange maxDirItemNum)).Nodup ∧
      ∀ t, t ∈ σ.currentDir.listed (List.finRange maxDirItemNum) ↔ t ∈ a.names a.here := by
  obtain ⟨n, hpath, hn, hcontent⟩ := h.here
  have htree := h.restartable.mounted.consistent.tree
  constructor
  · refine List.Nodup.map_on ?_ ((List.nodup_finRange _).filter _)
    intro k hk k' hk' heq
    simp only [List.mem_filter, decide_eq_true_eq] at hk hk'
    rw [← hcontent] at hk hk' heq
    exact htree.names n k k' hn hk.2 hk'.2 heq
  · intro t
    rw [h.restartable.represents.names_eq hpath, Set.mem_ofPred_eq]
    simp only [Dir.listed, List.mem_map, List.mem_filter, List.mem_finRange, true_and,
      decide_eq_true_eq]
    rw [← hcontent]
    constructor
    · rintro ⟨k, hvalid, rfl⟩
      rw [htree.lookup_entry hn (Volume.entry_of_valid hn.dir hvalid)]
      exact Option.some_ne_none _
    · intro hlookup
      obtain ⟨c, hc⟩ := Option.ne_none_iff_exists'.mp hlookup
      obtain ⟨-, k, -, hk, hname⟩ := Volume.lookup_some hc
      exact ⟨k, (Volume.entry_eq_some hk).2.1, hname⟩

/-- After any calls and restarts `ls` prints every name in the current directory once, in rows
of five. -/
theorem ls_of_run (u : MkfsLocals) (σ₀ : FsState) {happenings : List Happening}
    (run : restartSystem.Run (mount (mkfs u σ₀)) happenings σ) :
    ∃ names : List Name, names.Nodup ∧
      (∀ t, t ∈ names ↔
        t ∈ (PathTree.since happenings).names (PathTree.since happenings).here) ∧
      ls σ = some (ascii ".  ..\n" ++ listing names) := by
  have h := shown_of_run u σ₀ run
  obtain ⟨hnodup, hmem⟩ := h.listed
  refine ⟨_, hnodup, hmem, ls_eq fun i hvalid => ?_⟩
  obtain ⟨n, -, hn, hcontent⟩ := h.here
  rw [← hcontent] at hvalid ⊢
  exact h.dirNames.entries n i hn hvalid

theorem ls_mkdir :
    ∃ names : List Name, names.Nodup ∧
      (∀ t, t ∈ names ↔ t ∈ (PathTree.since [.call firstMkdir]).names
        (PathTree.since [.call firstMkdir]).here) ∧
      ls (firstMkdir.run (mount (mkfs blankLocals blankFs))).1 =
        some (ascii ".  ..\n" ++ listing names) :=
  ls_of_run blankLocals blankFs
    (.single (nameSystem_run firstMkdir _ (by decide +kernel) (by decide +kernel)))

/-- After any calls and restarts `currdir` prints the last name of the current path, and a slash
in the root. -/
theorem printCurrDir_of_run (u : MkfsLocals) (σ₀ : FsState) {happenings : List Happening}
    (run : restartSystem.Run (mount (mkfs u σ₀)) happenings σ) :
    printCurrDir σ =
      some ((PathTree.since happenings).here.getLast?.getD [0x2f] ++ [0x0a]) := by
  have h := shown_of_run u σ₀ run
  obtain ⟨n, hpath, hn, hcontent⟩ := h.here
  obtain ⟨hname, hzero⟩ := h.dirNames.own _ n hpath hn.dir
  rw [hcontent] at hname hzero
  have hline := printks_name lineFormat [0x0a] (by decide) hzero (by decide) (by decide) rfl
  rw [hname] at hline
  rw [printCurrDir, getCurrDirName, (nameArg_addressable (by decide) hzero).1, Option.bind_eq_bind,
    Option.bind_some, printf_eq_printks, hline]

theorem printCurrDir_mkdir :
    printCurrDir (firstMkdir.run (mount (mkfs blankLocals blankFs))).1 =
      some ((PathTree.since [.call firstMkdir]).here.getLast?.getD [0x2f] ++ [0x0a]) :=
  printCurrDir_of_run blankLocals blankFs
    (.single (nameSystem_run firstMkdir _ (by decide +kernel) (by decide +kernel)))

/-! ## `statfs` -/

/-- The first line of `statfs`. -/
def usage (inodes blocks : Nat) : List UInt8 :=
  ascii "[FS] used inode items: " ++ numeral 10 false inodes ++
    ascii "/4096,  used data blocks: " ++ numeral 10 false blocks ++ ascii "/1048576.\n"

def geometry : List UInt8 :=
  ascii "[FS] magic number: 0x99569A78,  start address: 0x01000000.\n" ++
  ascii "[FS] inode  map offset: 1 sector(s),  occupied: 1 sector(s)\n" ++
  ascii "[FS] sector map offset: 2 sector(s),  occupied: 256 sector(s)\n" ++
  ascii "[FS] inode offset: 258 sector(s),  data offset: 1024 sector(s).\n" ++
  ascii "[FS] inode size: 64 byte(s),  directory size: 512 byte(s).\n"

theorem printks_usage {inodes blocks : UInt32} (hinodes : inodes.toNat < 2 ^ 31)
    (hblocks : blocks.toNat < 2 ^ 31) :
    printks usedFormat [.word inodes, .word 4096, .word blocks, .word 1048576] =
      some (usage inodes.toNat blocks.toNat) := by
  have hsplit : usedFormat.bytes =
      ascii "[FS] used inode items: " ++ 0x25 :: 0x64 :: (ascii "/" ++ 0x25 :: 0x64 ::
        (ascii ",  used data blocks: " ++ 0x25 :: 0x64 :: (ascii "/" ++ 0x25 :: 0x64 ::
          (ascii ".\n" ++ [])))) := by decide
  have hrender : render (pieces usedFormat.bytes)
      [.word inodes, .word 4096, .word blocks, .word 1048576] =
        some (usage inodes.toNat blocks.toNat) := by
    have hnumbers : numeral 10 false (4096 : UInt32).toNat = ascii "4096" ∧
        numeral 10 false (1048576 : UInt32).toNat = ascii "1048576" := by decide +kernel
    rw [hsplit, render_literal (by decide), render_decimal hinodes, render_literal (by decide),
      render_decimal (by decide), render_literal (by decide), render_decimal hblocks,
      render_literal (by decide), render_decimal (by decide), render_literal (by decide), pieces,
      render, hnumbers.1, hnumbers.2]
    have hjoin : ascii "/4096,  used data blocks: " =
          ascii "/" ++ (ascii "4096" ++ ascii ",  used data blocks: ") ∧
        ascii "/1048576.\n" = ascii "/" ++ (ascii "1048576" ++ ascii ".\n") := by decide
    simp only [Option.map_some, usage, hjoin.1, hjoin.2, List.append_assoc, List.append_nil]
  have hdigits : ∀ value : UInt32, (numeral 10 false value.toNat).length ≤ 10 := fun value =>
    length_numeral_le (by decide) (by decide) (lt_of_lt_of_le value.toNat_lt (by decide))
  have hlen : (usage inodes.toNat blocks.toNat).length ≤ 255 := by
    have hi := hdigits inodes
    have hb := hdigits blocks
    have hliterals : (ascii "[FS] used inode items: ").length = 23 ∧
        (ascii "/4096,  used data blocks: ").length = 26 ∧ (ascii "/1048576.\n").length = 10 := by
      decide
    simp only [usage, List.length_append]
    omega
  have hzero : 0 ∉ usage inodes.toNat blocks.toNat := by
    simp only [usage, List.mem_append, not_or]
    exact ⟨⟨⟨⟨by decide, zero_notMem_numeral _⟩, by decide⟩, zero_notMem_numeral _⟩, by decide⟩
  rw [printks_render (fun a ha => ?_) hrender, List.take_of_length_le hlen,
    untilZero_of_noZero hzero]
  simp only [List.mem_cons, List.not_mem_nil, or_false] at ha
  rcases ha with rfl | rfl | rfl | rfl <;> trivial

theorem statfs_eq {s : SuperBlock} {σ : FsState} (hcached : Cached σ)
    (hgeometry : SameGeometry (rootSuperBlock s) σ.superBlock)
    (hinodes : σ.superBlock.inodeUsed.toNat < 2 ^ 31)
    (hblocks : σ.superBlock.dataUsed.toNat < 2 ^ 31) :
    statfs σ =
      some (usage σ.superBlock.inodeUsed.toNat σ.superBlock.dataUsed.toNat ++ geometry) := by
  have hread : (sdread σ.disk fsBase : SuperBlock) = σ.superBlock := hcached.superBlock
  obtain ⟨a, b, hsuper⟩ : ∃ a b, σ.superBlock =
      { rootSuperBlock s with dataUsed := a, inodeUsed := b } := ⟨_, _, hgeometry.eq⟩
  rw [hsuper] at hread hinodes hblocks ⊢
  have hused : printks usedFormat
      [.word b, .word (UInt32.ofNat inodeItemNum), .word a, .word (UInt32.ofNat dataItemNum)] =
        some (usage b.toNat a.toNat) := printks_usage hinodes hblocks
  have hlines :
      printks magicFormat [.word magicNumber, .word fsBase] =
        some (ascii "[FS] magic number: 0x99569A78,  start address: 0x01000000.\n") ∧
      printks imapFormat [.word 1, .word 1] =
        some (ascii "[FS] inode  map offset: 1 sector(s),  occupied: 1 sector(s)\n") ∧
      printks smapFormat [.word 2, .word 256] =
        some (ascii "[FS] sector map offset: 2 sector(s),  occupied: 256 sector(s)\n") ∧
      printks offsetFormat [.word 258, .word 1024] =
        some (ascii "[FS] inode offset: 258 sector(s),  data offset: 1024 sector(s).\n") ∧
      printks sizeFormat [.word 64, .word 512] =
        some (ascii "[FS] inode size: 64 byte(s),  directory size: 512 byte(s).\n") := by
    decide +kernel
  obtain ⟨hmagicLine, himap, hsmap, hoffset, hsize⟩ := hlines
  unfold statfs
  rw [hread]
  dsimp only [rootSuperBlock]
  have hplace : Function.update s.reserved 78 magicNumber ⟨78, magicPlace_lt⟩ = magicNumber :=
    Function.update_self _ _ _
  rw [hused, hplace, hmagicLine, himap, hsmap, hoffset, hsize]
  simp only [Option.bind_eq_bind, Option.bind_some, geometry, List.append_assoc]
  rfl

/-- After any calls and restarts `statfs` prints the number of paths and of directories, and the
constants of the format. -/
theorem statfs_of_run (u : MkfsLocals) (σ₀ : FsState) {happenings : List Happening}
    (run : restartSystem.Run (mount (mkfs u σ₀)) happenings σ) :
    statfs σ = some (usage {path | (PathTree.since happenings).kind path ≠ none}.ncard
      {path | (PathTree.since happenings).kind path = some .directory}.ncard ++ geometry) := by
  have h := shown_of_run u σ₀ run
  have hm := h.restartable.mounted
  have hpaths := h.restartable.represents.ncard_paths hm
  have hdirs := h.restartable.represents.ncard_dirs hm h.filesEmpty
  have hcounts := hm.consistent.counts
  have hinodes := countBits_le (volume σ.disk).live inodeItemNum
  have hblocks := countBits_le (volume σ.disk).used dataItemNum
  rw [← hcounts.inodeUsed, hm.cached.superBlock] at hinodes
  rw [← hcounts.dataUsed, hm.cached.superBlock] at hblocks
  rw [hpaths, hdirs]
  exact statfs_eq hm.cached h.geometry (lt_of_le_of_lt hinodes (by decide))
    (lt_of_le_of_lt hblocks (by decide))

theorem statfs_mkdir :
    statfs (firstMkdir.run (mount (mkfs blankLocals blankFs))).1 =
      some (usage {path | (PathTree.since [.call firstMkdir]).kind path ≠ none}.ncard
        {path | (PathTree.since [.call firstMkdir]).kind path = some .directory}.ncard ++
          geometry) :=
  statfs_of_run blankLocals blankFs
    (.single (nameSystem_run firstMkdir _ (by decide +kernel) (by decide +kernel)))

end

end UcasOs.Fs
