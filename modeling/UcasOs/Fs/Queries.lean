import UcasOs.Fs.Restarts
import UcasOs.Fs.Allocators
import UcasOs.Libs.Rendering

/-!
# What the file system shows

`ls`, `statfs` and the name of the current directory, compared with the tree of
paths: the names that are listed, the counters, and the last name of the path.
-/

namespace UcasOs.Fs

open UcasOs.Foundation UcasOs.Foundation.Naming UcasOs.Libs

/-! ## The names in memory -/

theorem zero_mem_strcpy {n : Nat} (dest : Bytes n) {src : List UInt8} (h : src.length < n) :
    0 ∈ List.ofFn (strcpy dest src) := by
  rw [List.mem_ofFn]
  exact ⟨⟨src.length, h⟩, by simp [strcpy]⟩

/-- Every directory holds the last name of its path, and the root a slash.  All names end inside
their arrays. -/
structure DirNames (v : Volume) : Prop where
  own : ∀ path n, v.resolve path = some n → v.isDir n →
    untilZero (List.ofFn (v.content n).name) = path.getLast?.getD [0x2f] ∧
      0 ∈ List.ofFn (v.content n).name
  entries : ∀ n k, v.LiveDir n → ((v.content n).map k).valid ≠ 0 →
    0 ∈ List.ofFn ((v.content n).map k).name

section

variable {v v' : Volume} {p n c : Nat} {k : Fin maxDirItemNum} {s : Name}

theorem DirNames.adds (h : DirNames v) (hadds : v.Adds v' p k n s) (ht : v.Tree)
    (hname : v'.isDir n → untilZero (List.ofFn (v'.content n).name) = s ∧
      0 ∈ List.ofFn (v'.content n).name) : DirNames v' := by
  obtain ⟨P, hP⟩ := ht.exists_path hadds.parent.live
  refine ⟨fun path m hm hdir => ?_, fun m k' hm hvalid => ?_⟩
  · have hresolve : v'.resolve path = if path = P ++ [s] then some n else v.resolve path :=
      (hadds.lookup_links ht).resolve ht.unambiguous_lookup hP path
    rw [hresolve] at hm
    by_cases hpath : path = P ++ [s]
    · rw [if_pos hpath] at hm
      cases hm
      rw [hpath, List.getLast?_concat]
      exact hname hdir
    · rw [if_neg hpath] at hm
      have hlive := ht.live_resolve hm
      have hdir' : v.isDir m := by
        rwa [Volume.isDir, hadds.inode m (hadds.ne_of_live hlive)] at hdir
      have hsame : (v'.content m).name = (v.content m).name := by
        by_cases hmp : m = p
        · subst hmp
          rw [hadds.linked]
          rfl
        · rw [hadds.content m ⟨hlive, hdir'⟩ hmp]
      rw [hsame]
      exact h.own path m hm hdir'
  · rcases hadds.liveDir hm with hold | rfl
    · by_cases hslot : m = p ∧ k' = k
      · obtain ⟨rfl, rfl⟩ := hslot
        have hlen := hadds.string.2
        rw [hadds.linked_same]
        exact zero_mem_strcpy _ (by omega)
      · have hmap := hadds.map_frame hold fun hmp hk => hslot ⟨hmp, hk⟩
        rw [hmap] at hvalid ⊢
        exact h.entries m k' hold hvalid
    · exact absurd (hadds.leaf hm.dir k') hvalid

theorem DirNames.removes (h : DirNames v) (hremoves : v.Removes v' p k c) (ht : v.Tree) :
    DirNames v' := by
  obtain ⟨P, hP⟩ := ht.exists_path hremoves.parent.live
  refine ⟨fun path m hm hdir => ?_, fun m k' hm hvalid => ?_⟩
  · have hresolve : v'.resolve path =
        if path = P ++ [((v.content p).map k).nameOf] then none else v.resolve path :=
      (hremoves.lookup_unlinks ht).resolve ht.unambiguous_lookup hP path
    rw [hresolve] at hm
    by_cases hpath : path = P ++ [((v.content p).map k).nameOf]
    · rw [if_pos hpath] at hm
      cases hm
    · rw [if_neg hpath] at hm
      have hlive := ht.live_resolve hm
      have hdir' := (hremoves.isDir_iff m).mp hdir
      have hsame : (v'.content m).name = (v.content m).name := by
        by_cases hmp : m = p
        · subst hmp
          rw [hremoves.unlinked]
          rfl
        · rw [hremoves.content m ⟨hlive, hdir'⟩ hmp]
      rw [hsame]
      exact h.own path m hm hdir'
  · have hold := hremoves.liveDir hm
    have hmap := hremoves.map_valid hold hvalid
    rw [hmap] at hvalid ⊢
    exact h.entries m k' hold hvalid

end

/-- The block of a new directory begins with its name. -/
theorem mkdir_name {junk : Dir} {s : CString} {σ σ' : FsState} {p n d : Nat}
    {k : Fin maxDirItemNum} (hm : Mounted σ) (hrun : mkdir junk s σ = (σ', none))
    (hmade : MadeDir s σ σ' p k n d) :
    ((volume σ'.disk).content n).name = strcpy junk.name s.bytes := by
  obtain ⟨σ₁, n₁, σ₂, dno, hnew, halloc, hσ'⟩ := mkdir_ok hrun
  obtain ⟨p₁, k₁, hentered⟩ := newEntry_ok hm hnew
  obtain ⟨hdno, hunused, -, -, hvol₂⟩ := darrayAlloc_spec hentered.cached halloc
  have hn₁ : n₁ < 4096 := hentered.bound
  have hsector := toNat_iarraySector (show n₁ / 8 < 512 by omega)
  have hsmap : (volume σ'.disk).smap = (volume σ₂.disk).smap := by
    rw [hσ']
    refine (volume_smap_frame _ _ (.inr ?_)).trans (volume_smap_frame _ _ (.inr (by omega)))
    rw [toNat_dataBlock hdno]
    omega
  -- the block that was allocated is the one that came into use
  obtain rfl : dno = d := by
    have hused : (volume σ'.disk).used dno = true := by
      rw [Volume.used, hsmap]
      change (volume σ₂.disk).used dno = true
      rw [hvol₂, Volume.used_allocBlock]
      simp
    rw [hmade.gains.used, Bool.or_eq_true, decide_eq_true_eq] at hused
    refine hused.resolve_right fun hold => ?_
    rw [Volume.used, hentered.volume] at hunused
    cases hunused.symm.trans hold
  have hblock : (volume σ'.disk).block n = dataBlock dno := hmade.gains.pointer
  rw [Volume.content, hblock, volume_dir _ (isBlock_dataBlock hdno), hσ', sdread_sdwrite_self]
  rfl

theorem dirNames_step {σ σ' : FsState} {call : NameCall} (hm : Mounted σ)
    (h : DirNames (volume σ.disk)) (hstep : nameSystem.step σ call σ') :
    DirNames (volume σ'.disk) := by
  have htree := hm.consistent.tree
  obtain ⟨answer, hrun, hinode, hblock⟩ := hstep
  cases call with
  | mkdir junk s =>
      cases answer with
      | some m =>
          have herror := (mkdir_error hrun).resolve_right fun hm => hblock (by rw [hm])
          rwa [newEntry_error herror fun hm => hinode (by rw [hm])]
      | none =>
          obtain ⟨p, k, n, d, hmade⟩ := mkdir_spec hm hrun
          refine h.adds hmade.adds htree fun _ => ?_
          have hlen := hmade.adds.string.2
          rw [mkdir_name hm hrun hmade]
          exact ⟨untilZero_strcpy _ s.noZero (by omega), zero_mem_strcpy _ (by omega)⟩
  | rmdir s =>
      cases answer with
      | some m => rwa [rmdir_error hrun]
      | none =>
          obtain ⟨p, k, c, d, hremoved⟩ := rmdir_spec hm hrun
          exact h.removes hremoved.removes htree
  | touch s =>
      cases answer with
      | some m => rwa [newEntry_error (touch_error hrun) fun hm => hinode (by rw [hm])]
      | none =>
          obtain ⟨p, k, n, htouched⟩ := touch_spec hm hrun
          refine h.adds htouched.adds htree fun hdir => absurd hdir ?_
          rw [Volume.isDir, htouched.inode]
          exact (by decide : fileNormal ≠ fileDir)
  | cd s =>
      change cd s σ = (σ', answer) at hrun
      have hσ' : (cd s σ).1.disk = σ.disk := by
        rcases cd_cases (s := s) hm with heq | ⟨n, -, heq⟩ <;> rw [heq]
        rfl
      rw [hrun] at hσ'
      rwa [hσ']

theorem mkfs_mount_dirNames (u : MkfsLocals) (σ₀ : FsState) :
    DirNames (volume (mount (mkfs u σ₀)).disk) := by
  have hm := (mkfs_mount_mounted u σ₀).1
  have hformatted := mkfsDisk_formatted u σ₀.disk
  refine ⟨fun path n hpath _ => ?_, fun n k hn hvalid => ?_⟩
  · rw [show (mount (mkfs u σ₀)).disk = mkfsDisk u σ₀.disk from rfl, hformatted.represents] at hpath
    by_cases hnil : path = []
    · rw [if_pos hnil] at hpath
      cases hpath
      have hcontent := hm.content_eq (n := 0) hformatted.rootBlock
      have hdir : (mount (mkfs u σ₀)).currentDir = emptyDir u.dirRoot darrayAddr [0x2f] :=
        sdread_sdwrite_self _ _ _
      rw [hcontent, hdir, hnil]
      exact ⟨untilZero_strcpy _ (by decide) (by decide), zero_mem_strcpy _ (by decide)⟩
    · rw [if_neg hnil] at hpath
      cases hpath
  · have hlive := (hformatted.live n).symm.trans hn.live
    rw [decide_eq_true_eq] at hlive
    subst hlive
    exact absurd (hformatted.empty k) hvalid

/-! ## Counting paths -/

section

variable {v : Volume}

theorem Volume.Tree.ncard_paths (h : v.Tree) (P : Nat → Prop) :
    {path | ∃ n, v.resolve path = some n ∧ P n}.ncard = {n | v.live n = true ∧ P n}.ncard := by
  have hinj : Set.InjOn (fun path => (v.resolve path).getD 0)
      {path | ∃ n, v.resolve path = some n ∧ P n} := by
    rintro path ⟨n, hn, -⟩ path' ⟨n', hn', -⟩ heq
    simp only [hn, hn', Option.getD_some] at heq
    exact h.resolve_inj hn (heq ▸ hn')
  rw [← hinj.ncard_image]
  congr 1
  ext n
  simp only [Set.mem_image, Set.mem_ofPred_eq]
  constructor
  · rintro ⟨path, ⟨m, hm, hP⟩, rfl⟩
    rw [hm, Option.getD_some]
    exact ⟨h.live_resolve hm, hP⟩
  · rintro ⟨hn, hP⟩
    obtain ⟨path, hpath⟩ := h.exists_path hn
    exact ⟨path, ⟨n, hpath, hP⟩, by rw [hpath, Option.getD_some]⟩

theorem ncard_bits {bit : Nat → Bool} {n : Nat} :
    {i | i < n ∧ bit i = true}.ncard = countBits bit n := by
  rw [countBits, ← Set.ncard_coe_finset]
  congr 1
  ext i
  simp

theorem Volume.ncard_live : {n | v.live n = true ∧ True}.ncard = countBits v.live inodeItemNum := by
  rw [← ncard_bits]
  congr 1
  ext n
  simp only [Set.mem_ofPred_eq, and_true]
  exact ⟨fun h => ⟨live_lt h, h⟩, fun h => h.2⟩

/-- Without data in files, the blocks in use are those of the directories. -/
theorem Volume.Blocks.ncard_dirs (h : v.Blocks) (hempty : FilesEmpty v) :
    {n | v.live n = true ∧ v.isDir n}.ncard = countBits v.used dataItemNum := by
  have hdirs : Set.InjOn v.block {n | v.live n = true ∧ v.isDir n} := fun n hn m hm heq =>
    h.block_inj ⟨hn.1, hn.2⟩ ⟨hm.1, hm.2⟩ heq
  have hblocks : Set.InjOn dataBlock {d | d < dataItemNum ∧ v.used d = true} := fun d hd e he heq =>
    dataBlock_inj hd.1 he.1 heq
  rw [← ncard_bits, ← hdirs.ncard_image, ← hblocks.ncard_image]
  congr 1
  ext p
  simp only [Set.mem_image, Set.mem_ofPred_eq]
  constructor
  · rintro ⟨n, hn, rfl⟩
    obtain ⟨d, hd, hp, hused⟩ := h.owned n 0 (h.dirBlock ⟨hn.1, hn.2⟩)
    exact ⟨d, ⟨hd, hused⟩, hp.symm⟩
  · rintro ⟨d, ⟨hd, hused⟩, rfl⟩
    obtain ⟨n, ⟨hn, hp⟩, -⟩ := (h.used_iff_dir hempty hd).mp hused
    exact ⟨n, ⟨hn.live, hn.dir⟩, hp⟩

end

section

variable {σ : FsState} {a : PathTree}

theorem Represents.ncard_paths (h : Represents σ a) (hm : Mounted σ) :
    {path | a.kind path ≠ none}.ncard = σ.superBlock.inodeUsed.toNat := by
  rw [← hm.cached.superBlock, hm.consistent.counts.inodeUsed, ← Volume.ncard_live,
    ← hm.consistent.tree.ncard_paths]
  congr 1
  ext path
  rw [Set.mem_ofPred_eq, Set.mem_ofPred_eq, h.kind, ne_eq, Option.map_eq_none_iff, ← ne_eq,
    Option.ne_none_iff_exists']
  simp

theorem Represents.ncard_dirs (h : Represents σ a) (hm : Mounted σ)
    (hempty : FilesEmpty (volume σ.disk)) :
    {path | a.kind path = some .directory}.ncard = σ.superBlock.dataUsed.toNat := by
  rw [← hm.cached.superBlock, hm.consistent.counts.dataUsed,
    ← hm.consistent.blocks.ncard_dirs hempty, ← hm.consistent.tree.ncard_paths]
  congr 1
  ext path
  rw [Set.mem_ofPred_eq, Set.mem_ofPred_eq, h.kind, Option.map_eq_some_iff]
  simp only [Volume.kindOf_eq_directory]

end

/-! ## Running out of inodes -/

end UcasOs.Fs
