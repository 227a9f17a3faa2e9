import UcasOs.Fs.Resolution
import UcasOs.Fs.PathTree

/-!
# The name space is a tree of paths

A mounted file system represents the tree of the paths that resolve on its
disk.  Every call on names that finds an inode and a block to allocate answers
as the tree does and leaves a file system that represents the tree's next state.
-/

namespace UcasOs.Fs

open UcasOs.Foundation UcasOs.Foundation.Naming UcasOs.Libs

def Volume.kindOf (v : Volume) (n : Nat) : Kind := if v.isDir n then .directory else .file

structure Represents (σ : FsState) (a : PathTree) : Prop where
  kind : ∀ path, a.kind path = ((volume σ.disk).resolve path).map (volume σ.disk).kindOf
  here : ∃ n, (volume σ.disk).resolve a.here = some n ∧ (volume σ.disk).isDir n ∧
    (volume σ.disk).block n = σ.currentDirPointer

section

variable {v : Volume} {n : Nat} {path : Path} {s : Name}

theorem Volume.kindOf_dir (h : v.isDir n) : v.kindOf n = .directory := if_pos h

theorem Volume.kindOf_file (h : ¬ v.isDir n) : v.kindOf n = .file := if_neg h

theorem Volume.kindOf_congr {v' : Volume} (h : v'.isDir n ↔ v.isDir n) : v'.kindOf n = v.kindOf n :=
  if_congr h rfl rfl

theorem Volume.kindOf_eq_directory : v.kindOf n = .directory ↔ v.isDir n := by
  unfold kindOf
  split <;> simp_all

theorem Volume.resolve_name (path : Path) (s : Name) (h : v.resolve path = some n) :
    v.resolve (path ++ [s]) = v.lookup n s := by
  rw [resolve, resolve_concat]
  change (v.resolve path).bind _ = _
  rw [h]
  rfl

/-- The names in a directory are those of its valid entries. -/
theorem Volume.Tree.ncard_names (h : v.Tree) (hn : v.LiveDir n) :
    {s | v.lookup n s ≠ none}.ncard =
      (Finset.univ.filter fun k => ((v.content n).map k).valid ≠ 0).card := by
  have himage : {s | v.lookup n s ≠ none} =
      ((Finset.univ.filter fun k => ((v.content n).map k).valid ≠ 0).image
        fun k => ((v.content n).map k).nameOf : Finset Name) := by
    ext s
    simp only [Set.mem_ofPred_eq, Finset.coe_image, Finset.coe_filter, Finset.mem_univ, true_and,
      Set.mem_image]
    constructor
    · intro hs
      obtain ⟨c, hc⟩ := Option.ne_none_iff_exists'.mp hs
      obtain ⟨-, k, -, hk, hname⟩ := lookup_some hc
      exact ⟨k, (entry_eq_some hk).2.1, hname⟩
    · rintro ⟨k, hvalid, rfl⟩
      rw [h.lookup_entry hn (entry_of_valid hn.dir hvalid)]
      exact Option.some_ne_none _
  rw [himage, Set.ncard_coe_finset]
  refine Finset.card_image_of_injOn fun k hk k' hk' heq => ?_
  simp only [Finset.coe_filter, Finset.mem_univ, true_and, Set.mem_ofPred_eq] at hk hk'
  exact h.names n k k' hn hk hk' heq

theorem Volume.Tree.names_empty_iff (h : v.Tree) (hn : v.LiveDir n) :
    {s | v.lookup n s ≠ none} = ∅ ↔ ∀ k, ((v.content n).map k).valid = 0 := by
  rw [Set.eq_empty_iff_forall_notMem]
  constructor
  · intro hempty k
    by_contra hvalid
    apply hempty ((v.content n).map k).nameOf
    rw [Set.mem_ofPred_eq, h.lookup_entry hn (entry_of_valid hn.dir hvalid)]
    exact Option.some_ne_none _
  · intro hfree s
    rw [Set.mem_ofPred_eq, not_not]
    exact lookup_none_of_empty (fun k => entry_of_invalid (hfree k)) s

theorem Dir.freeEntry_none_iff (d : Dir) :
    d.freeEntry = none ↔
      (Finset.univ.filter fun k => (d.map k).valid ≠ 0).card = maxDirItemNum := by
  have hall := Finset.card_filter_eq_iff (s := Finset.univ) (p := fun k => (d.map k).valid ≠ 0)
  rw [Finset.card_univ, Fintype.card_fin] at hall
  rw [hall, Dir.freeEntry, List.find?_eq_none]
  simp

end

/-! ## What a call does to the current directory -/

/-- A call that changes the current directory in memory has changed it on the disk. -/
theorem parent_current {σ σ' : FsState} {p : Nat} (hm : Mounted σ) (hm' : Mounted σ')
    (hinode : ∀ m, (volume σ.disk).LiveDir m → (volume σ'.disk).block m = (volume σ.disk).block m)
    (hcontent : ∀ m, (volume σ.disk).LiveDir m → m ≠ p →
      (volume σ'.disk).content m = (volume σ.disk).content m)
    (hpointer : σ'.currentDirPointer = σ.currentDirPointer)
    (hchanged : σ'.currentDir ≠ σ.currentDir) :
    (volume σ.disk).block p = σ.currentDirPointer := by
  obtain ⟨n, hn, hblock⟩ := hm.cwd
  by_cases hnp : n = p
  · rw [← hnp, hblock]
  · refine absurd ?_ hchanged
    have hsame := hcontent n hn hnp
    rwa [Volume.content, Volume.content, hinode n hn, hblock, hm.currentDir, ← hpointer,
      hm'.currentDir] at hsame

theorem Mounted.content_eq {σ : FsState} (h : Mounted σ) {n : Nat}
    (hn : (volume σ.disk).block n = σ.currentDirPointer) :
    (volume σ.disk).content n = σ.currentDir := by
  rw [Volume.content, hn, h.currentDir]

theorem Entered.changes {s : CString} {σ σ₁ : FsState} {p n : Nat} {k : Fin maxDirItemNum}
    (h : Entered s σ σ₁ p k n) (hm : Mounted σ) : σ₁.currentDir ≠ σ.currentDir := by
  intro heq
  have hlink := h.currentDir
  have hfree := h.free
  rw [hm.content_eq h.pointer] at hlink hfree
  rw [heq] at hlink
  rw [hlink] at hfree
  simp [Dir.link] at hfree

theorem mkdir_current {junk : Dir} {s : CString} {σ σ' : FsState} (hm : Mounted σ)
    (hrun : mkdir junk s σ = (σ', none)) :
    ∃ p k n d, MadeDir s σ σ' p k n d ∧ (volume σ.disk).block p = σ.currentDirPointer ∧
      σ'.currentDirPointer = σ.currentDirPointer := by
  obtain ⟨p, k, n, d, hmade⟩ := mkdir_spec hm hrun
  obtain ⟨σ₁, n₁, σ₂, dno, hnew, halloc, hσ'⟩ := mkdir_ok hrun
  obtain ⟨p₁, k₁, hentered⟩ := newEntry_ok hm hnew
  have hsame := (darrayAlloc_sameDir σ₁).1
  rw [halloc] at hsame
  have hpointer : σ'.currentDirPointer = σ.currentDirPointer := by
    rw [hσ']
    exact hsame.currentDirPointer.trans hentered.samePointer
  have hdir : σ'.currentDir = σ₁.currentDir := by
    rw [hσ']
    exact hsame.currentDir
  refine ⟨p, k, n, d, hmade, ?_, hpointer⟩
  refine parent_current hm hmade.mounted (fun m hlive => ?_)
    hmade.adds.content hpointer (hdir ▸ hentered.changes hm)
  rw [Volume.block, hmade.adds.inode m (hmade.adds.ne_of_live hlive.live), Volume.block]

theorem touch_current {s : CString} {σ σ' : FsState} (hm : Mounted σ)
    (hrun : touch s σ = (σ', none)) :
    ∃ p k n, Touched s σ σ' p k n ∧ (volume σ.disk).block p = σ.currentDirPointer ∧
      σ'.currentDirPointer = σ.currentDirPointer := by
  obtain ⟨p, k, n, htouched⟩ := touch_spec hm hrun
  obtain ⟨σ₁, n₁, hnew, hσ'⟩ := touch_ok hrun
  obtain ⟨p₁, k₁, hentered⟩ := newEntry_ok hm hnew
  have hpointer : σ'.currentDirPointer = σ.currentDirPointer := by
    rw [hσ']
    exact hentered.samePointer
  have hdir : σ'.currentDir = σ₁.currentDir := by
    rw [hσ']
    rfl
  refine ⟨p, k, n, htouched, ?_, hpointer⟩
  refine parent_current hm htouched.mounted (fun m hlive => ?_)
    htouched.adds.content hpointer (hdir ▸ hentered.changes hm)
  rw [Volume.block, htouched.adds.inode m (htouched.adds.ne_of_live hlive.live), Volume.block]

theorem rmdir_current {s : CString} {σ σ' : FsState} (hm : Mounted σ)
    (hrun : rmdir s σ = (σ', none)) :
    ∃ p k c d, RemovedDir σ σ' p k c d ∧ σ.currentDir.find s.bytes = some k ∧
      (volume σ.disk).block p = σ.currentDirPointer ∧
      σ'.currentDirPointer = σ.currentDirPointer := by
  obtain ⟨p, k, c, d, hremoved⟩ := rmdir_spec hm hrun
  obtain ⟨i, ino, inode, hfind, -, -, -, -, hσ'⟩ := rmdir_ok hrun
  have hvalid := Dir.find_some hfind
  have hpointer : σ'.currentDirPointer = σ.currentDirPointer := by
    rw [hσ']
    rfl
  have hfreed : (σ'.currentDir.map i).valid = 0 := by
    rw [hσ']
    simp [writeCurrentDir, setEntry]
  have hblock := parent_current hm hremoved.mounted
    (fun m _ => by rw [Volume.block, hremoved.removes.inode, Volume.block])
    hremoved.removes.content hpointer (fun heq => hvalid (by rw [← heq]; exact hfreed))
  refine ⟨p, k, c, d, hremoved, ?_, hblock, hpointer⟩
  -- the entry that was found is the one that was freed
  have hik : i = k := by
    by_contra hne
    have hframe : ((volume σ'.disk).content p).map i = ((volume σ.disk).content p).map i :=
      hremoved.removes.map_frame hremoved.removes.parent fun _ => hne
    have hblock' : (volume σ'.disk).block p = σ'.currentDirPointer := by
      rw [Volume.block, hremoved.removes.inode, hpointer, ← hblock]
      rfl
    rw [hm.content_eq hblock, hremoved.mounted.content_eq hblock'] at hframe
    rw [hframe] at hfreed
    exact hvalid hfreed
  rw [hfind, hik]

theorem rmdir_answer {s : CString} {σ : FsState} {k : Fin maxDirItemNum} (hm : Mounted σ)
    (hfind : σ.currentDir.find s.bytes = some k) :
    (rmdir s σ).2 =
      if (volume σ.disk).isDir (σ.currentDir.map k).ino.toNat then
        if ∀ j, (((volume σ.disk).content (σ.currentDir.map k).ino.toNat).map j).valid = 0 then none
        else some .directoryNotEmpty
      else some .notADirectory := by
  obtain ⟨n, hn, hblock⟩ := hm.cwd
  have hcontent := hm.content_eq hblock
  have hvalid := Dir.find_some hfind
  rw [← hcontent] at hvalid
  have hc := hm.consistent.tree.live_ino hn hvalid
  rw [hcontent] at hc
  rw [rmdir, hfind]
  dsimp only
  rw [readInodes_remain σ.disk (Volume.live_lt hc)]
  by_cases hdir : (volume σ.disk).isDir (σ.currentDir.map k).ino.toNat
  · have htype : ¬ ((volume σ.disk).inode (σ.currentDir.map k).ino.toNat).type ≠ fileDir :=
      not_not.mpr hdir
    have hread := volume_dir σ.disk (hm.consistent.blocks.isBlock ⟨hc, hdir⟩)
    rw [Volume.block] at hread
    rw [if_neg htype, if_pos hdir, Volume.content, Volume.block, hread]
    by_cases hall : ∀ j, (((sdread σ.disk (((volume σ.disk).inode
        (σ.currentDir.map k).ino.toNat).pointers 0) : Dir)).map j).valid = 0
    · rw [if_pos hall, if_neg (by simpa using hall)]
    · rw [if_neg hall, if_pos (by simpa using hall)]
  · have htype : ((volume σ.disk).inode (σ.currentDir.map k).ino.toNat).type ≠ fileDir := hdir
    rw [if_pos htype, if_neg hdir]

namespace Represents

variable {σ σ' : FsState} {a : PathTree} {s : CString} {what : Kind}

/-- The current directory. -/
theorem current (h : Represents σ a) (hm : Mounted σ) :
    ∃ n, (volume σ.disk).resolve a.here = some n ∧ (volume σ.disk).LiveDir n ∧
      (volume σ.disk).block n = σ.currentDirPointer ∧
      (volume σ.disk).content n = σ.currentDir := by
  obtain ⟨n, hn, hdir, hblock⟩ := h.here
  refine ⟨n, hn, ⟨hm.consistent.tree.live_resolve hn, hdir⟩, hblock, ?_⟩
  rw [Volume.content, hblock, hm.currentDir]

theorem kind_name (h : Represents σ a) {n : Nat} {path : Path}
    (hn : (volume σ.disk).resolve path = some n) (s : Name) :
    a.kind (path ++ [s]) = ((volume σ.disk).lookup n s).map (volume σ.disk).kindOf := by
  rw [h.kind, Volume.resolve_name path s hn]

theorem names_eq (h : Represents σ a) {n : Nat} {path : Path}
    (hn : (volume σ.disk).resolve path = some n) :
    a.names path = {s | (volume σ.disk).lookup n s ≠ none} := by
  ext s
  simp only [PathTree.names, Set.mem_ofPred_eq, h.kind_name hn, ne_eq, Option.map_eq_none_iff]

/-! ### `mkdir` and `touch` -/

theorem isFileExist_iff (h : Represents σ a) (hm : Mounted σ) :
    a.kind (a.here ++ [s.bytes]) ≠ none ↔ isFileExist s σ ≠ 0 := by
  obtain ⟨n, hn, hlive, -, hcontent⟩ := h.current hm
  rw [h.kind_name hn, ne_eq, Option.map_eq_none_iff, ← Volume.find_none_iff hlive s.noZero,
    hcontent, ne_eq, not_iff_not]
  constructor
  · intro hfind
    rw [isFileExist, hfind]
  · exact hm.isFileExist_zero

theorem create_eq (h : Represents σ a) (hm : Mounted σ) :
    a.create what s =
      if strlen s > maxNameLenth then (a, some .tooLongName)
      else if isFileExist s σ ≠ 0 then (a, some .fileExists)
      else if σ.currentDir.freeEntry = none then (a, some .tooManyEntrys)
      else (a.put (a.here ++ [s.bytes]) (some what), none) := by
  obtain ⟨n, hn, hlive, -, hcontent⟩ := h.current hm
  have hfull : (a.names a.here).ncard = maxDirItemNum ↔ σ.currentDir.freeEntry = none := by
    rw [h.names_eq hn, hm.consistent.tree.ncard_names hlive, hcontent, Dir.freeEntry_none_iff]
  unfold PathTree.create
  exact if_congr Iff.rfl rfl (if_congr (h.isFileExist_iff hm) rfl (if_congr hfull rfl rfl))

theorem create_error (h : Represents σ a) (hm : Mounted σ) {m : Message}
    (hrun : newEntry s σ = (σ', .error m)) (hne : m ≠ .insufficientInode) :
    a.create what s = (a, some m) := by
  rw [h.create_eq hm]
  unfold newEntry at hrun
  by_cases hlong : strlen s > maxNameLenth
  · rw [if_pos hlong] at hrun ⊢
    cases hrun
    rfl
  rw [if_neg hlong] at hrun ⊢
  by_cases hexist : isFileExist s σ ≠ 0
  · rw [if_pos hexist] at hrun ⊢
    cases hrun
    rfl
  rw [if_neg hexist] at hrun ⊢
  cases hfree : σ.currentDir.freeEntry with
  | none =>
      rw [hfree] at hrun
      cases hrun
      exact if_pos rfl
  | some i =>
      rw [hfree] at hrun
      dsimp only at hrun
      split at hrun
      case h_1 =>
          cases hrun
          exact absurd rfl hne
      case h_2 => cases hrun

theorem create_ok (h : Represents σ a) (hm : Mounted σ) {n : Nat}
    (hrun : newEntry s σ = (σ', .ok n)) :
    a.create what s = (a.put (a.here ++ [s.bytes]) (some what), none) := by
  rw [h.create_eq hm]
  rcases newEntry_cases s σ with ⟨-, m, hnew⟩ | ⟨-, -, i, -, hnew⟩ |
    ⟨⟨hlen, hexist, -⟩, i, σ₁, ino, hfree, -, -, -⟩
  · rw [hnew] at hrun
    cases hrun
  · rw [hnew] at hrun
    cases hrun
  · rw [if_neg (Nat.not_lt.mpr hlen), if_neg (not_not.mpr hexist), hfree]
    exact if_neg (Option.some_ne_none i)

theorem adds (h : Represents σ a) (hm : Mounted σ) {p n : Nat} {k : Fin maxDirItemNum}
    (hadds : (volume σ.disk).Adds (volume σ'.disk) p k n s.bytes)
    (hp : (volume σ.disk).block p = σ.currentDirPointer)
    (hpointer : σ'.currentDirPointer = σ.currentDirPointer) :
    Represents σ' (a.put (a.here ++ [s.bytes]) (some ((volume σ'.disk).kindOf n))) := by
  have htree := hm.consistent.tree
  obtain ⟨q, hq, hlive, hblock, -⟩ := h.current hm
  obtain rfl : q = p := hm.consistent.blocks.block_inj hlive hadds.parent (hblock.trans hp.symm)
  have hresolve : ∀ path, (volume σ'.disk).resolve path =
      if path = a.here ++ [s.bytes] then some n else (volume σ.disk).resolve path :=
    (hadds.lookup_links htree).resolve htree.unambiguous_lookup hq
  refine ⟨fun path => ?_, q, ?_, hadds.parent_liveDir.dir, ?_⟩
  · rw [hresolve]
    by_cases hpath : path = a.here ++ [s.bytes]
    · rw [if_pos hpath, hpath]
      exact Function.update_self _ _ _
    · rw [if_neg hpath]
      refine (Function.update_of_ne hpath _ _).trans ((h.kind path).trans ?_)
      cases hm' : (volume σ.disk).resolve path with
      | none => rfl
      | some m =>
          have hne := hadds.ne_of_live (htree.live_resolve hm')
          have hdir : (volume σ'.disk).isDir m ↔ (volume σ.disk).isDir m := by
            rw [Volume.isDir, hadds.inode m hne, Volume.isDir]
          rw [Option.map_some, Option.map_some, Volume.kindOf_congr hdir]
  · change (volume σ'.disk).resolve a.here = some q
    rw [hresolve, if_neg (by simp), hq]
  · rw [hadds.parent_block, hp, hpointer]

theorem removes (h : Represents σ a) (hm : Mounted σ) {p c : Nat} {k : Fin maxDirItemNum}
    (hremoves : (volume σ.disk).Removes (volume σ'.disk) p k c)
    (hname : (((volume σ.disk).content p).map k).nameOf = s.bytes)
    (hp : (volume σ.disk).block p = σ.currentDirPointer)
    (hpointer : σ'.currentDirPointer = σ.currentDirPointer) :
    Represents σ' (a.put (a.here ++ [s.bytes]) none) := by
  have htree := hm.consistent.tree
  obtain ⟨q, hq, hlive, hblock, -⟩ := h.current hm
  obtain rfl : q = p := hm.consistent.blocks.block_inj hlive hremoves.parent (hblock.trans hp.symm)
  have hresolve : ∀ path, (volume σ'.disk).resolve path =
      if path = a.here ++ [s.bytes] then none else (volume σ.disk).resolve path := by
    rw [← hname]
    exact (hremoves.lookup_unlinks htree).resolve htree.unambiguous_lookup hq
  refine ⟨fun path => ?_, q, ?_, (hremoves.isDir_iff q).mpr hlive.dir, ?_⟩
  · rw [hresolve]
    by_cases hpath : path = a.here ++ [s.bytes]
    · rw [if_pos hpath, hpath]
      exact Function.update_self _ _ _
    · rw [if_neg hpath]
      refine (Function.update_of_ne hpath _ _).trans ((h.kind path).trans ?_)
      have hkind : (volume σ'.disk).kindOf = (volume σ.disk).kindOf := by
        funext m
        exact Volume.kindOf_congr (hremoves.isDir_iff m)
      rw [hkind]
  · change (volume σ'.disk).resolve a.here = some q
    rw [hresolve, if_neg (by simp), hq]
  · rw [Volume.block, hremoves.inode, hpointer, ← hp]
    rfl

/-! ### Steps -/

theorem mkdir_step (h : Represents σ a) (hm : Mounted σ) {junk : Dir} {answer : Option Message}
    (hrun : mkdir junk s σ = (σ', answer)) (hinode : answer ≠ some .insufficientInode)
    (hblock : answer ≠ some .insufficientDataBlock) :
    ∃ a', a.create .directory s = (a', answer) ∧ Represents σ' a' := by
  cases answer with
  | some m =>
      have herror := (mkdir_error hrun).resolve_right fun hm => hblock (by rw [hm])
      have hne : m ≠ .insufficientInode := fun hm => hinode (by rw [hm])
      obtain rfl := newEntry_error herror hne
      exact ⟨a, h.create_error hm herror hne, h⟩
  | none =>
      obtain ⟨p, k, n, d, hmade, hp, hpointer⟩ := mkdir_current hm hrun
      obtain ⟨σ₁, n₁, -, -, hnew, -⟩ := mkdir_ok hrun
      have hnext := h.adds hm hmade.adds hp hpointer
      rw [Volume.kindOf_dir hmade.isDir] at hnext
      exact ⟨_, h.create_ok hm hnew, hnext⟩

theorem touch_step (h : Represents σ a) (hm : Mounted σ) {answer : Option Message}
    (hrun : touch s σ = (σ', answer)) (hinode : answer ≠ some .insufficientInode) :
    ∃ a', a.create .file s = (a', answer) ∧ Represents σ' a' := by
  cases answer with
  | some m =>
      have herror := touch_error hrun
      have hne : m ≠ .insufficientInode := fun hm => hinode (by rw [hm])
      obtain rfl := newEntry_error herror hne
      exact ⟨a, h.create_error hm herror hne, h⟩
  | none =>
      obtain ⟨p, k, n, htouched, hp, hpointer⟩ := touch_current hm hrun
      obtain ⟨σ₁, n₁, hnew, -⟩ := touch_ok hrun
      have hfile : ¬ (volume σ'.disk).isDir n := by
        rw [Volume.isDir, htouched.inode]
        exact (by decide : fileNormal ≠ fileDir)
      have hnext := h.adds hm htouched.adds hp hpointer
      rw [Volume.kindOf_file hfile] at hnext
      exact ⟨_, h.create_ok hm hnew, hnext⟩

theorem rmdir_step (h : Represents σ a) (hm : Mounted σ) {answer : Option Message}
    (hrun : rmdir s σ = (σ', answer)) :
    ∃ a', a.rmdir s = (a', answer) ∧ Represents σ' a' := by
  obtain ⟨n, hn, hlive, -, hcontent⟩ := h.current hm
  have hkind := h.kind_name hn s.bytes
  cases hfind : σ.currentDir.find s.bytes with
  | none =>
      rw [rmdir, hfind] at hrun
      cases hrun
      rw [← hcontent, Volume.find_none_iff hlive s.noZero] at hfind
      rw [hfind] at hkind
      exact ⟨a, by rw [PathTree.rmdir, hkind]; rfl, h⟩
  | some k =>
      have hlookup := Volume.find_ino hlive s.noZero
      rw [hcontent, hfind, Option.map_some] at hlookup
      rw [← hlookup, Option.map_some] at hkind
      have hanswer := rmdir_answer hm hfind
      rw [hrun] at hanswer
      by_cases hdir : (volume σ.disk).isDir (σ.currentDir.map k).ino.toNat
      · rw [Volume.kindOf_dir hdir] at hkind
        rw [if_pos hdir] at hanswer
        have hpath : (volume σ.disk).resolve (a.here ++ [s.bytes]) =
            some (σ.currentDir.map k).ino.toNat := by
          rw [Volume.resolve_name _ _ hn, ← hlookup]
        have hempty := hm.consistent.tree.names_empty_iff
          ⟨hm.consistent.tree.live_resolve hpath, hdir⟩
        rw [← h.names_eq hpath] at hempty
        cases answer with
        | some m =>
            obtain rfl := rmdir_error hrun
            have hfull : ¬ ∀ j, (((volume σ'.disk).content
                (σ'.currentDir.map k).ino.toNat).map j).valid = 0 := by
              intro hall
              rw [if_pos hall] at hanswer
              cases hanswer
            rw [if_neg hfull] at hanswer
            cases hanswer
            refine ⟨a, ?_, h⟩
            rw [PathTree.rmdir, hkind]
            exact if_neg (mt hempty.mp hfull)
        | none =>
            obtain ⟨p, k', c, d, hremoved, hfind', hp, hpointer⟩ := rmdir_current hm hrun
            obtain rfl : k = k' := Option.some.inj (hfind.symm.trans hfind')
            have hname : (((volume σ.disk).content p).map k).nameOf = s.bytes := by
              rw [hm.content_eq hp]
              exact Dir.find_name s.noZero hfind
            refine ⟨_, ?_, h.removes hm hremoved.removes hname hp hpointer⟩
            have hentry := (Volume.entry_eq_some hremoved.removes.named).2.2
            rw [hm.content_eq hp] at hentry
            rw [PathTree.rmdir, hkind]
            refine if_pos (hempty.mpr ?_)
            rw [hentry]
            exact hremoved.removes.empty
      · rw [Volume.kindOf_file hdir] at hkind
        rw [if_neg hdir] at hanswer
        cases hanswer
        obtain rfl := rmdir_error hrun
        exact ⟨a, by rw [PathTree.rmdir, hkind], h⟩

/-- The inode that `cd` goes to is the one that the path of the tree leads to. -/
theorem cdTarget_eq (h : Represents σ a) (hm : Mounted σ) :
    (cdTarget s σ).map UInt32.toNat = (volume σ.disk).resolve (a.goal s) := by
  unfold cdTarget PathTree.goal
  by_cases hhead : s.bytes.head? = some backslash
  · rw [if_pos hhead, if_pos hhead]
    by_cases hroot : s.bytes = [backslash]
    · rw [if_pos hroot, hroot]
      rfl
    · rw [if_neg hroot]
      exact parsePath_resolve hm.consistent s.noZero hroot
  · rw [if_neg hhead, if_neg hhead]
    obtain ⟨n, hn, hlive, -, hcontent⟩ := h.current hm
    rw [Volume.resolve_name _ _ hn, ← Volume.find_ino hlive s.noZero, hcontent, Option.map_map]
    rfl

/-- The directory above the current one. -/
theorem parent (h : Represents σ a) (hm : Mounted σ) (hroot : σ.currentDirPointer ≠ darrayAddr) :
    ∃ q, (volume σ.disk).resolve a.here.dropLast = some q ∧ (volume σ.disk).isDir q ∧
      (volume σ.disk).block q = σ.currentDir.fpointer := by
  obtain ⟨n, hn, hlive, hblock, hcontent⟩ := h.current hm
  have htree := hm.consistent.tree
  rcases List.eq_nil_or_concat a.here with hnil | ⟨init, last, hlast⟩
  · rw [hnil] at hn
    cases hn
    exact absurd (hblock.symm.trans htree.rootBlock) hroot
  · rw [List.concat_eq_append] at hlast
    rw [hlast, Volume.resolve, resolve_concat] at hn
    obtain ⟨q, hq, hname⟩ := Option.bind_eq_some_iff.mp hn
    obtain ⟨-, k, -, hk, -⟩ := Volume.lookup_some hname
    have hqlive := htree.live_resolve hq
    have hqdir := (Volume.entry_eq_some hk).1
    refine ⟨q, by rw [hlast, List.dropLast_concat]; exact hq, hqdir, ?_⟩
    rw [← hcontent]
    exact (htree.parents q k n ⟨hqlive, hqdir⟩ hk hlive.dir).symm

theorem cd_step (h : Represents σ a) (hm : Mounted σ) {answer : Option Message}
    (hrun : cd s σ = (σ', answer)) : ∃ a', a.cd s = (a', answer) ∧ Represents σ' a' := by
  have htree := hm.consistent.tree
  have hcmp : ∀ t, 0 ∉ t → (strcmp t s.bytes = 0 ↔ s.bytes = t) := by
    intro t ht
    rw [strcmp_eq_zero_iff, untilZero_of_noZero ht, untilZero_of_noZero s.noZero, eq_comm]
  unfold cd at hrun
  unfold PathTree.cd
  by_cases hdots : s.bytes = [dot, dot]
  · rw [if_pos ((hcmp _ (by decide)).mpr hdots)] at hrun
    rw [if_pos hdots]
    by_cases hroot : σ.currentDirPointer = darrayAddr
    · rw [if_pos hroot] at hrun
      cases hrun
      -- the root is its own parent
      obtain ⟨n, hn, hlive, hblock, -⟩ := h.current hm
      obtain rfl : n = 0 := hm.consistent.blocks.block_inj hlive htree.root
        (hblock.trans (hroot.trans htree.rootBlock.symm))
      have hnil : a.here = [] := htree.resolve_inj hn rfl
      refine ⟨_, rfl, h.kind, 0, ?_, htree.rootDir, hblock⟩
      rw [hnil]
      rfl
    · rw [if_neg hroot] at hrun
      cases hrun
      exact ⟨_, rfl, h.kind, h.parent hm hroot⟩
  rw [if_neg (mt (hcmp _ (by decide)).mp hdots)] at hrun
  rw [if_neg hdots]
  by_cases hdot : s.bytes = [dot]
  · rw [if_pos ((hcmp _ (by decide)).mpr hdot)] at hrun
    cases hrun
    rw [if_pos hdot]
    exact ⟨a, rfl, h⟩
  rw [if_neg (mt (hcmp _ (by decide)).mp hdot)] at hrun
  rw [if_neg hdot, h.kind, ← h.cdTarget_eq hm]
  cases htarget : cdTarget s σ with
  | none =>
      rw [htarget] at hrun
      cases hrun
      exact ⟨a, rfl, h⟩
  | some ino =>
      have hlive := cdTarget_live hm htarget
      have hlt := Volume.live_lt hlive
      have hpath := h.cdTarget_eq (s := s) hm
      rw [htarget, Option.map_some] at hpath
      have hne : ino ≠ 0xffffffff := by
        rintro rfl
        exact absurd hlt (by decide)
      rw [htarget, Option.filter_some, if_pos (decide_eq_true hne)] at hrun
      dsimp only at hrun
      rw [readInodes_remain σ.disk hlt] at hrun
      by_cases hdir : (volume σ.disk).isDir ino.toNat
      · have htype : ¬ ((volume σ.disk).inode ino.toNat).type ≠ fileDir := not_not.mpr hdir
        rw [if_neg htype] at hrun
        cases hrun
        rw [Option.map_some, Option.map_some, Volume.kindOf_dir hdir]
        exact ⟨_, rfl, h.kind, ino.toNat, hpath.symm, hdir, rfl⟩
      · have htype : ((volume σ.disk).inode ino.toNat).type ≠ fileDir := hdir
        rw [if_pos htype] at hrun
        cases hrun
        rw [Option.map_some, Option.map_some, Volume.kindOf_file hdir]
        exact ⟨a, rfl, h⟩

end Represents

/-! ## Runs -/

noncomputable def NameCall.act : NameCall → PathTree → PathTree × Option Message
  | mkdir _ s => PathTree.create .directory s
  | rmdir s => PathTree.rmdir s
  | touch s => PathTree.create .file s
  | cd s => PathTree.cd s

noncomputable def PathTree.after (calls : List NameCall) : PathTree :=
  calls.foldl (fun a call => (call.act a).1) .root

theorem PathTree.after_concat (calls : List NameCall) (call : NameCall) :
    after (calls ++ [call]) = (call.act (after calls)).1 := by
  simp [after]

theorem Represents.step {σ σ' : FsState} {a : PathTree} (h : Represents σ a) (hm : Mounted σ)
    {call : NameCall} {answer : Option Message} (hrun : call.run σ = (σ', answer))
    (hinode : answer ≠ some .insufficientInode) (hblock : answer ≠ some .insufficientDataBlock) :
    ∃ a', call.act a = (a', answer) ∧ Represents σ' a' := by
  cases call with
  | mkdir d s => exact h.mkdir_step hm hrun hinode hblock
  | rmdir s => exact h.rmdir_step hm hrun
  | touch s => exact h.touch_step hm hrun hinode
  | cd s => exact h.cd_step hm hrun

theorem Formatted.represents {v : Volume} (h : Formatted v) (path : Path) :
    v.resolve path = if path = [] then some 0 else none := by
  rcases List.eq_nil_or_concat path with rfl | ⟨init, last, rfl⟩
  · rfl
  · rw [List.concat_eq_append, if_neg (by simp), Volume.resolve, resolve_concat]
    cases hinit : resolve v.lookup 0 init with
    | none => rfl
    | some q =>
        have hlive := h.consistent.tree.live_resolve hinit
        rw [h.live, decide_eq_true_eq] at hlive
        subst hlive
        exact v.lookup_none_of_empty (fun k => Volume.entry_of_invalid (h.empty k)) last

theorem mkfs_mount_represents (u : MkfsLocals) (σ₀ : FsState) :
    Represents (mount (mkfs u σ₀)) .root := by
  have h := mkfsDisk_formatted u σ₀.disk
  refine ⟨fun path => ?_, 0, rfl, h.rootDir, h.rootBlock⟩
  change (if path = [] then some Kind.directory else none) =
    ((volume (mkfsDisk u σ₀.disk)).resolve path).map (volume (mkfsDisk u σ₀.disk)).kindOf
  rw [h.represents]
  by_cases hpath : path = []
  · rw [if_pos hpath, if_pos hpath, Option.map_some, Volume.kindOf_dir h.rootDir]
  · rw [if_neg hpath, if_neg hpath]
    rfl

theorem mounted_represents_of_run (u : MkfsLocals) (σ₀ : FsState) {σ : FsState}
    {calls : List NameCall} (run : nameSystem.Run (mount (mkfs u σ₀)) calls σ) :
    Mounted σ ∧ Represents σ (.after calls) := by
  induction run with
  | nil => exact ⟨(mkfs_mount_mounted u σ₀).1, mkfs_mount_represents u σ₀⟩
  | snoc _ hstep ih =>
      obtain ⟨hm, h⟩ := ih
      refine ⟨(nameSystem_step hm hstep).mounted, ?_⟩
      obtain ⟨answer, hrun, hinode, hblock⟩ := hstep
      obtain ⟨a', hact, hnext⟩ := h.step hm hrun hinode hblock
      rw [PathTree.after_concat, hact]
      exact hnext

/-- After any calls the disk holds the tree of paths that the calls make, and the next call
answers as it does on that tree. -/
theorem represents_of_run (u : MkfsLocals) (σ₀ : FsState) {σ : FsState} {calls : List NameCall}
    (run : nameSystem.Run (mount (mkfs u σ₀)) calls σ) :
    Represents σ (.after calls) ∧
      ∀ call : NameCall, (call.run σ).2 ≠ some .insufficientInode →
        (call.run σ).2 ≠ some .insufficientDataBlock →
        (call.run σ).2 = (call.act (.after calls)).2 := by
  obtain ⟨hm, h⟩ := mounted_represents_of_run u σ₀ run
  refine ⟨h, fun call hinode hblock => ?_⟩
  obtain ⟨a', hact, -⟩ := h.step hm (Prod.mk.eta (p := call.run σ)).symm hinode hblock
  rw [hact]

theorem represents_mkdir :
    Represents (firstMkdir.run (mount (mkfs blankLocals blankFs))).1 (.after [firstMkdir]) ∧
      ∀ call : NameCall,
        (call.run (firstMkdir.run (mount (mkfs blankLocals blankFs))).1).2 ≠
          some .insufficientInode →
        (call.run (firstMkdir.run (mount (mkfs blankLocals blankFs))).1).2 ≠
          some .insufficientDataBlock →
        (call.run (firstMkdir.run (mount (mkfs blankLocals blankFs))).1).2 =
          (call.act (.after [firstMkdir])).2 :=
  represents_of_run blankLocals blankFs
    (.single (nameSystem_run firstMkdir _ (by decide +kernel) (by decide +kernel)))

end UcasOs.Fs
