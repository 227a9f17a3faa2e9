import UcasOs.Fs.Isolation
import UcasOs.Fs.Restarts

/-!
# The contents of files

What a file of a consistent volume holds.  The calls on names leave all files
with their paths and bytes, and a write through a descriptor changes the bytes
of its file only.
-/

namespace UcasOs.Fs

open UcasOs.Foundation UcasOs.Foundation.Naming UcasOs.Libs

/-- Inode `n` is that of a file with these bytes. -/
structure HasData (v : Volume) (n : Nat) (data : List UInt8) : Prop where
  type : (v.inode n).type = fileNormal
  size : (v.inode n).size.toNat = data.length
  room : data.length ≤ (v.inode n).sizeAllocated.toNat
  fit : data.length ≤ 5120
  bytes : fileBytes v (v.inode n) 0 data.length = data

/-- The files of a volume by their paths; there are no bytes where there is no file. -/
structure FilesOf (v : Volume) (data : Path → List UInt8) : Prop where
  vacant : ∀ path, (∀ n, v.resolve path = some n → v.isDir n) → data path = []
  file : ∀ path n, v.resolve path = some n → ¬ v.isDir n → HasData v n (data path)

/-- The files of `v` are as they were, and new ones are empty. -/
structure KeepsFiles (v v' : Volume) : Prop where
  path : ∀ path n, v.resolve path = some n → ¬ v.isDir n → v'.resolve path = some n
  inode : ∀ n, v.live n = true → ¬ v.isDir n → v'.inode n = v.inode n
  block : ∀ n k, v.Owns n k → ¬ v.isDir n →
    v'.dir ((v.inode n).pointers k) = v.dir ((v.inode n).pointers k)
  new : ∀ n, v'.live n = true → ¬ v'.isDir n →
    (v.live n = true ∧ ¬ v.isDir n) ∨ ((v'.inode n).type = fileNormal ∧ (v'.inode n).size = 0)

section

variable {v v' : Volume} {n p c : Nat} {k : Fin maxDirItemNum} {data : List UInt8}

theorem fileBytes_congr {x : Inode} {len : Nat} (haligned : x.sizeAllocated.toNat % 512 = 0)
    (hfit : len ≤ 5120) (hroom : len ≤ x.sizeAllocated.toNat)
    (hblock : ∀ k : Fin 13, k.val < x.sizeAllocated.toNat / 512 →
      v'.dir (x.pointers k) = v.dir (x.pointers k)) :
    fileBytes v' x 0 len = fileBytes v x 0 len := by
  apply List.map_congr_left
  intro j hj
  rw [List.mem_range] at hj
  have hdir := hblock ⟨(0 + j) / 512, by omega⟩ (by
    show (0 + j) / 512 < _
    omega)
  have hpointer := pointer_val x ⟨(0 + j) / 512, by omega⟩
  rw [fileByte, fileByte, Volume.bytes, Volume.bytes, hpointer, hdir]

theorem HasData.nil (htype : (v.inode n).type = fileNormal) (hsize : (v.inode n).size = 0) :
    HasData v n [] :=
  ⟨htype, by rw [hsize]; rfl, Nat.zero_le _, Nat.zero_le _, rfl⟩

theorem HasData.congr (h : HasData v n data) (hlive : v.live n = true)
    (haligned : (v.inode n).sizeAllocated.toNat % 512 = 0) (hinode : v'.inode n = v.inode n)
    (hblock : ∀ k, v.Owns n k → v'.dir ((v.inode n).pointers k) = v.dir ((v.inode n).pointers k)) :
    HasData v' n data := by
  refine ⟨by rw [hinode, h.type], by rw [hinode, h.size], by rw [hinode]; exact h.room, h.fit, ?_⟩
  rw [hinode, fileBytes_congr haligned h.fit h.room fun k hk => hblock k ⟨hlive, hk⟩, h.bytes]

theorem KeepsFiles.refl (v : Volume) : KeepsFiles v v :=
  ⟨fun _ _ h _ => h, fun _ _ _ => rfl, fun _ _ _ _ => rfl, fun _ hn hdir => .inl ⟨hn, hdir⟩⟩

theorem KeepsFiles.isDir_iff (h : KeepsFiles v v') (hlive : v.live n = true) (hfile : ¬ v.isDir n) :
    ¬ v'.isDir n := by
  rwa [Volume.isDir, h.inode n hlive hfile]

theorem FilesOf.keeps {data : Path → List UInt8} (h : FilesOf v data) (hkeeps : KeepsFiles v v')
    (haligned : ∀ n, v.live n = true → (v.inode n).sizeAllocated.toNat % 512 = 0)
    (htree : v.Tree) (htree' : v'.Tree) : FilesOf v' data := by
  refine ⟨fun path hdirs => h.vacant path fun n hn => ?_, fun path n hn hfile => ?_⟩
  · by_contra hfile
    exact hkeeps.isDir_iff (htree.live_resolve hn) hfile (hdirs n (hkeeps.path path n hn hfile))
  · have hlive' := htree'.live_resolve hn
    by_cases hold : v.live n = true ∧ ¬ v.isDir n
    · obtain ⟨hlive, hold⟩ := hold
      obtain ⟨path', hpath'⟩ := htree.exists_path hlive
      obtain rfl := htree'.resolve_inj hn (hkeeps.path path' n hpath' hold)
      exact (h.file path n hpath' hold).congr hlive (haligned n hlive)
        (hkeeps.inode n hlive hold) fun k hk => hkeeps.block n k hk hold
    · obtain ⟨htype, hsize⟩ := (hkeeps.new n hlive' hfile).resolve_left hold
      rw [h.vacant path fun m hm => ?_]
      · exact .nil htype hsize
      · by_contra hm'
        obtain rfl := Option.some.inj ((hkeeps.path path m hm hm').symm.trans hn)
        exact hold ⟨htree.live_resolve hm, hm'⟩

/-! ## Calls on names -/

theorem Volume.Adds.keepsFiles {s : Name} (h : v.Adds v' p k n s) (htree : v.Tree)
    (hblock : ∀ m j, v.Owns m j → ¬ v.isDir m →
      v'.dir ((v.inode m).pointers j) = v.dir ((v.inode m).pointers j))
    (hnew : ¬ v'.isDir n → (v'.inode n).type = fileNormal ∧ (v'.inode n).size = 0) :
    KeepsFiles v v' := by
  obtain ⟨P, hP⟩ := htree.exists_path h.parent.live
  have hlinks := h.lookup_links htree
  refine ⟨fun path m hm hfile => ?_, fun m hm _ => h.inode m (h.ne_of_live hm), hblock,
    fun m hm hfile => ?_⟩
  · have hresolve : v'.resolve path = if path = P ++ [s] then some n else v.resolve path :=
      hlinks.resolve htree.unambiguous_lookup hP path
    rw [hresolve, if_neg ?_, hm]
    rintro rfl
    rw [Volume.resolve_name P s hP, hlinks.free] at hm
    cases hm
  · rcases (h.live_iff m).mp hm with hlive | rfl
    · refine .inl ⟨hlive, ?_⟩
      rwa [Volume.isDir, ← h.inode m (h.ne_of_live hlive)]
    · exact .inr (hnew hfile)

theorem Volume.Removes.keepsFiles (h : v.Removes v' p k c) (htree : v.Tree) (hchild : v.isDir c)
    (hblock : ∀ m j, v.Owns m j → ¬ v.isDir m →
      v'.dir ((v.inode m).pointers j) = v.dir ((v.inode m).pointers j)) : KeepsFiles v v' := by
  obtain ⟨P, hP⟩ := htree.exists_path h.parent.live
  have hunlinks := h.lookup_unlinks htree
  refine ⟨fun path m hm hfile => ?_, fun m _ _ => by rw [h.inode], hblock, fun m hm hfile => ?_⟩
  · have hresolve : v'.resolve path =
        if path = P ++ [((v.content p).map k).nameOf] then none else v.resolve path :=
      hunlinks.resolve htree.unambiguous_lookup hP path
    rw [hresolve, if_neg ?_, hm]
    rintro rfl
    rw [Volume.resolve_name P _ hP, hunlinks.named] at hm
    exact hfile (Option.some.inj hm ▸ hchild)
  · exact .inl ⟨((h.live_iff m).mp hm).1, fun hdir => hfile ((h.isDir_iff m).mpr hdir)⟩

/-- A block of a file is not that of a directory. -/
theorem Volume.Blocks.ne_block {m : Nat} {j : Fin 13} (h : v.Blocks) (hown : v.Owns m j)
    (hfile : ¬ v.isDir m) (hp : v.LiveDir p) : (v.inode m).pointers j ≠ v.block p := by
  intro heq
  obtain ⟨rfl, -⟩ := h.unique m j p 0 hown (h.dirBlock hp) heq
  exact hfile hp.dir

end

variable {σ σ' : FsState} {s : CString}

theorem entered_block {σ₁ : FsState} {p n : Nat} {k : Fin maxDirItemNum}
    (h : Entered s σ σ₁ p k n) (hb : (volume σ.disk).Blocks) {m : Nat} {j : Fin 13}
    (hown : (volume σ.disk).Owns m j) (hfile : ¬ (volume σ.disk).isDir m) :
    (volume σ₁.disk).dir (((volume σ.disk).inode m).pointers j) =
      (volume σ.disk).dir (((volume σ.disk).inode m).pointers j) := by
  rw [h.volume]
  exact Function.update_of_ne (hb.ne_block hown hfile h.parent) _ _

theorem touch_keepsFiles (h : Mounted σ) (hrun : touch s σ = (σ', none)) :
    KeepsFiles (volume σ.disk) (volume σ'.disk) := by
  obtain ⟨p, k, n, htouched⟩ := touch_spec h hrun
  obtain ⟨σ₁, n₁, hnew, hσ'⟩ := touch_ok hrun
  obtain ⟨p₁, k₁, hentered⟩ := newEntry_ok h hnew
  obtain ⟨-, hvol⟩ := writeInodes_cached hentered.cached hentered.bound rfl
    (fileInode (readInodes σ₁.disk n₁ (inoRemain n₁)))
  rw [← hσ'] at hvol
  refine htouched.adds.keepsFiles h.consistent.tree (fun m j hown hfile => ?_) fun _ => ?_
  · rw [hvol]
    exact entered_block hentered h.consistent.blocks hown hfile
  · rw [htouched.inode]
    exact ⟨rfl, rfl⟩

theorem mkdir_keepsFiles {junk : Dir} (h : Mounted σ) (hrun : mkdir junk s σ = (σ', none)) :
    KeepsFiles (volume σ.disk) (volume σ'.disk) := by
  obtain ⟨p, k, n, e, hmade⟩ := mkdir_spec h hrun
  obtain ⟨σ₁, n₁, σ₂, d, hnew, halloc, hσ'⟩ := mkdir_ok hrun
  obtain ⟨p₁, k₁, hentered⟩ := newEntry_ok h hnew
  obtain ⟨hd, hunused, hcached₂, -, hvol₂⟩ := darrayAlloc_spec hentered.cached halloc
  obtain ⟨hcached₃, hvol₃⟩ := writeInodes_cached hcached₂ hentered.bound
    (show (volume σ₁.disk).inode = (volume σ₂.disk).inode by rw [hvol₂]; rfl)
    (dirInode (readInodes σ₁.disk n₁ (inoRemain n₁)) (dataBlock d))
  obtain ⟨-, hvol⟩ := hcached₃.writeDir (isBlock_dataBlock hd)
    (emptyDir junk σ₂.currentDirPointer s.bytes)
  have hdir : (volume σ'.disk).dir = Function.update (volume σ₁.disk).dir (dataBlock d)
      (emptyDir junk σ₂.currentDirPointer s.bytes) := by
    rw [hσ']
    refine (congrArg Volume.dir hvol).trans ?_
    rw [hvol₃, hvol₂]
    rfl
  refine hmade.adds.keepsFiles h.consistent.tree (fun m j hown hfile => ?_)
    fun hfile => absurd hmade.isDir hfile
  rw [hdir, Function.update_of_ne, entered_block hentered h.consistent.blocks hown hfile]
  -- the new block belonged to nobody
  intro hp
  obtain ⟨e', he', hp', hused⟩ := h.consistent.blocks.owned m j hown
  obtain rfl := dataBlock_inj he' hd (hp'.symm.trans hp)
  rw [Volume.used, hentered.volume] at hunused
  cases hunused.symm.trans hused

theorem rmdir_keepsFiles (h : Mounted σ) (hrun : rmdir s σ = (σ', none)) :
    KeepsFiles (volume σ.disk) (volume σ'.disk) := by
  obtain ⟨p, k, c, d, hremoved⟩ := rmdir_spec h hrun
  obtain ⟨i, ino, inode, hfind, hino, hinode, htype, -, hσ'⟩ := rmdir_ok hrun
  obtain ⟨q, hq, hpointer⟩ := h.cwd
  have hblocks := h.consistent.blocks
  have hcontent : (volume σ.disk).content q = σ.currentDir := by
    rw [Volume.content, hpointer, h.currentDir]
  -- the block that is given back is that of the directory
  have hvalid : (((volume σ.disk).content q).map i).valid ≠ 0 := by
    rw [hcontent]
    exact Dir.find_some hfind
  have hlive : (volume σ.disk).live ino = true := by
    rw [hino, ← hcontent]
    exact h.consistent.tree.live_ino hq hvalid
  rw [readInodes_remain σ.disk (Volume.live_lt hlive)] at hinode
  have hchild : (volume σ.disk).LiveDir ino := ⟨hlive, by rw [Volume.isDir, ← hinode, htype]⟩
  obtain ⟨e, he, heblock, -⟩ := hblocks.owned ino 0 (hblocks.dirBlock hchild)
  rw [hinode, heblock, toNat_blockNo he] at hσ'
  obtain ⟨hcached₁, hsame₁, hvol₁⟩ := iarrayFree_spec h.cached ino
  obtain ⟨hcached₂, hsame₂, hvol₂⟩ := darrayFree_spec hcached₁ he
  have hpointer₂ := hsame₂.currentDirPointer.trans hsame₁.currentDirPointer
  obtain ⟨-, hvol⟩ := (hcached₂.setEntry i
    { (darrayFree e (iarrayFree ino σ)).currentDir.map i with valid := 0 }).writeCurrentDir
    (by
      change IsBlock (darrayFree e (iarrayFree ino σ)).currentDirPointer
      rw [hpointer₂, ← hpointer]
      exact hblocks.isBlock hq)
  rw [← hσ'] at hvol
  have hdir : ∀ a, a ≠ (volume σ.disk).block q →
      (volume σ'.disk).dir a = (volume σ.disk).dir a := by
    intro a ha
    rw [hvol]
    refine (Function.update_of_ne ?_ _ _).trans ?_
    · change a ≠ (darrayFree e (iarrayFree ino σ)).currentDirPointer
      rwa [hpointer₂, ← hpointer]
    · change (volume (darrayFree e (iarrayFree ino σ)).disk).dir a = _
      rw [hvol₂, hvol₁]
      rfl
  exact hremoved.removes.keepsFiles h.consistent.tree hremoved.child.dir fun m j hown hfile =>
    hdir _ (hblocks.ne_block hown hfile hq)

/-- The calls on names leave the files alone. -/
theorem NameCall.keepsFiles {call : NameCall} (h : Mounted σ) (hstep : nameSystem.step σ call σ') :
    KeepsFiles (volume σ.disk) (volume σ'.disk) := by
  obtain ⟨answer, hrun, hinode, hblock⟩ := hstep
  cases call with
  | mkdir junk s =>
      cases answer with
      | some m =>
          have herror := (mkdir_error hrun).resolve_right (fun hm => hblock (by rw [hm]))
          obtain rfl := newEntry_error herror (fun hm => hinode (by rw [hm]))
          exact .refl _
      | none => exact mkdir_keepsFiles h hrun
  | rmdir s =>
      cases answer with
      | some m =>
          obtain rfl := rmdir_error hrun
          exact .refl _
      | none => exact rmdir_keepsFiles h hrun
  | touch s =>
      cases answer with
      | some m =>
          obtain rfl := newEntry_error (touch_error hrun) (fun hm => hinode (by rw [hm]))
          exact .refl _
      | none => exact touch_keepsFiles h hrun
  | cd s =>
      have hσ' : σ' = (Fs.cd s σ).1 := (congrArg Prod.fst hrun).symm
      rcases cd_cases (s := s) h with heq | ⟨n, -, heq⟩
      · rw [hσ', heq]
        exact .refl _
      · rw [hσ', heq]
        exact .refl _

/-! ## Writes -/

namespace FileWrite

variable {fd : Int} {i n : Nat} {bytes : List UInt8} {size written : UInt32} {ds : List Nat}
  {x : Inode} {buf : Nat → UInt8} {data : List UInt8}

theorem resolve_eq (h : FileWrite fd i n buf size written ds x σ σ') (path : Path) :
    (volume σ'.disk).resolve path = (volume σ.disk).resolve path := by
  refine Naming.resolve_congr (fun q name hq => ?_) path
  have hlive := (h.mounted.consistent.tree.reachable_lookup q).mp hq
  exact Volume.lookup_elsewhere (h.isDir_iff q) (fun hdir => h.content_dir ⟨hlive, hdir⟩) name

/-- The bytes that the file had. -/
theorem old_bytes (h : FileWrite fd i n buf size written ds x σ σ')
    (hdata : HasData (volume σ.disk) n data)
    (hoffset : (σ.fdArray i).offset.toNat = data.length) :
    fileBytes (volume σ'.disk) ((volume σ'.disk).inode n) 0 data.length = data := by
  refine Eq.trans ?_ hdata.bytes
  apply List.map_congr_left
  intro j hj
  rw [List.mem_range] at hj
  have hroom := hdata.room
  have hfit := hdata.fit
  exact h.request.fileByte_old h.wrote (by omega) (by omega) (by omega)

theorem refused (h : FileWrite fd i n buf size 0 ds x σ σ')
    (hdata : HasData (volume σ.disk) n data)
    (hoffset : (σ.fdArray i).offset.toNat = data.length) : HasData (volume σ'.disk) n data := by
  have hroom := hdata.room
  have hallocated := h.sizeAllocated_self
  refine ⟨h.type_eq.trans hdata.type, ?_, by omega, hdata.fit, h.old_bytes hdata hoffset⟩
  rw [h.wrote.inode_self, ← hdata.size]
  show (((volume σ.disk).inode n).size + 0).toNat = _
  rw [UInt32.add_zero]

theorem appended (h : FileWrite fd i n (source bytes) size size ds x σ σ')
    (hdata : HasData (volume σ.disk) n data) (hsize : size.toNat = bytes.length)
    (hoffset : (σ.fdArray i).offset.toNat = data.length)
    (hroom : data.length + bytes.length ≤ x.sizeAllocated.toNat)
    (hgoes : GoesOn data.length bytes.length (source bytes)) :
    HasData (volume σ'.disk) n (data ++ bytes) := by
  have hfit := h.request.fit
  rw [hoffset, hsize] at hfit
  have hallocated := h.sizeAllocated_self
  have hx := h.wrote.sizeAllocated
  have hstored := (h.request.stored_iff h.wrote (by omega)).mpr (by rwa [hoffset, hsize])
  refine ⟨h.type_eq.trans hdata.type, ?_, ?_, ?_, ?_⟩
  · rw [h.wrote.inode_self]
    show (((volume σ.disk).inode n).size + size).toNat = _
    rw [UInt32.toNat_add, hdata.size, hsize, List.length_append, Nat.mod_eq_of_lt (by omega)]
  · rw [List.length_append]
    omega
  · rw [List.length_append]
    exact hfit
  · rw [List.length_append, fileBytes_add, h.old_bytes hdata hoffset, Nat.zero_add]
    congr 1
    refine List.ext_getElem (length_fileBytes _ _ _ _) fun j hj hj' => ?_
    have hbyte := hstored j (by omega)
    rw [hoffset] at hbyte
    simp only [fileBytes, List.getElem_map, List.getElem_range, hbyte, source]
    exact List.getD_eq_getElem _ _ hj'

/-- The files that are not written to. -/
theorem others (h : FileWrite fd i n buf size written ds x σ σ') {m : Nat} (hm : m ≠ n)
    (hlive : (volume σ.disk).live m = true)
    (haligned : ((volume σ.disk).inode m).sizeAllocated.toNat % 512 = 0)
    (hdata : HasData (volume σ.disk) m data) : HasData (volume σ'.disk) m data :=
  hdata.congr hlive haligned (h.wrote.inode_other hm) fun _ hk => h.dir_other hm hk

theorem filesOf (h : FileWrite fd i n buf size written ds x σ σ') {data : Path → List UInt8}
    (hfiles : FilesOf (volume σ.disk) data)
    (haligned : ∀ m, (volume σ.disk).live m = true →
      ((volume σ.disk).inode m).sizeAllocated.toNat % 512 = 0)
    {path : Path} (hpath : (volume σ.disk).resolve path = some n) {bytes : List UInt8}
    (hn : HasData (volume σ'.disk) n bytes) :
    FilesOf (volume σ'.disk) (Function.update data path bytes) := by
  refine ⟨fun path' hdirs => ?_, fun path' m hm hfile => ?_⟩
  · have hne : path' ≠ path := by
      rintro rfl
      exact h.file ((h.isDir_iff n).mp (hdirs n ((h.resolve_eq _).trans hpath)))
    rw [Function.update_of_ne hne]
    exact hfiles.vacant path' fun m hm =>
      (h.isDir_iff m).mp (hdirs m ((h.resolve_eq path').trans hm))
  · rw [h.resolve_eq] at hm
    by_cases hmn : m = n
    · subst hmn
      rw [h.mounted.consistent.tree.resolve_inj hm hpath, Function.update_self]
      exact hn
    · have hne : path' ≠ path := by
        rintro rfl
        exact hmn (Option.some.inj (hm.symm.trans hpath))
      have hlive := h.mounted.consistent.tree.live_resolve hm
      rw [Function.update_of_ne hne]
      exact h.others hmn hlive (haligned m hlive)
        (hfiles.file path' m hm fun hdir => hfile ((h.isDir_iff m).mpr hdir))

end FileWrite

end UcasOs.Fs
