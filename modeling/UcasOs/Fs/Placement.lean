import UcasOs.Foundation.Run
import UcasOs.Fs.FileData

/-!
# Where `fwrite` puts the blocks of a file

`fwrite` stores the address of the block of index `b` in `pointers[b]`, and
`offset_to_pointer` finds it there as long as `b` is below ten.  From the
eleventh block on the lookup takes the pointer for a table.
-/

namespace UcasOs.Fs

open UcasOs.Foundation UcasOs.Libs

/-! ## A file that grows -/

/-- The file system, with the stores to `pointers[]` since the file was empty. -/
structure Growth where
  fs : FsState
  stores : List (Nat × Nat)

structure FwriteCall where
  fd : Int
  buf : Nat → UInt8
  size : UInt32

def Growth.file (s : Growth) (n : Nat) : Inode := (volume s.fs.disk).inode n

/-- Calls of `fwrite` through the descriptors of inode `n`. -/
def growth (n : Nat) : Lts Growth FwriteCall where
  step s call t := ∃ i written stores, fdIndex call.fd = .ok i ∧
    (s.fs.fdArray i).ino.toNat = n ∧
    fwriteStores call.fd call.buf call.size s.fs = .ok (t.fs, written, stores) ∧
    t.stores = s.stores ++ stores

/-- The file is empty, and its descriptors are at the start. -/
structure Fresh (n : Nat) (s : Growth) : Prop where
  cached : Cached s.fs
  ino : n < inodeItemNum
  sizeAllocated : (s.file n).sizeAllocated = 0
  offset : ∀ fd i, fdIndex fd = .ok i → (s.fs.fdArray i).ino.toNat = n →
    (s.fs.fdArray i).offset = 0
  stores : s.stores = []

/-- The lookup finds the blocks in the order they were allocated in, and all stores were to
`pointers[0..12]`. -/
structure Placed (n : Nat) (s : Growth) : Prop where
  lookup : ∀ b < (s.file n).sizeAllocated.toNat / 512, ∃ d,
    s.stores[b]?.map Prod.snd = some d ∧
    offsetToPointer s.fs.disk (s.file n) (UInt32.ofNat (512 * b)) = .ok (dataBlock d)
  inside : ∀ store ∈ s.stores, store.1 < 13

/-- The request ends within the first ten blocks of the file. -/
def TenBlocks (s : Growth) (call : FwriteCall) : Prop :=
  ∀ i, fdIndex call.fd = .ok i → (s.fs.fdArray i).offset.toNat + call.size.toNat ≤ 5120

/-- What holds as long as the file has ten blocks at most: `ds` are its blocks. -/
structure Grown (n : Nat) (s : Growth) (ds : List Nat) : Prop where
  cached : Cached s.fs
  ino : n < inodeItemNum
  held : Held (volume s.fs.disk) (s.file n)
  sizeAllocated : (s.file n).sizeAllocated.toNat = 512 * ds.length
  length : ds.length ≤ 10
  pointer : ∀ k (hk : k < ds.length), (s.file n).pointer k = dataBlock ds[k]
  offset : ∀ fd i, fdIndex fd = .ok i → (s.fs.fdArray i).ino.toNat = n →
    (s.fs.fdArray i).offset.toNat ≤ (s.file n).sizeAllocated.toNat
  stores : s.stores = storesFrom 0 ds

variable {n : Nat} {s t : Growth} {call : FwriteCall} {ds : List Nat}

theorem Fresh.grown (h : Fresh n s) : Grown n s [] := by
  have hsize : (s.file n).sizeAllocated.toNat = 0 := by
    rw [h.sizeAllocated]
    rfl
  have hblocks : (s.file n).blocks = 0 := by rw [Inode.blocks, hsize]
  refine ⟨h.cached, h.ino, ⟨by rw [hsize], ?_, ?_⟩, hsize, Nat.zero_le _, ?_, ?_, h.stores⟩
  · simp [hblocks]
  · simp [hblocks]
  · simp
  · intro fd i hfd hino
    rw [h.offset fd i hfd hino]
    exact Nat.zero_le _

/-! ## Stores -/

theorem storesFrom_append (k : Nat) (ds es : List Nat) :
    storesFrom k (ds ++ es) = storesFrom k ds ++ storesFrom (k + ds.length) es := by
  induction ds generalizing k with
  | nil => simp [storesFrom]
  | cons d ds ih =>
      rw [List.cons_append, storesFrom, ih, storesFrom, List.cons_append, List.length_cons,
        Nat.add_assoc, Nat.add_comm 1]

theorem map_snd_storesFrom (k : Nat) (ds : List Nat) :
    (storesFrom k ds).map Prod.snd = ds := by
  induction ds generalizing k with
  | nil => rfl
  | cons d ds ih => rw [storesFrom, List.map_cons, ih]

theorem storesFrom_lt (k : Nat) (ds : List Nat) :
    ∀ store ∈ storesFrom k ds, store.1 < k + ds.length := by
  induction ds generalizing k with
  | nil => simp [storesFrom]
  | cons d ds ih =>
      intro store hstore
      rw [storesFrom, List.mem_cons] at hstore
      rw [List.length_cons]
      rcases hstore with rfl | hstore
      · exact Nat.lt_add_of_pos_right (Nat.succ_pos _)
      · have := ih (k + 1) store hstore
        omega

theorem Grown.placed (h : Grown n s ds) : Placed n s := by
  have hlength := h.length
  refine ⟨fun b hb => ?_, fun store hstore => ?_⟩
  · have hb' : b < ds.length := by
      rw [h.sizeAllocated] at hb
      omega
    refine ⟨ds[b], ?_, ?_⟩
    · rw [← List.getElem?_map, h.stores, map_snd_storesFrom, List.getElem?_eq_getElem hb']
    · have hoffset : (UInt32.ofNat (512 * b)).toNat = 512 * b := by
        rw [UInt32.toNat_ofNat']
        exact Nat.mod_eq_of_lt (by omega)
      rw [offsetToPointer_direct _ _ (by omega), hoffset, Nat.mul_div_cancel_left b (by decide),
        h.pointer b hb']
  · rw [h.stores] at hstore
    have := storesFrom_lt 0 ds store hstore
    omega

/-! ## One call -/

/-- Every call within ten blocks returns, and leaves the file with more blocks. -/
theorem Grown.fwriteStores (h : Grown n s ds) {i : Nat} (hfd : fdIndex call.fd = .ok i)
    (hino : (s.fs.fdArray i).ino.toNat = n)
    (hfit : (s.fs.fdArray i).offset.toNat + call.size.toNat ≤ 5120) :
    ∃ σ' written stores,
      Fs.fwriteStores call.fd call.buf call.size s.fs = .ok (σ', written, stores) ∧
      ∃ ds, Grown n ⟨σ', s.stores ++ stores⟩ ds := by
  by_cases hwritable : (s.fs.fdArray i).writable = true
  case neg =>
      have hminus := ne_minus_of_fdIndex hfd
      refine ⟨s.fs, 0, [], ?_, ds, ?_⟩
      · simp only [Fs.fwriteStores, if_neg hminus, hfd, ok_bind, hwritable]
        rfl
      · rw [List.append_nil]
        exact h
  case pos =>
      obtain ⟨written, es, x, σ', hwrote, hcall⟩ := fwriteStores_wrote call.buf h.cached hfd
        hwritable hino h.ino h.held (h.offset _ _ hfd hino) hfit
      refine ⟨σ', written, _, hcall, ds ++ es, ?_⟩
      have hallocated : ((volume s.fs.disk).inode n).sizeAllocated.toNat = 512 * ds.length :=
        h.sizeAllocated
      have hblocks : ((volume s.fs.disk).inode n).blocks = ds.length := by
        rw [Inode.blocks, hallocated]
        omega
      have haligned : ((volume s.fs.disk).inode n).sizeAllocated.toNat % 512 = 0 := by
        omega
      have hsize := hwrote.sizeAllocated
      have hten : ds.length + es.length ≤ 10 := by
        cases hes : es.length with
        | zero => exact h.length
        | succ m =>
            have hneeded := hwrote.needed m (by omega)
            omega
      have hfile : ((volume σ'.disk).inode n).sizeAllocated.toNat = x.sizeAllocated.toNat := by
        rw [hwrote.inode_self]
      refine ⟨hwrote.cached, h.ino, hwrote.held_self, ?_, ?_, fun k hk => ?_,
        fun fd j hj hjn => ?_, ?_⟩
      · rw [List.length_append]
        exact hfile.trans (by omega)
      · rw [List.length_append]
        exact hten
      · rw [List.length_append] at hk
        have hk' : k < 10 := by omega
        rw [Growth.file, hwrote.pointer_self, hwrote.places,
          places_pointer (by omega) haligned hk', hblocks]
        by_cases hold : k < ds.length
        · rw [if_neg (by omega), List.getElem_append_left hold]
          exact h.pointer k hold
        · rw [if_pos (by omega), List.getElem_append_right (by omega),
            List.getD_eq_getElem _ _ (by omega)]
      · refine le_of_le_of_eq ?_ hfile.symm
        by_cases hji : j = i
        · subst hji
          exact hwrote.offset_le hfit (h.offset _ _ hfd hino)
        · rw [hwrote.fd_other hji] at hjn ⊢
          have hle : _ ≤ ((volume s.fs.disk).inode n).sizeAllocated.toNat := h.offset fd j hj hjn
          omega
      · rw [h.stores, storesFrom_append, Nat.zero_add, hblocks]

/-! ## Every run within ten blocks -/

theorem Grown.step (h : Grown n s ds)
    (hstep : ((growth n).restrict TenBlocks).step s call t) : ∃ ds, Grown n t ds := by
  obtain ⟨hfit, i, written, stores, hfd, hino, hcall, hstores⟩ := hstep
  obtain ⟨σ', written', stores', hcall', ds', h'⟩ := h.fwriteStores hfd hino (hfit i hfd)
  rw [hcall'] at hcall
  cases hcall
  obtain ⟨fs, log⟩ := t
  obtain rfl : log = s.stores ++ stores := hstores
  exact ⟨ds', h'⟩

/-- As long as all requests end within ten blocks, the lookup agrees with the placement, and the
calls return. -/
theorem placed_of_run {n : Nat} {s t : Growth} {calls : List FwriteCall} (h : Fresh n s)
    (run : ((growth n).restrict TenBlocks).Run s calls t) :
    Placed n t ∧ ∀ call i, fdIndex call.fd = .ok i → (t.fs.fdArray i).ino.toNat = n →
      TenBlocks t call → ∃ u, (growth n).step t call u := by
  have hgrown : ∃ ds, Grown n t ds := run.invariant (I := fun s => ∃ ds, Grown n s ds)
    (fun _ _ _ ⟨_, hs⟩ hstep => hs.step hstep) ⟨[], h.grown⟩
  obtain ⟨ds, hgrown⟩ := hgrown
  refine ⟨hgrown.placed, fun call i hfd hino hfit => ?_⟩
  obtain ⟨σ', written, stores, hcall, -⟩ := hgrown.fwriteStores hfd hino (hfit i hfd)
  exact ⟨⟨σ', t.stores ++ stores⟩, i, written, stores, hfd, hino, hcall, rfl⟩

/-- The file `a` before anything is written to it. -/
def openGrowth : Growth := ⟨openFs, []⟩

theorem openGrowth_fresh : Fresh 1 openGrowth := by
  refine ⟨by simpa only [openGrowth] using openFs_cached, by decide, by decide +kernel,
    fun fd i hfd => ?_, rfl⟩
  have hi : i < 64 := by
    unfold fdIndex at hfd
    split at hfd
    case isTrue h =>
        cases hfd
        have : fd < 64 := h.2
        omega
    case isFalse => cases hfd
  have hall : ∀ i < 64, (openGrowth.fs.fdArray i).ino.toNat = 1 →
      (openGrowth.fs.fdArray i).offset = 0 := by
    decide +kernel
  exact hall i hi

def threeBytes : FwriteCall := ⟨0, fun _ => 7, 3⟩

/-- Three bytes are written to the new file. -/
theorem placed_three :
    Fresh 1 openGrowth ∧
      ∃ t, ((growth 1).restrict TenBlocks).Run openGrowth [threeBytes] t ∧ Placed 1 t := by
  have hino : (openGrowth.fs.fdArray 0).ino.toNat = 1 := by decide +kernel
  have hfit : TenBlocks openGrowth threeBytes := by
    intro i hfd
    cases hfd
    decide +kernel
  obtain ⟨t, hstep⟩ := (placed_of_run openGrowth_fresh (.nil _)).2 threeBytes 0 rfl hino hfit
  have run : ((growth 1).restrict TenBlocks).Run openGrowth [threeBytes] t :=
    .single ⟨hfit, hstep⟩
  exact ⟨openGrowth_fresh, t, run, (placed_of_run openGrowth_fresh run).1⟩

/-! ## The eleventh block -/

variable {i d : Nat} {fd : Int} {buf : Nat → UInt8} {σ σ₁ : FsState}

/-- What `offset_to_pointer` reads from a table is what the block holds. -/
theorem tableEntry_congr {disk disk' : Store} {p : UInt32} (hp : IsBlock p)
    (h : (volume disk').dir p = (volume disk).dir p) (k : UInt32) :
    tableEntry disk' p k = tableEntry disk p k := by
  have hbytes : (sdread disk' p : Bytes 512) = sdread disk p := by
    rw [← volume_bytes disk' hp, ← volume_bytes disk hp, Volume.bytes, h, Volume.bytes]
  have hread : ∀ disk : Store, (sdread disk p : Fin 128 → UInt32) =
      Sector.layout.symm (sdread disk p : Bytes 512) := fun _ => rfl
  rw [tableEntry, hread, hbytes, tableEntry, hread]

/-- The block of index ten is looked up in itself. -/
theorem offsetToPointer_ten (disk : Store) {x : Inode} (h : x.pointer 10 = dataBlock d) :
    offsetToPointer disk x 5120 = .ok (tableEntry disk (dataBlock d) 0) := by
  rw [← h]
  rfl

theorem Cached.same_volume (h : Cached σ) {disk : Store} (hvol : volume disk = volume σ.disk)
    (fdArray : Nat → Fd) : Cached { σ with disk, fdArray } := by
  refine ⟨?_, ?_, h.smapIndex, fun hk => ?_⟩
  · rw [hvol]
    exact h.superBlock
  · rw [hvol]
    exact h.imap
  · rw [hvol]
    exact h.smap hk

variable (buf) in
/-- The round of the loop that writes one byte behind ten blocks, by a lookup that gives 0. -/
theorem fwriteLoop_eleventh (r : Fin 8) (I : Fin 8 → Inode) {x : Inode} (fuel : Nat) (w : UInt32)
    (hcached : Cached σ) (hoffset : (σ.fdArray i).offset = 5120)
    (hsize : x.sizeAllocated.toNat = 5632) (hlookup : offsetToPointer σ.disk x 5120 = .ok 0) :
    ∃ σ', fwriteLoop i r buf (fuel + 2) (Function.update I r x) 1 w σ =
        .ok (σ', Function.update I r { x with size := x.size + 1 }, w + 1, []) ∧
      Cached σ' ∧ volume σ'.disk = volume σ.disk := by
  have hle : (5120 : UInt32) ≤ x.sizeAllocated := by
    rw [UInt32.le_iff_toNat_le, hsize]
    decide
  have hroom : x.sizeAllocated - 5120 ≥ 1 := by
    rw [ge_iff_le, UInt32.le_iff_toNat_le, UInt32.toNat_sub_of_le _ _ hle, hsize]
    decide
  have hchunk : (if (1 : UInt32) < 512 - offsetRemain 5120 then (1 : UInt32)
      else 512 - offsetRemain 5120) = 1 := by decide
  have hplace : (offsetRemain 5120).toNat = 0 := by decide
  have hvol := volume_write_below (memcopy (sdread σ.disk 0) 0 buf 1) σ.disk
    (show (0 : UInt32).toNat + 512 ≤ 0x01000000 by decide)
  refine ⟨setFd i { σ.fdArray i with offset := 5120 + 1, size := (σ.fdArray i).size + 1 }
    { σ with disk := sdwrite (memcopy (sdread σ.disk 0) 0 buf 1) 0 σ.disk }, ?_,
    hcached.same_volume hvol _, hvol⟩
  rw [fwriteLoop, if_neg (by decide)]
  simp only [Function.update_self, hoffset, hroom, if_true, hlookup, ok_bind, hchunk, hplace,
    Function.update_idem]
  rw [fwriteLoop]
  rfl

variable (buf) in
/-- One byte behind ten blocks: the block that is allocated for it holds no table yet, so the byte
goes to address 0. -/
theorem fwriteStores_eleventh {n : Nat} (hcached : Cached σ) (hfd : fdIndex fd = .ok i)
    (hwritable : (σ.fdArray i).writable = true) (hino : (σ.fdArray i).ino.toNat = n)
    (hn : n < inodeItemNum) (hsize : ((volume σ.disk).inode n).sizeAllocated.toNat = 5120)
    (hoffset : (σ.fdArray i).offset = 5120) (halloc : darrayAlloc σ = (σ₁, some d))
    (hzero : tableEntry σ.disk (dataBlock d) 0 = 0) :
    ∃ σ', fwriteStores fd buf 1 σ = .ok (σ', 1, [(10, d)]) ∧
      ((volume σ'.disk).inode n).sizeAllocated.toNat = 5632 ∧
      offsetToPointer σ'.disk ((volume σ'.disk).inode n) 5120 = .ok 0 := by
  have hminus := ne_minus_of_fdIndex hfd
  obtain ⟨hd, -, hcached₁, hsame, hvol⟩ := darrayAlloc_spec hcached halloc
  have hblock := isBlock_dataBlock hd
  have hblocks : ((volume σ.disk).inode n).blocks = 10 := by rw [Inode.blocks, hsize]
  obtain ⟨x, hx⟩ : ∃ x, x = ((volume σ.disk).inode n).place d := ⟨_, rfl⟩
  have hpointer : x.pointer 10 = dataBlock d := by
    rw [hx, place_pointer (by omega) d (by omega), if_pos hblocks.symm]
  have hplace : x.sizeAllocated.toNat = 5632 := by
    rw [hx, (place_blocks hsize.le d).1, hsize]
  have hlookup : ∀ disk y, (volume disk).dir = (volume σ.disk).dir → y.pointers = x.pointers →
      offsetToPointer disk y 5120 = .ok 0 := by
    intro disk y hdir hy
    have hpointer' : y.pointer 10 = dataBlock d := by
      rw [Inode.pointer, hy]
      exact hpointer
    rw [offsetToPointer_ten disk hpointer', tableEntry_congr hblock (congrFun hdir _), hzero]
  have hread : Function.update (readInodes σ.disk n) (inoRemain n) ((volume σ.disk).inode n) =
      readInodes σ.disk n := by
    rw [← readInodes_remain σ.disk hn]
    exact Function.update_eq_self _ _
  obtain ⟨σ₂, hround, hcached₂, hvol₂⟩ := fwriteLoop_eleventh buf (inoRemain n)
    (readInodes σ.disk n) (dataItemNum - 1) 0 hcached₁ (by rw [hsame.fdArray, hoffset]) hplace
    (hlookup σ₁.disk x (by rw [hvol]; rfl) rfl)
  have hloop : fwriteLoop i (inoRemain n) buf (dataItemNum - 1 + 2 + 1) (readInodes σ.disk n) 1 0
      σ = .ok (σ₂, Function.update (readInodes σ.disk n) (inoRemain n)
        { x with size := x.size + 1 }, 1, [(10, d)]) := by
    rw [← hread, fwriteLoop_grow (by rw [hoffset, hsize]; decide)
      (by rw [hoffset, hsize]; decide) (by omega) halloc, hread, ← hx, hround, hblocks]
    rfl
  obtain ⟨-, hvol'⟩ := writeInodes_cached hcached₂ hn
    (show (volume σ.disk).inode = (volume σ₂.disk).inode by rw [hvol₂, hvol]; rfl)
    { x with size := x.size + 1 }
  refine ⟨writeInodes n (Function.update (readInodes σ.disk n) (inoRemain n)
    { x with size := x.size + 1 }) σ₂, ?_, ?_, ?_⟩
  · have hfuel : (1 : UInt32).toNat + dataItemNum + 1 = dataItemNum - 1 + 2 + 1 := by decide
    simp only [fwriteStores, if_neg hminus, hfd, ok_bind, hwritable, not_true_eq_false, if_false,
      hino, hfuel, hloop]
  · rw [hvol']
    simp only [Function.update_self]
    exact hplace
  · refine hlookup _ _ ?_ ?_
    · rw [hvol', hvol₂, hvol]
      rfl
    · rw [hvol']
      simp only [Function.update_self]

/-- The call finds all the blocks it needs. -/
def Complete (s : Growth) (call : FwriteCall) : Prop :=
  ∀ σ' written stores,
    fwriteStores call.fd call.buf call.size s.fs = .ok (σ', written, stores) → written = call.size

def tenBlocksCall : FwriteCall := ⟨0, fun _ => 0, 5120⟩
def oneByteCall : FwriteCall := ⟨0, fun _ => 0, 1⟩

/-- The state after the first of the two calls. -/
theorem openFs_tenBlocks :
    ∃ σ ds, fwriteStores 0 (fun _ => 0) 5120 openFs = .ok (σ, 5120, storesFrom 0 ds) ∧
      ds.length = 10 ∧ Cached σ ∧ (σ.fdArray 0).writable = true ∧
      (σ.fdArray 0).ino.toNat = 1 ∧ (σ.fdArray 0).offset = 5120 ∧
      ((volume σ.disk).inode 1).sizeAllocated.toNat = 5120 ∧
      (∃ σ', darrayAlloc σ = (σ', some 11)) ∧ tableEntry σ.disk (dataBlock 11) 0 = 0 := by
  have hgrown := openGrowth_fresh.grown
  have hino : (openFs.fdArray 0).ino.toNat = 1 := by decide +kernel
  have hoffset : (openFs.fdArray 0).offset.toNat = 0 := by decide +kernel
  have hallocated : ((volume openFs.disk).inode 1).sizeAllocated.toNat = 0 := by decide +kernel
  have hheld : Held (volume openFs.disk) ((volume openFs.disk).inode 1) := by
    simpa only [openGrowth, Growth.file] using hgrown.held
  have hsize : (5120 : UInt32).toNat = 5120 := by decide
  obtain ⟨written, ds, x, σ, hwrote, hcall⟩ := fwriteStores_wrote (fun _ => 0) openFs_cached
    (show fdIndex 0 = .ok 0 from rfl) (by decide +kernel) hino (by decide) hheld
    (by rw [hoffset, hallocated]) (show _ + (5120 : UInt32).toNat ≤ 5120 by rw [hoffset, hsize])
  have hblocks : ((volume openFs.disk).inode 1).blocks = 0 := by rw [Inode.blocks, hallocated]
  have hx := hwrote.sizeAllocated
  rw [hblocks] at hcall
  obtain ⟨τ, hallocs, ⟨hw, hmap, hroom⟩ | ⟨-, hnone, hfull⟩⟩ := hwrote.outcome
  · subst hw
    have hten : ds.length = 10 := by
      cases hds : ds.length with
      | zero => omega
      | succ m =>
          have hneeded := hwrote.needed m (by omega)
          omega
    have heleven : (darrayAlloc ((fun σ => (darrayAlloc σ).1)^[10] openFs)).2 = some 11 := by
      decide +kernel
    rw [← hten, ← hallocs.eq_iterate] at heleven
    obtain ⟨σ', hσ', -⟩ := darrayAlloc_sameMap hmap (Prod.ext rfl heleven)
    refine ⟨σ, ds, hcall, hten, hwrote.cached, ?_, ?_, ?_, ?_, ⟨σ', hσ'⟩, ?_⟩
    · rw [hwrote.fd_self]
      decide +kernel
    · rw [hwrote.fd_self]
      decide +kernel
    · rw [hwrote.fd_self]
      decide +kernel
    · rw [hwrote.inode_self]
      show x.sizeAllocated.toNat = 5120
      omega
    · -- the block was not in use, so none of the ten is it
      obtain ⟨hbound, hunused, -⟩ := darrayAlloc_spec hwrote.cached hσ'
      have hframe : (volume σ.disk).dir (dataBlock 11) = (volume openFs.disk).dir (dataBlock 11) := by
        refine hwrote.frame _ fun k hk hkb heq => ?_
        obtain ⟨e, he, hp, hused⟩ := hwrote.held.owned k hk hkb
        obtain rfl := dataBlock_inj hbound he (heq.trans hp)
        exact nomatch hunused.symm.trans hused
      rw [tableEntry_congr (isBlock_dataBlock hbound) hframe]
      decide +kernel
  · have hless : ds.length < 10 := by omega
    have hall : ∀ k < 10, (darrayAlloc ((fun σ => (darrayAlloc σ).1)^[k] openFs)).2.isSome := by
      decide +kernel
    have hsome := hall ds.length hless
    rw [← hallocs.eq_iterate, hnone] at hsome
    cases hsome

/-- Both calls, from any state where they do what they do there. -/
theorem run_eleven {σ₀ σ σ' : FsState} {ds : List Nat} (hino₀ : (σ₀.fdArray 0).ino.toNat = 1)
    (hfirst : fwriteStores 0 (fun _ => 0) 5120 σ₀ = .ok (σ, 5120, storesFrom 0 ds))
    (hino : (σ.fdArray 0).ino.toNat = 1)
    (hsecond : fwriteStores 0 (fun _ => 0) 1 σ = .ok (σ', 1, [(10, 11)])) :
    ((growth 1).restrict Complete).Run ⟨σ₀, []⟩ [tenBlocksCall, oneByteCall]
      ⟨σ', storesFrom 0 ds ++ [(10, 11)]⟩ := by
  have hten : ((growth 1).restrict Complete).step ⟨σ₀, []⟩ tenBlocksCall ⟨σ, storesFrom 0 ds⟩ := by
    refine ⟨fun τ written stores hcall => ?_, 0, 5120, storesFrom 0 ds, rfl, hino₀, hfirst, rfl⟩
    have hresult := Except.ok.inj (hcall.symm.trans hfirst)
    exact congrArg (fun result => result.2.1) hresult
  have hone : ((growth 1).restrict Complete).step ⟨σ, storesFrom 0 ds⟩ oneByteCall
      ⟨σ', storesFrom 0 ds ++ [(10, 11)]⟩ := by
    refine ⟨fun τ written stores hcall => ?_, 0, 1, [(10, 11)], rfl, hino, hsecond, rfl⟩
    have hresult := Except.ok.inj (hcall.symm.trans hsecond)
    exact congrArg (fun result => result.2.1) hresult
  exact (Lts.Run.single hten).append (.single hone)

/-- A file that grows from ten blocks to eleven is not found again, far below the largest size
that `offset_to_pointer` knows. -/
theorem placed_not_eleven :
    ¬ ∀ (n : Nat) (s t : Growth) (calls : List FwriteCall), Fresh n s →
      ((growth n).restrict Complete).Run s calls t →
      (t.file n).sizeAllocated.toNat / 512 ≤ 10 + 128 + 128 * 128 + 128 * 128 * 128 →
      Placed n t := by
  intro hall
  obtain ⟨σ, ds, hfirst, hten, hcached, hwritable, hino, hoffset, hsize, ⟨σ₁, halloc⟩, hzero⟩ :=
    openFs_tenBlocks
  have hfdZero : fdIndex 0 = .ok 0 := by decide
  obtain ⟨σ', hsecond, hsize', hlookup⟩ := fwriteStores_eleventh (fun _ => 0) hcached hfdZero
    hwritable hino (by decide) hsize hoffset halloc hzero
  have hino₀ : (openFs.fdArray 0).ino.toNat = 1 := by decide +kernel
  have run := run_eleven hino₀ hfirst hino hsecond
  have hfile : (Growth.file ⟨σ', storesFrom 0 ds ++ [(10, 11)]⟩ 1).sizeAllocated.toNat = 5632 :=
    hsize'
  have hplaced := hall 1 openGrowth _ _ openGrowth_fresh (by rw [openGrowth]; exact run)
    (by rw [hfile]; decide)
  obtain ⟨d, hd, hfound⟩ := hplaced.lookup 10 (by rw [hfile]; decide)
  have hlength : (storesFrom 0 ds).length = 10 := by
    rw [← hten, ← List.length_map, map_snd_storesFrom]
  rw [List.getElem?_append_right hlength.le, hlength] at hd
  obtain rfl : 11 = d := Option.some.inj hd
  have hzeroBlock : (.ok (dataBlock 11) : Except Fault UInt32) = .ok 0 := hfound.symm.trans hlookup
  exact absurd hzeroBlock (by decide)

end UcasOs.Fs
