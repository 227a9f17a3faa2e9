import UcasOs.Foundation.Outcome
import UcasOs.Fs.Files
import UcasOs.Fs.Namespace
import Mathlib.Tactic.Linarith

/-!
# What `fwrite` and `fread` do to a file

`fwrite` gives the file blocks until it has room for the whole request, and
then fills sectors; on a file of at most ten blocks both walk the direct
pointers.  The data of a file is described by the bytes of its blocks.
-/

namespace UcasOs.Fs

open UcasOs.Foundation UcasOs.Libs

/-! ## Bytes of a block -/

/-- A data block as bytes. -/
def Volume.bytes (v : Volume) (p : UInt32) : Bytes 512 := Dir.layout (v.dir p)

theorem volume_bytes (disk : Store) {p : UInt32} (hp : IsBlock p) :
    (volume disk).bytes p = sdread disk p := by
  rw [Volume.bytes, volume_dir disk hp]
  exact Equiv.apply_symm_apply _ _

theorem volume_write_bytes (b : Bytes 512) (disk : Store) {p : UInt32} (hp : IsBlock p) :
    volume (sdwrite b p disk) =
      { volume disk with dir := Function.update (volume disk).dir p (Dir.layout.symm b) } := by
  have hlayout : Sector.layout b = Sector.layout (Dir.layout.symm b : Dir) :=
    (Equiv.apply_symm_apply Dir.layout b).symm
  have hsame : sdwrite b p disk = sdwrite (Dir.layout.symm b : Dir) p disk := by
    unfold sdwrite Store.write
    rw [hlayout]
  rw [hsame]
  exact volume_write_dir _ disk hp

/-! ## The direct pointers -/

def Inode.pointer (x : Inode) (k : Nat) : UInt32 := x.pointers (Fin.ofNat 13 k)

/-- The number of blocks that the file has. -/
def Inode.blocks (x : Inode) : Nat := x.sizeAllocated.toNat / 512

/-- Within ten blocks the lookup takes a direct pointer. -/
theorem offsetToPointer_direct (disk : Store) (x : Inode) {offset : UInt32}
    (h : offset.toNat < 5120) :
    offsetToPointer disk x offset = .ok (x.pointer (offset.toNat / 512)) := by
  have hdiv : (offset / 512).toNat = offset.toNat / 512 := by
    rw [UInt32.toNat_div]
    rfl
  have hseg : seg (offset / 512) = 0 := by
    have hlt : (offset / 512).toNat < 10 := by omega
    simp only [seg, ge_iff_le, UInt32.le_iff_toNat_le, UInt32.toNat_ofNat]
    rw [decide_eq_false (by omega), decide_eq_false (by omega), decide_eq_false (by omega),
      decide_eq_false (by omega)]
    rfl
  simp only [offsetToPointer, hseg, hdiv]
  rfl

/-- The first ten blocks of a file are blocks in use, all different. -/
structure Held (v : Volume) (x : Inode) : Prop where
  aligned : x.sizeAllocated.toNat % 512 = 0
  owned : ∀ k < 10, k < x.blocks → ∃ d < dataItemNum, x.pointer k = dataBlock d ∧ v.used d = true
  inj : ∀ k < 10, k < x.blocks → ∀ k' < 10, k' < x.blocks → x.pointer k = x.pointer k' → k = k'

theorem Held.isBlock {v : Volume} {x : Inode} (h : Held v x) {k : Nat} (hk : k < 10)
    (hblocks : k < x.blocks) : IsBlock (x.pointer k) := by
  obtain ⟨d, hd, hp, -⟩ := h.owned k hk hblocks
  rw [hp]
  exact isBlock_dataBlock hd

theorem Held.congr {v v' : Volume} {x y : Inode} (h : Held v x) (hused : ∀ d, v'.used d = v.used d)
    (hsize : y.sizeAllocated = x.sizeAllocated) (hpointers : y.pointers = x.pointers) :
    Held v' y := by
  have hblocks : y.blocks = x.blocks := by rw [Inode.blocks, hsize, Inode.blocks]
  have hpointer : y.pointer = x.pointer := by
    funext k
    rw [Inode.pointer, hpointers, Inode.pointer]
  refine ⟨hsize ▸ h.aligned, ?_, ?_⟩
  · rw [hblocks, hpointer]
    intro k hk hkb
    obtain ⟨d, hd, hp, hu⟩ := h.owned k hk hkb
    exact ⟨d, hd, hp, (hused d).trans hu⟩
  · rw [hblocks, hpointer]
    exact h.inj

/-! ## Filling sectors -/

/-- How much of a request for `n` bytes goes to the sector of `offset`. -/
def chunk (offset n : Nat) : Nat := min n (512 - offset % 512)

/-- The size of a chunk as both loops compute it. -/
theorem toNat_chunk (offset size : UInt32) :
    (if size < 512 - offsetRemain offset then size else 512 - offsetRemain offset).toNat =
      chunk offset.toNat size.toNat := by
  have hremain := toNat_offsetRemain offset
  have hrest : (512 - offsetRemain offset : UInt32).toNat = 512 - offset.toNat % 512 := by
    rw [UInt32.toNat_sub_of_le _ _ (by
      rw [UInt32.le_iff_toNat_le, hremain]
      exact (Nat.mod_lt _ (by decide)).le), hremain]
    rfl
  rw [apply_ite UInt32.toNat, hrest, chunk]
  simp only [UInt32.lt_iff_toNat_lt, hrest]
  split <;> omega

/-- One sector of a request: `n` bytes from the start of `buf`. -/
def fillSector (i : Nat) (x : Inode) (buf : Nat → UInt8) (t : UInt32) (σ : FsState) : FsState :=
  let f := σ.fdArray i
  let p := x.pointer (f.offset.toNat / 512)
  let b := memcopy (sdread σ.disk p) (f.offset.toNat % 512) buf t.toNat
  setFd i { f with offset := f.offset + t, size := f.size + t }
    { σ with disk := sdwrite b p σ.disk }

variable {i : Nat} {r : Fin 8} {I : Fin 8 → Inode} {buf : Nat → UInt8} {x : Inode}
  {size w : UInt32} {σ σ' : FsState}

variable (r I buf w) in
theorem fwriteLoop_fill (fuel : Nat) (hsize : size ≠ 0)
    (hroom : (σ.fdArray i).offset.toNat + size.toNat ≤ x.sizeAllocated.toNat)
    (hfit : (σ.fdArray i).offset.toNat + size.toNat ≤ 5120) :
    ∃ t : UInt32, t.toNat = chunk (σ.fdArray i).offset.toNat size.toNat ∧
      fwriteLoop i r buf (fuel + 1) (Function.update I r x) size w σ =
        fwriteLoop i r buf fuel (Function.update I r { x with size := x.size + t }) (size - t)
          (w + t) (fillSector i x buf t σ) := by
  have hpos : 0 < size.toNat := Nat.pos_of_ne_zero fun h => hsize (UInt32.toNat_inj.mp h)
  have hremain := toNat_offsetRemain (σ.fdArray i).offset
  have hle : (σ.fdArray i).offset ≤ x.sizeAllocated := by
    rw [UInt32.le_iff_toNat_le]
    omega
  have henough : x.sizeAllocated - (σ.fdArray i).offset ≥ size := by
    rw [ge_iff_le, UInt32.le_iff_toNat_le, UInt32.toNat_sub_of_le _ _ hle]
    omega
  have hlookup := offsetToPointer_direct σ.disk x
    (show (σ.fdArray i).offset.toNat < 5120 by omega)
  refine ⟨_, toNat_chunk (σ.fdArray i).offset size, ?_⟩
  rw [fwriteLoop]
  simp only [hsize, if_false, Function.update_self, henough, if_true, hlookup, ok_bind,
    Function.update_idem, hremain]
  rfl

/-- The descriptor after `size` bytes have been written through it. -/
def Fd.advance (f : Fd) (size : UInt32) : Fd :=
  { f with offset := f.offset + size, size := f.size + size }

/--
`size` bytes were written through descriptor `i`, each sector from the start of
`buf`: in the block of index `k` the first byte of the request is the one at
`offset` or at the start of the block.
-/
structure Fills (i : Nat) (x : Inode) (buf : Nat → UInt8) (size : UInt32) (σ σ' : FsState) :
    Prop where
  state : σ' = { σ with
    disk := σ'.disk
    fdArray := Function.update σ.fdArray i ((σ.fdArray i).advance size) }
  volume : volume σ'.disk = { volume σ.disk with dir := (volume σ'.disk).dir }
  frame : ∀ p, (∀ k < 10, k < x.blocks → p ≠ x.pointer k) →
    (UcasOs.Fs.volume σ'.disk).dir p = (UcasOs.Fs.volume σ.disk).dir p
  bytes : ∀ k < 10, k < x.blocks → ∀ j : Fin 512,
    (UcasOs.Fs.volume σ'.disk).bytes (x.pointer k) j =
      if (σ.fdArray i).offset.toNat ≤ 512 * k + j ∧
          512 * k + j < (σ.fdArray i).offset.toNat + size.toNat then
        buf (512 * k + j - max (σ.fdArray i).offset.toNat (512 * k))
      else (UcasOs.Fs.volume σ.disk).bytes (x.pointer k) j

theorem Fills.zero (σ : FsState) : Fills i x buf 0 σ σ where
  state := by
    simp [Fd.advance]
  volume := rfl
  frame _ _ := rfl
  bytes k _ _ j := by
    rw [if_neg]
    rintro ⟨hle, hlt⟩
    rw [UInt32.toNat_zero] at hlt
    omega

theorem fillSector_fills {t : UInt32} (hheld : Held (volume σ.disk) x) (hpos : 0 < t.toNat)
    (hsector : (σ.fdArray i).offset.toNat % 512 + t.toNat ≤ 512)
    (hroom : (σ.fdArray i).offset.toNat + t.toNat ≤ x.sizeAllocated.toNat)
    (hfit : (σ.fdArray i).offset.toNat + t.toNat ≤ 5120) :
    Fills i x buf t σ (fillSector i x buf t σ) := by
  have haligned := hheld.aligned
  have hblocks : (σ.fdArray i).offset.toNat / 512 < x.blocks := by
    rw [Inode.blocks]
    omega
  have hten : (σ.fdArray i).offset.toNat / 512 < 10 := by omega
  have hblock := hheld.isBlock hten hblocks
  have hvol := volume_write_bytes (memcopy (sdread σ.disk
    (x.pointer ((σ.fdArray i).offset.toNat / 512))) ((σ.fdArray i).offset.toNat % 512) buf
    t.toNat) σ.disk hblock
  have hvol' : UcasOs.Fs.volume (fillSector i x buf t σ).disk = _ := hvol
  refine ⟨rfl, ?_, fun p hp => ?_, fun k hk hkb j => ?_⟩
  · rw [hvol']
  · rw [hvol']
    exact Function.update_of_ne (hp _ hten hblocks) _ _
  · rw [Volume.bytes, hvol']
    by_cases hkey : k = (σ.fdArray i).offset.toNat / 512
    · subst hkey
      simp only [Function.update_self, Equiv.apply_symm_apply]
      rw [memcopy, ← volume_bytes σ.disk hblock]
      have hmax : max (σ.fdArray i).offset.toNat (512 * ((σ.fdArray i).offset.toNat / 512)) =
          (σ.fdArray i).offset.toNat := max_eq_left (by omega)
      rw [hmax]
      refine ite_congr (propext ⟨fun h => by omega, fun h => by omega⟩) (fun h => ?_) fun _ => rfl
      congr 1
      omega
    · have hne : x.pointer k ≠ x.pointer ((σ.fdArray i).offset.toNat / 512) :=
        fun h => hkey (hheld.inj k hk hkb _ hten hblocks h)
      simp only [Function.update_of_ne hne]
      rw [if_neg (by omega)]
      rfl

theorem Fills.fd (h : Fills i x buf size σ σ') :
    σ'.fdArray i = (σ.fdArray i).advance size := by
  rw [h.state]
  exact Function.update_self _ _ _

theorem Fills.used (h : Fills i x buf size σ σ') (d : Nat) :
    (UcasOs.Fs.volume σ'.disk).used d = (UcasOs.Fs.volume σ.disk).used d := by
  rw [Volume.used, h.volume]
  rfl

theorem Fills.held (h : Fills i x buf size σ σ') (hheld : Held (UcasOs.Fs.volume σ.disk) x) :
    Held (UcasOs.Fs.volume σ'.disk) x where
  aligned := hheld.aligned
  owned k hk hblocks := by
    obtain ⟨d, hd, hp, hused⟩ := hheld.owned k hk hblocks
    exact ⟨d, hd, hp, (h.used d).trans hused⟩
  inj := hheld.inj

/-- A request goes on in the next sector. -/
theorem Fills.trans {σ₁ : FsState} {t rest : UInt32} (h : Fills i x buf t σ σ₁)
    (h' : Fills i x buf rest σ₁ σ')
    (hend : rest = 0 ∨ ((σ.fdArray i).offset.toNat + t.toNat) % 512 = 0)
    (hfit : (σ.fdArray i).offset.toNat + t.toNat + rest.toNat ≤ 5120) :
    Fills i x buf (t + rest) σ σ' := by
  have hoffset : (σ₁.fdArray i).offset.toNat = (σ.fdArray i).offset.toNat + t.toNat := by
    rw [h.fd, Fd.advance, UInt32.toNat_add]
    exact Nat.mod_eq_of_lt (by omega)
  have hsum : (t + rest).toNat = t.toNat + rest.toNat := by
    rw [UInt32.toNat_add]
    exact Nat.mod_eq_of_lt (by omega)
  refine ⟨?_, ?_, fun p hp => (h'.frame p hp).trans (h.frame p hp), fun k hk hkb j => ?_⟩
  · rw [h'.state, h.fd, h.state]
    simp [Fd.advance, UInt32.add_assoc]
  · rw [h'.volume, h.volume]
  · rw [h'.bytes k hk hkb j, h.bytes k hk hkb j, hoffset, hsum]
    rcases hend with rfl | hend
    · rw [UInt32.toNat_zero, if_neg (by omega), Nat.add_zero]
    · by_cases hlater : (σ.fdArray i).offset.toNat + t.toNat ≤ 512 * k + j
      · have hmax : max ((σ.fdArray i).offset.toNat + t.toNat) (512 * k) =
            max (σ.fdArray i).offset.toNat (512 * k) := by
          have := j.isLt
          omega
        rw [hmax]
        refine ite_congr (propext ⟨fun h => ?_, fun h => ?_⟩) (fun _ => rfl)
          fun _ => if_neg (by omega)
        · exact ⟨by omega, by omega⟩
        · exact ⟨hlater, by omega⟩
      · rw [if_neg fun h => hlater h.1]
        refine ite_congr (propext ⟨fun h => ?_, fun h => ?_⟩) (fun _ => rfl) fun _ => rfl
        · exact ⟨h.1, by omega⟩
        · exact ⟨h.1, by omega⟩

variable (r I buf w) in
/-- The loop of `fwrite` when the file has room for all of the request. -/
theorem fwriteLoop_fills {fuel : Nat} (hfuel : size.toNat < fuel)
    (hheld : Held (volume σ.disk) x)
    (hroom : (σ.fdArray i).offset.toNat + size.toNat ≤ x.sizeAllocated.toNat)
    (hfit : (σ.fdArray i).offset.toNat + size.toNat ≤ 5120) :
    ∃ σ', fwriteLoop i r buf fuel (Function.update I r x) size w σ =
        .ok (σ', Function.update I r { x with size := x.size + size }, w + size, []) ∧
      Fills i x buf size σ σ' := by
  induction fuel generalizing size w σ x with
  | zero => exact absurd hfuel (Nat.not_lt_zero _)
  | succ fuel ih =>
      by_cases hsize : size = 0
      · subst hsize
        refine ⟨σ, ?_, .zero σ⟩
        rw [fwriteLoop, if_pos rfl]
        simp
      · have hpos : 0 < size.toNat := Nat.pos_of_ne_zero fun h => hsize (UInt32.toNat_inj.mp h)
        obtain ⟨t, ht, hround⟩ := fwriteLoop_fill r I buf w fuel hsize hroom hfit
        rw [chunk] at ht
        have hle : t ≤ size := by
          rw [UInt32.le_iff_toNat_le]
          omega
        have hrest : (size - t).toNat = size.toNat - t.toNat := UInt32.toNat_sub_of_le _ _ hle
        have hfill : Fills i x buf t σ (fillSector i x buf t σ) :=
          fillSector_fills hheld (by omega) (by omega) (by omega) (by omega)
        have hoffset : ((fillSector i x buf t σ).fdArray i).offset.toNat =
            (σ.fdArray i).offset.toNat + t.toNat := by
          rw [hfill.fd, Fd.advance, UInt32.toNat_add]
          exact Nat.mod_eq_of_lt (by omega)
        have hheld' : Held (volume (fillSector i x buf t σ).disk) { x with size := x.size + t } :=
          (hfill.held hheld).congr (fun _ => rfl) rfl rfl
        obtain ⟨σ', hloop, hfills⟩ := ih (w := w + t) (show (size - t).toNat < fuel by omega)
          hheld'
          (by show _ ≤ x.sizeAllocated.toNat; omega) (by omega)
        have hsum : t + (size - t) = size := by
          rw [UInt32.add_comm, UInt32.sub_add_cancel]
        have hfills' : Fills i x buf (size - t) (fillSector i x buf t σ) σ' :=
          ⟨hfills.state, hfills.volume, hfills.frame, hfills.bytes⟩
        have hall := hfill.trans hfills' (by
          by_cases hdone : size.toNat = t.toNat
          · left
            exact UInt32.toNat_inj.mp (by rw [hrest, UInt32.toNat_zero]; omega)
          · right
            omega) (by omega)
        rw [hsum] at hall
        refine ⟨σ', ?_, hall⟩
        rw [hround, hloop]
        simp only [UInt32.add_assoc, hsum]

/-! ## Getting blocks -/

theorem darrayAllocLoop_none {fuel : Nat} (h : Cached σ) (hfuel : fuel = 256 - σ.smapIndex)
    (hrun : darrayAllocLoop fuel σ = (σ', none)) : Cached σ' := by
  induction fuel generalizing σ with
  | zero =>
      obtain ⟨rfl, -⟩ := Prod.mk.inj hrun
      exact h
  | succ fuel ih =>
      rw [darrayAllocLoop] at hrun
      split at hrun
      case h_1 =>
          have hnext := h.readSmap (show σ.smapIndex + 1 ≤ 256 by omega)
          exact ih hnext (by show fuel = 256 - (σ.smapIndex + 1); omega) hrun
      case h_2 => cases hrun

/-- `darray_alloc` that finds no block. -/
theorem darrayAlloc_none (h : Cached σ) (hrun : darrayAlloc σ = (σ', none)) :
    Cached σ' ∧ SameDir σ σ' ∧ σ'.disk = σ.disk := by
  have hsame := darrayAlloc_sameDir σ
  rw [hrun] at hsame
  exact ⟨darrayAllocLoop_none h rfl hrun, hsame.1, hsame.2 rfl⟩

/-- Successive calls of `darray_alloc` return the blocks `ds`. -/
inductive Allocs : FsState → List Nat → FsState → Prop
  | nil (σ : FsState) : Allocs σ [] σ
  | cons {σ σ₁ σ' : FsState} {d : Nat} {ds : List Nat} :
      darrayAlloc σ = (σ₁, some d) → Allocs σ₁ ds σ' → Allocs σ (d :: ds) σ'

/-- What the calls change. -/
structure Reserves (σ σ' : FsState) (ds : List Nat) : Prop where
  cached : Cached σ'
  same : SameDir σ σ'
  imap : (volume σ'.disk).imap = (volume σ.disk).imap
  inode : (volume σ'.disk).inode = (volume σ.disk).inode
  dir : (volume σ'.disk).dir = (volume σ.disk).dir
  bound : ∀ d ∈ ds, d < dataItemNum
  unused : ∀ d ∈ ds, (volume σ.disk).used d = false
  nodup : ds.Nodup
  used : ∀ e, (volume σ'.disk).used e = (decide (e ∈ ds) || (volume σ.disk).used e)
  counts : (volume σ.disk).Counts → (volume σ'.disk).Counts

theorem Allocs.reserves {ds : List Nat} (h : Allocs σ ds σ') (hcached : Cached σ) :
    Reserves σ σ' ds := by
  induction h with
  | nil σ =>
      refine ⟨hcached, ⟨rfl, rfl, rfl, rfl⟩, rfl, rfl, rfl, ?_, ?_, List.nodup_nil, ?_, id⟩
      · simp
      · simp
      · simp
  | @cons σ σ₁ σ' d ds halloc _ ih =>
      obtain ⟨hd, hunused, hcached₁, hsame, hvol⟩ := darrayAlloc_spec hcached halloc
      have ih := ih hcached₁
      have hused : ∀ e, (volume σ₁.disk).used e =
          (decide (e = d) || (volume σ.disk).used e) := by
        intro e
        rw [hvol, Volume.used_allocBlock]
      have hfresh : ∀ e ∈ ds, e ≠ d ∧ (volume σ.disk).used e = false := by
        intro e he
        have hne := ih.unused e he
        rw [hused, Bool.or_eq_false_iff, decide_eq_false_iff_not] at hne
        exact hne
      refine ⟨ih.cached, hsame.trans ih.same, ih.imap.trans (by rw [hvol]; rfl),
        ih.inode.trans (by rw [hvol]; rfl), ih.dir.trans (by rw [hvol]; rfl), ?_, ?_, ?_,
        fun e => ?_, fun hcounts => ?_⟩
      · exact List.forall_mem_cons.mpr ⟨hd, ih.bound⟩
      · exact List.forall_mem_cons.mpr ⟨hunused, fun e he => (hfresh e he).2⟩
      · exact List.nodup_cons.mpr ⟨fun hmem => (hfresh d hmem).1 rfl, ih.nodup⟩
      · rw [ih.used, hused]
        by_cases he : e = d
        · simp [he]
        · simp [he]
      · refine ih.counts ?_
        rw [hvol]
        exact hcounts.allocBlock hd hunused

/-- `darray_alloc` can be called `m` times and finds a block each time. -/
def Allocates (m : Nat) (σ : FsState) : Prop := ∃ ds σ', ds.length = m ∧ Allocs σ ds σ'

theorem Allocates.after {m : Nat} {ds : List Nat} (h : Allocates (ds.length + m) σ)
    (hallocs : Allocs σ ds σ') : Allocates m σ' := by
  induction hallocs with
  | nil σ => simpa using h
  | @cons σ σ₁ σ' d ds halloc _ ih =>
      obtain ⟨es, τ, hlength, hes⟩ := h
      cases hes with
      | nil => rw [List.length_nil, List.length_cons] at hlength; omega
      | @cons _ σ₂ _ e es halloc' hes =>
          obtain ⟨rfl, -⟩ := Prod.mk.inj (halloc.symm.trans halloc')
          refine ih ⟨es, τ, ?_, hes⟩
          rw [List.length_cons, List.length_cons] at hlength
          omega

/-- The state after `m` calls. -/
theorem Allocs.eq_iterate {ds : List Nat} (h : Allocs σ ds σ') :
    σ' = (fun σ => (darrayAlloc σ).1)^[ds.length] σ := by
  induction h with
  | nil σ => rfl
  | cons halloc _ ih => rw [ih, List.length_cons, Function.iterate_succ_apply, halloc]

theorem allocates_of_iterate {m : Nat}
    (h : ∀ k < m, (darrayAlloc ((fun σ => (darrayAlloc σ).1)^[k] σ)).2.isSome) :
    Allocates m σ := by
  induction m generalizing σ with
  | zero => exact ⟨[], σ, rfl, .nil σ⟩
  | succ m ih =>
      have hfirst : (darrayAlloc σ).2.isSome := h 0 (Nat.succ_pos m)
      obtain ⟨d, hd⟩ := Option.isSome_iff_exists.mp hfirst
      cases hrun : darrayAlloc σ with
      | mk σ₁ answer =>
          rw [hrun] at hd
          obtain rfl : answer = some d := hd
          have hrest : ∀ k < m,
              (darrayAlloc ((fun σ => (darrayAlloc σ).1)^[k] σ₁)).2.isSome := by
            intro k hk
            have hstep := h (k + 1) (Nat.succ_lt_succ hk)
            rwa [Function.iterate_succ_apply, hrun] at hstep
          obtain ⟨ds, σ', hlength, hallocs⟩ := ih hrest
          exact ⟨d :: ds, σ', congrArg (· + 1) hlength, .cons hrun hallocs⟩

theorem Allocates.ne_none {m : Nat} (h : Allocates (m + 1) σ) : (darrayAlloc σ).2 ≠ none := by
  obtain ⟨es, τ, hlength, hes⟩ := h
  cases hes with
  | nil => cases hlength
  | cons halloc _ =>
      rw [halloc]
      exact Option.some_ne_none _

/-- Nothing that `darray_alloc` looks at has changed. -/
structure SameMap (σ σ' : FsState) : Prop where
  index : σ'.smapIndex = σ.smapIndex
  smap : σ.smapIndex < 256 → σ'.smap = σ.smap
  disk : (volume σ'.disk).smap = (volume σ.disk).smap

theorem SameMap.write {τ : FsState} (h : SameMap σ τ) (hk : σ.smapIndex < 256) (m : Bitmap 128)
    (s s' : SuperBlock) : SameMap (writeSuperBlock s (writeSmap m σ))
      (writeSuperBlock s' (writeSmap m τ)) := by
  refine ⟨h.index, fun _ => rfl, ?_⟩
  have hk' : τ.smapIndex < 256 := h.index.symm ▸ hk
  change (volume (sdwrite s' fsBase (sdwrite m (smapSector τ.smapIndex) τ.disk))).smap =
    (volume (sdwrite s fsBase (sdwrite m (smapSector σ.smapIndex) σ.disk))).smap
  rw [volume_write_superBlock, volume_write_superBlock, volume_write_smap m τ.disk hk',
    volume_write_smap m σ.disk hk, h.index, h.disk]

theorem darrayAllocLoop_sameMap {fuel : Nat} {τ σ₁ : FsState} {d : Nat} (h : SameMap σ τ)
    (hfuel : fuel = 256 - σ.smapIndex) (hrun : darrayAllocLoop fuel σ = (σ₁, some d)) :
    ∃ τ₁, darrayAllocLoop fuel τ = (τ₁, some d) ∧ SameMap σ₁ τ₁ := by
  induction fuel generalizing σ τ with
  | zero => cases hrun
  | succ fuel ih =>
      have hk : σ.smapIndex < 256 := by omega
      have hsmap : τ.smap = σ.smap := h.smap hk
      rw [darrayAllocLoop] at hrun ⊢
      rw [hsmap]
      split at hrun
      case h_1 =>
          have hnext : SameMap (readSmap (σ.smapIndex + 1) σ) (readSmap (τ.smapIndex + 1) τ) := by
            refine ⟨congrArg (· + 1) h.index, fun hlt => ?_, h.disk⟩
            change σ.smapIndex + 1 < 256 at hlt
            change sdread τ.disk (smapSector (τ.smapIndex + 1)) =
              sdread σ.disk (smapSector (σ.smapIndex + 1))
            rw [h.index, ← volume_smap _ hlt, ← volume_smap _ hlt, h.disk]
          exact ih hnext (by show fuel = 256 - (σ.smapIndex + 1); omega) hrun
      case h_2 i j hscan =>
          obtain ⟨rfl, hd⟩ := Prod.mk.inj hrun
          have hd' : σ.smapIndex * 4096 + i.val * 32 + j = d := Option.some.inj hd
          refine ⟨_, Prod.ext rfl ?_, h.write hk _ _ _⟩
          change some (τ.smapIndex * 4096 + i.val * 32 + j) = some d
          rw [h.index, hd']

theorem darrayAlloc_sameMap {τ σ₁ : FsState} {d : Nat} (h : SameMap σ τ)
    (hrun : darrayAlloc σ = (σ₁, some d)) :
    ∃ τ₁, darrayAlloc τ = (τ₁, some d) ∧ SameMap σ₁ τ₁ := by
  have hindex := h.index
  rw [darrayAlloc, hindex]
  exact darrayAllocLoop_sameMap h rfl hrun

theorem Allocs.sameMap {τ : FsState} {ds : List Nat} (hallocs : Allocs σ ds σ')
    (h : SameMap σ τ) : ∃ τ', Allocs τ ds τ' := by
  induction hallocs generalizing τ with
  | nil σ => exact ⟨τ, .nil τ⟩
  | @cons σ σ₁ σ' d ds halloc _ ih =>
      obtain ⟨τ₁, hτ, h₁⟩ := darrayAlloc_sameMap h halloc
      obtain ⟨τ', hτ'⟩ := ih h₁
      exact ⟨τ', .cons hτ hτ'⟩

theorem Allocates.sameMap {m : Nat} {τ : FsState} (h : Allocates m σ) (hmap : SameMap σ τ) :
    Allocates m τ := by
  obtain ⟨ds, σ', hlength, hallocs⟩ := h
  obtain ⟨τ', hτ⟩ := hallocs.sameMap hmap
  exact ⟨ds, τ', hlength, hτ⟩

/-- The file gets block `d`. -/
def Inode.place (x : Inode) (d : Nat) : Inode :=
  { x with
    pointers := Function.update x.pointers (Fin.ofNat 13 x.blocks) (dataBlock d)
    sizeAllocated := x.sizeAllocated + 512 }

def Inode.places (x : Inode) (ds : List Nat) : Inode := ds.foldl Inode.place x

theorem places_cons (x : Inode) (d : Nat) (ds : List Nat) :
    x.places (d :: ds) = (x.place d).places ds := by
  rw [Inode.places, List.foldl_cons, Inode.places]

theorem places_type (x : Inode) (ds : List Nat) : (x.places ds).type = x.type := by
  induction ds generalizing x with
  | nil => rfl
  | cons d ds ih =>
      rw [places_cons, ih]
      simp only [Inode.place]

/-- The stores to `pointers[]` from index `k` on. -/
def storesFrom : Nat → List Nat → List (Nat × Nat)
  | _, [] => []
  | k, d :: ds => (k, d) :: storesFrom (k + 1) ds

theorem toNat_add_512 {s : UInt32} (h : s.toNat ≤ 5120) : (s + 512).toNat = s.toNat + 512 := by
  rw [UInt32.toNat_add]
  exact Nat.mod_eq_of_lt (by simp; omega)

@[simp] theorem place_size (x : Inode) (d : Nat) : (x.place d).size = x.size := by
  simp only [Inode.place]

theorem place_blocks (h : x.sizeAllocated.toNat ≤ 5120) (d : Nat) :
    (x.place d).sizeAllocated.toNat = x.sizeAllocated.toNat + 512 ∧
      (x.place d).blocks = x.blocks + 1 := by
  have hsize : (x.place d).sizeAllocated.toNat = x.sizeAllocated.toNat + 512 := toNat_add_512 h
  refine ⟨hsize, ?_⟩
  rw [Inode.blocks, hsize, Inode.blocks]
  omega

theorem place_pointer (h : x.blocks < 13) (d : Nat) {k : Nat} (hk : k < 13) :
    (x.place d).pointer k = if k = x.blocks then dataBlock d else x.pointer k := by
  have hfin : Fin.ofNat 13 k = Fin.ofNat 13 x.blocks ↔ k = x.blocks := by
    rw [Fin.ext_iff]
    simp only [Fin.ofNat]
    omega
  rw [Inode.pointer, Inode.place, Inode.pointer]
  simp only [Function.update_apply, hfin]

/-- The new block is one that was not in use before. -/
theorem Held.place {v v' : Volume} {d : Nat} (h : Held v x) (hsize : x.sizeAllocated.toNat < 5120)
    (hd : d < dataItemNum) (hunused : v.used d = false)
    (hused : ∀ e, v'.used e = (decide (e = d) || v.used e)) : Held v' (x.place d) := by
  obtain ⟨hsize', hblocks'⟩ := place_blocks hsize.le d
  have hblocks : x.blocks < 10 := by
    rw [Inode.blocks]
    omega
  have hpointer : ∀ k < 10, (x.place d).pointer k =
      if k = x.blocks then dataBlock d else x.pointer k := fun k hk =>
    place_pointer (by omega) d (by omega)
  have hfresh : ∀ k < 10, k < x.blocks → x.pointer k ≠ dataBlock d := by
    intro k hk hkb heq
    obtain ⟨e, he, hp, hue⟩ := h.owned k hk hkb
    obtain rfl := dataBlock_inj he hd (hp.symm.trans heq)
    exact nomatch hunused.symm.trans hue
  refine ⟨by rw [hsize']; have := h.aligned; omega, fun k hk hkb => ?_,
    fun k hk hkb k' hk' hkb' heq => ?_⟩
  · rw [hpointer k hk]
    split
    · exact ⟨d, hd, rfl, by simp [hused]⟩
    · obtain ⟨e, he, hp, hue⟩ := h.owned k hk (by omega)
      exact ⟨e, he, hp, by simp [hused, hue]⟩
  · rw [hpointer k hk, hpointer k' hk'] at heq
    split at heq
    · split at heq
      · omega
      · exact absurd heq.symm (hfresh k' hk' (by omega))
    · split at heq
      · exact absurd heq (hfresh k hk (by omega))
      · exact h.inj k hk (by omega) k' hk' (by omega) heq

/-- The blocks that a file gets follow those it has. -/
theorem places_pointer {ds : List Nat} (h : x.sizeAllocated.toNat + 512 * ds.length ≤ 5120)
    (haligned : x.sizeAllocated.toNat % 512 = 0) {k : Nat} (hk : k < 10) :
    (x.places ds).pointer k =
      if x.blocks ≤ k ∧ k < x.blocks + ds.length then dataBlock (ds.getD (k - x.blocks) 0)
      else x.pointer k := by
  induction ds generalizing x with
  | nil =>
      rw [if_neg (by simp)]
      rfl
  | cons d ds ih =>
      rw [List.length_cons] at h ⊢
      obtain ⟨hsize, hblocks⟩ := place_blocks (show x.sizeAllocated.toNat ≤ 5120 by omega) d
      have hbelow : x.blocks < 13 := by
        rw [Inode.blocks]
        omega
      rw [places_cons, ih (by omega) (by omega), place_pointer hbelow d (by omega), hblocks]
      by_cases hkey : k = x.blocks
      · subst hkey
        rw [if_neg (by omega), if_pos rfl, if_pos (by omega), Nat.sub_self]
        rfl
      · rw [if_neg hkey]
        refine ite_congr (propext ⟨fun h => by omega, fun h => by omega⟩) (fun hk' => ?_)
          fun _ => rfl
        rw [show k - x.blocks = k - (x.blocks + 1) + 1 by omega]
        rfl

/-- The file has no room for the request, in the words of the loop. -/
theorem not_room {offset : UInt32} (hoffset : offset.toNat ≤ x.sizeAllocated.toNat)
    (hmore : x.sizeAllocated.toNat < offset.toNat + size.toNat) :
    size ≠ 0 ∧ ¬ x.sizeAllocated - offset ≥ size := by
  refine ⟨?_, ?_⟩
  · rintro rfl
    rw [UInt32.toNat_zero] at hmore
    omega
  · rw [ge_iff_le, UInt32.le_iff_toNat_le,
      UInt32.toNat_sub_of_le _ _ (UInt32.le_iff_toNat_le.mpr hoffset)]
    omega

/-- The last round of the loop of `fwrite` when there is no block left. -/
theorem fwriteLoop_stop {fuel : Nat}
    (hoffset : (σ.fdArray i).offset.toNat ≤ x.sizeAllocated.toNat)
    (hmore : x.sizeAllocated.toNat < (σ.fdArray i).offset.toNat + size.toNat)
    (halloc : darrayAlloc σ = (σ', none)) :
    fwriteLoop i r buf (fuel + 1) (Function.update I r x) size w σ =
      .ok (σ', Function.update I r x, w, []) := by
  obtain ⟨hzero, hshort⟩ := not_room hoffset hmore
  rw [fwriteLoop]
  simp only [hzero, if_false, Function.update_self, hshort, halloc]

/-- One round of the loop of `fwrite` that gets a block. -/
theorem fwriteLoop_grow {fuel : Nat} {σ₁ : FsState} {d : Nat}
    (hoffset : (σ.fdArray i).offset.toNat ≤ x.sizeAllocated.toNat)
    (hmore : x.sizeAllocated.toNat < (σ.fdArray i).offset.toNat + size.toNat)
    (hstore : x.blocks < 13) (halloc : darrayAlloc σ = (σ₁, some d)) :
    fwriteLoop i r buf (fuel + 1) (Function.update I r x) size w σ = (do
      let (σ, inode, sizeWritten, stores) ←
        fwriteLoop i r buf fuel (Function.update I r (x.place d)) size w σ₁
      .ok (σ, inode, sizeWritten, (x.blocks, d) :: stores)) := by
  obtain ⟨hzero, hshort⟩ := not_room hoffset hmore
  have hindex : (x.sizeAllocated / 512).toNat = x.blocks := by
    rw [UInt32.toNat_div]
    rfl
  rw [fwriteLoop]
  simp only [hzero, if_false, Function.update_self, hshort, halloc, hindex, storePointer,
    hstore, if_true, ok_bind, Function.update_idem]
  rfl

/--
A request for `size` bytes at the offset of descriptor `i`: the file gets the
blocks `ds`, which leads to `σ₁`; then either all is written, or there was one
block too few and nothing is.
-/
structure Writes (i : Nat) (x : Inode) (buf : Nat → UInt8) (size written : UInt32) (ds : List Nat)
    (σ σ₁ σ' : FsState) : Prop where
  allocs : Allocs σ ds σ₁
  held : Held (volume σ₁.disk) (x.places ds)
  sizeAllocated : (x.places ds).sizeAllocated.toNat = x.sizeAllocated.toNat + 512 * ds.length
  needed : ∀ m < ds.length,
    x.sizeAllocated.toNat + 512 * m < (σ.fdArray i).offset.toNat + size.toNat
  outcome : (written = size ∧ Fills i (x.places ds) buf size σ₁ σ' ∧
      (σ.fdArray i).offset.toNat + size.toNat ≤ x.sizeAllocated.toNat + 512 * ds.length) ∨
    (written = 0 ∧ darrayAlloc σ₁ = (σ', none) ∧
      x.sizeAllocated.toNat + 512 * ds.length < (σ.fdArray i).offset.toNat + size.toNat)

variable (r I buf w) in
theorem fwriteLoop_writes {fuel : Nat} (hfuel : size.toNat + (10 - x.blocks) < fuel)
    (hcached : Cached σ) (hheld : Held (volume σ.disk) x)
    (hoffset : (σ.fdArray i).offset.toNat ≤ x.sizeAllocated.toNat)
    (hfit : (σ.fdArray i).offset.toNat + size.toNat ≤ 5120) :
    ∃ written ds σ₁ σ', Writes i x buf size written ds σ σ₁ σ' ∧
      fwriteLoop i r buf fuel (Function.update I r x) size w σ =
        .ok (σ', Function.update I r { x.places ds with size := x.size + written }, w + written,
          storesFrom x.blocks ds) := by
  induction fuel generalizing x σ with
  | zero => exact absurd hfuel (Nat.not_lt_zero _)
  | succ fuel ih =>
      by_cases hroom : (σ.fdArray i).offset.toNat + size.toNat ≤ x.sizeAllocated.toNat
      · obtain ⟨σ', hloop, hfills⟩ := fwriteLoop_fills r I buf w
          (show size.toNat < fuel + 1 by omega) hheld hroom hfit
        exact ⟨size, [], σ, σ', ⟨.nil σ, hheld, rfl, by simp, .inl ⟨rfl, hfills, hroom⟩⟩, hloop⟩
      · have hsize : x.sizeAllocated.toNat < 5120 := by omega
        cases halloc : darrayAlloc σ with
        | mk σ₁ found =>
            cases found with
            | none =>
                refine ⟨0, [], σ, σ₁, ⟨.nil σ, hheld, rfl, by simp, .inr ⟨rfl, halloc, ?_⟩⟩, ?_⟩
                · simp only [List.length_nil]
                  omega
                · rw [fwriteLoop_stop hoffset (by omega) halloc]
                  simp [Inode.places, storesFrom]
            | some d =>
                obtain ⟨hd, hunused, hcached₁, hsame, hvol⟩ := darrayAlloc_spec hcached halloc
                obtain ⟨hsize', hblocks'⟩ := place_blocks hsize.le d
                have hheld₁ : Held (volume σ₁.disk) (x.place d) :=
                  hheld.place hsize hd hunused fun e => by rw [hvol, Volume.used_allocBlock]
                have hblocks : x.blocks < 10 := by
                  rw [Inode.blocks]
                  omega
                obtain ⟨written, ds, σ₂, σ', hwrites, hloop⟩ := ih (x := x.place d)
                  (by omega) hcached₁ hheld₁ (by rw [hsame.fdArray]; omega)
                  (by rw [hsame.fdArray]; omega)
                have hneeded := hwrites.needed
                have houtcome := hwrites.outcome
                rw [hsame.fdArray, hsize'] at hneeded houtcome
                have hplaces := places_cons x d ds
                refine ⟨written, d :: ds, σ₂, σ', ⟨.cons halloc hwrites.allocs, ?_, ?_,
                  fun m hm => ?_, ?_⟩, ?_⟩
                · rw [hplaces]
                  exact hwrites.held
                · have hlength := hwrites.sizeAllocated
                  rw [hsize'] at hlength
                  rw [hplaces, hlength, List.length_cons]
                  omega
                · rcases m with _ | m
                  · omega
                  · have := hneeded m (by simpa using hm)
                    omega
                · rw [hplaces, List.length_cons]
                  rcases houtcome with ⟨hw, hfills, hle⟩ | ⟨hw, hnone, hlt⟩
                  · exact .inl ⟨hw, hfills, by linarith⟩
                  · exact .inr ⟨hw, hnone, by omega⟩
                · rw [place_size, hblocks'] at hloop
                  rw [fwriteLoop_grow hoffset (by omega) (by omega) halloc, hloop, ok_bind, storesFrom,
                    hplaces]

/-! ## One call -/

/-- What a call of `fwrite` through descriptor `i` does to the file of inode number `n`. -/
structure Wrote (i n : Nat) (buf : Nat → UInt8) (size written : UInt32) (ds : List Nat)
    (x : Inode) (σ σ' : FsState) : Prop where
  cached : Cached σ'
  fdArray : σ'.fdArray = Function.update σ.fdArray i ((σ.fdArray i).advance written)
  currentDir : σ'.currentDir = σ.currentDir
  currentDirPointer : σ'.currentDirPointer = σ.currentDirPointer
  fdArraySlist : σ'.fdArraySlist = σ.fdArraySlist
  imap : (volume σ'.disk).imap = (volume σ.disk).imap
  inode : (volume σ'.disk).inode = Function.update (volume σ.disk).inode n
    { x with size := ((volume σ.disk).inode n).size + written }
  places : x = ((volume σ.disk).inode n).places ds
  sizeAllocated : x.sizeAllocated.toNat =
    ((volume σ.disk).inode n).sizeAllocated.toNat + 512 * ds.length
  needed : ∀ m < ds.length, ((volume σ.disk).inode n).sizeAllocated.toNat + 512 * m <
    (σ.fdArray i).offset.toNat + size.toNat
  bound : ∀ d ∈ ds, d < dataItemNum
  unused : ∀ d ∈ ds, (volume σ.disk).used d = false
  used : ∀ e, (volume σ'.disk).used e = (decide (e ∈ ds) || (volume σ.disk).used e)
  counts : (volume σ.disk).Counts → (volume σ'.disk).Counts
  held : Held (volume σ'.disk) x
  frame : ∀ p, (∀ k < 10, k < x.blocks → p ≠ x.pointer k) →
    (volume σ'.disk).dir p = (volume σ.disk).dir p
  bytes : ∀ k < 10, k < x.blocks → ∀ j : Fin 512,
    (volume σ'.disk).bytes (x.pointer k) j =
      if (σ.fdArray i).offset.toNat ≤ 512 * k + j ∧
          512 * k + j < (σ.fdArray i).offset.toNat + written.toNat then
        buf (512 * k + j - max (σ.fdArray i).offset.toNat (512 * k))
      else (volume σ.disk).bytes (x.pointer k) j
  outcome : ∃ σ₁, Allocs σ ds σ₁ ∧
    ((written = size ∧ SameMap σ₁ σ' ∧
      (σ.fdArray i).offset.toNat + size.toNat ≤ x.sizeAllocated.toNat) ∨
    (written = 0 ∧ (darrayAlloc σ₁).2 = none ∧
      x.sizeAllocated.toNat < (σ.fdArray i).offset.toNat + size.toNat))

theorem Fills.cached (h : Fills i x buf size σ σ') (hcached : Cached σ) : Cached σ' := by
  have hstate := h.state
  have hvol := h.volume
  refine ⟨?_, ?_, ?_, fun hk => ?_⟩
  · rw [hvol, hstate]
    exact hcached.superBlock
  · rw [hvol, hstate]
    exact hcached.imap
  · rw [hstate]
    exact hcached.smapIndex
  · rw [hstate] at hk
    rw [hvol, hstate]
    exact hcached.smap hk

/-- Either way the blocks were reserved first, and then `written` bytes filled in. -/
theorem Writes.fills {written : UInt32} {ds : List Nat} {σ₁ : FsState}
    (h : Writes i x buf size written ds σ σ₁ σ') (hcached : Cached σ) :
    ∃ τ, Reserves σ τ ds ∧ Held (volume τ.disk) (x.places ds) ∧
      Fills i (x.places ds) buf written τ σ' := by
  have hres := h.allocs.reserves hcached
  rcases h.outcome with ⟨rfl, hfills, -⟩ | ⟨rfl, hnone, -⟩
  · exact ⟨σ₁, hres, h.held, hfills⟩
  · obtain ⟨hcached', hsame, hdisk⟩ := darrayAlloc_none hres.cached hnone
    have hheld := h.held
    rw [← hdisk] at hheld
    refine ⟨σ', ⟨hcached', hres.same.trans hsame, ?_, ?_, ?_, hres.bound, hres.unused,
      hres.nodup, ?_, ?_⟩, hheld, .zero σ'⟩
    · rw [hdisk, hres.imap]
    · rw [hdisk, hres.inode]
    · rw [hdisk, hres.dir]
    · rw [hdisk]
      exact hres.used
    · rw [hdisk]
      exact hres.counts

/-- The loop and the sector of inodes that is written after it. -/
theorem Writes.wrote {n : Nat} {written : UInt32} {ds : List Nat} {σ₁ σ₂ : FsState}
    (h : Writes i ((volume σ.disk).inode n) buf size written ds σ σ₁ σ₂) (hcached : Cached σ)
    (hcached' : Cached σ') (hstate : σ' = { σ₂ with disk := σ'.disk })
    (hvol : volume σ'.disk = { volume σ₂.disk with
      inode := Function.update (volume σ₂.disk).inode n
        { ((volume σ.disk).inode n).places ds with
          size := ((volume σ.disk).inode n).size + written } }) :
    Wrote i n buf size written ds (((volume σ.disk).inode n).places ds) σ σ' := by
  obtain ⟨τ, hres, hheld, hfills⟩ := h.fills hcached
  have hused : ∀ d, (volume σ'.disk).used d = (volume τ.disk).used d := by
    intro d
    rw [Volume.used, hvol]
    exact hfills.used d
  have hdir : (volume σ'.disk).dir = (volume σ₂.disk).dir := by rw [hvol]
  have hfd : τ.fdArray = σ.fdArray := hres.same.fdArray
  have hsmap : (volume σ'.disk).smap = (volume τ.disk).smap := by
    rw [hvol, hfills.volume]
  refine ⟨hcached', ?_, ?_, ?_, ?_, ?_, ?_, rfl, h.sizeAllocated, h.needed, hres.bound,
    hres.unused, fun e => (hused e).trans (hres.used e), fun hcounts => ?_,
    hheld.congr hused rfl rfl, ?_, ?_, ?_⟩
  · rw [hstate, hfills.state, hfd]
  · rw [hstate, hfills.state]
    exact hres.same.currentDir
  · rw [hstate, hfills.state]
    exact hres.same.currentDirPointer
  · rw [hstate, hfills.state]
    exact hres.same.fdArraySlist
  · rw [hvol, hfills.volume]
    exact hres.imap
  · rw [hvol, hfills.volume]
    exact congrArg (Function.update · n _) hres.inode
  · refine (hres.counts hcounts).congr ?_ ?_ hsmap
    · rw [hvol, hfills.volume]
    · rw [hvol, hfills.volume]
  · intro p hp
    rw [hdir, hfills.frame p hp, hres.dir]
  · intro k hk hkb j
    have hbytes := hfills.bytes k hk hkb j
    rw [Volume.bytes, ← hdir, hfd] at hbytes
    rw [Volume.bytes, hbytes, Volume.bytes, hres.dir]
    rfl
  · refine ⟨σ₁, h.allocs, ?_⟩
    rw [h.sizeAllocated]
    rcases h.outcome with ⟨hw, hfull, hle⟩ | ⟨hw, hnone, hlt⟩
    · refine .inl ⟨hw, ⟨?_, fun _ => ?_, ?_⟩, hle⟩
      · rw [hstate, hfull.state]
      · rw [hstate, hfull.state]
      · rw [hvol, hfull.volume]
    · exact .inr ⟨hw, by rw [hnone], hlt⟩

variable (buf) in
/-- A call within ten blocks, from an offset that the file has: the loop, and then the write of
the sector of inodes. -/
theorem fwriteStores_writes {fd : Int} {n : Nat} (hcached : Cached σ) (hfd : fdIndex fd = .ok i)
    (hwritable : (σ.fdArray i).writable = true) (hino : (σ.fdArray i).ino.toNat = n)
    (hn : n < inodeItemNum) (hheld : Held (volume σ.disk) ((volume σ.disk).inode n))
    (hoffset : (σ.fdArray i).offset.toNat ≤ ((volume σ.disk).inode n).sizeAllocated.toNat)
    (hfit : (σ.fdArray i).offset.toNat + size.toNat ≤ 5120) :
    ∃ written ds σ₁ σ₂ σ', Writes i ((volume σ.disk).inode n) buf size written ds σ σ₁ σ₂ ∧
      Cached σ' ∧ σ' = { σ₂ with disk := σ'.disk } ∧
      volume σ'.disk = { volume σ₂.disk with
        inode := Function.update (volume σ₂.disk).inode n
          { ((volume σ.disk).inode n).places ds with
            size := ((volume σ.disk).inode n).size + written } } ∧
      fwriteStores fd buf size σ =
        .ok (σ', written, storesFrom ((volume σ.disk).inode n).blocks ds) := by
  have hminus := ne_minus_of_fdIndex hfd
  have hread : Function.update (readInodes σ.disk n) (inoRemain n) ((volume σ.disk).inode n) =
      readInodes σ.disk n := by
    rw [← readInodes_remain σ.disk hn]
    exact Function.update_eq_self _ _
  obtain ⟨written, ds, σ₁, σ₂, hwrites, hloop⟩ := fwriteLoop_writes (inoRemain n)
    (readInodes σ.disk n) buf 0 (show _ < size.toNat + dataItemNum + 1 by
      show _ < size.toNat + 1048576 + 1
      omega) hcached hheld hoffset hfit
  obtain ⟨τ, hres, -, hfills⟩ := hwrites.fills hcached
  have hvol₂ : (volume σ₂.disk).inode = (volume σ.disk).inode := by
    rw [hfills.volume]
    exact hres.inode
  obtain ⟨hcached', hvol'⟩ := writeInodes_cached (hfills.cached hres.cached) hn hvol₂.symm
    { ((volume σ.disk).inode n).places ds with
      size := ((volume σ.disk).inode n).size + written }
  refine ⟨written, ds, σ₁, σ₂, _, hwrites, hcached', rfl, hvol', ?_⟩
  rw [hread] at hloop
  simp only [fwriteStores, if_neg hminus, hfd, ok_bind, hwritable, not_true_eq_false, if_false,
    hino, hloop, UInt32.zero_add]

variable (buf) in
theorem fwriteStores_wrote {fd : Int} {n : Nat} (hcached : Cached σ) (hfd : fdIndex fd = .ok i)
    (hwritable : (σ.fdArray i).writable = true) (hino : (σ.fdArray i).ino.toNat = n)
    (hn : n < inodeItemNum) (hheld : Held (volume σ.disk) ((volume σ.disk).inode n))
    (hoffset : (σ.fdArray i).offset.toNat ≤ ((volume σ.disk).inode n).sizeAllocated.toNat)
    (hfit : (σ.fdArray i).offset.toNat + size.toNat ≤ 5120) :
    ∃ written ds x σ', Wrote i n buf size written ds x σ σ' ∧
      fwriteStores fd buf size σ =
        .ok (σ', written, storesFrom ((volume σ.disk).inode n).blocks ds) := by
  obtain ⟨written, ds, σ₁, σ₂, σ', hwrites, hcached', hstate, hvol, hcall⟩ :=
    fwriteStores_writes buf hcached hfd hwritable hino hn hheld hoffset hfit
  exact ⟨written, ds, _, σ', hwrites.wrote hcached hcached' hstate hvol, hcall⟩

/-! ## Reading -/

def fileByte (v : Volume) (x : Inode) (pos : Nat) : UInt8 :=
  v.bytes (x.pointer (pos / 512)) ⟨pos % 512, Nat.mod_lt _ (by decide)⟩

/-- `n` bytes of a file from `pos` on. -/
def fileBytes (v : Volume) (x : Inode) (pos n : Nat) : List UInt8 :=
  (List.range n).map fun j => fileByte v x (pos + j)

theorem fileBytes_add (v : Volume) (x : Inode) (pos a b : Nat) :
    fileBytes v x pos (a + b) = fileBytes v x pos a ++ fileBytes v x (pos + a) b := by
  simp only [fileBytes, List.range_add, List.map_append, List.map_map]
  congr 1
  apply List.map_congr_left
  intro j _
  exact congrArg (fileByte v x) (Nat.add_assoc _ _ _).symm

theorem length_fileBytes (v : Volume) (x : Inode) (pos n : Nat) :
    (fileBytes v x pos n).length = n := by
  simp [fileBytes]

/-- A piece of a file whose content is known. -/
theorem fileBytes_piece {v : Volume} {x : Inode} {data : List UInt8}
    (hcontent : fileBytes v x 0 data.length = data) {o c : Nat} (hle : o + c ≤ data.length) :
    fileBytes v x o c = (data.drop o).take c := by
  obtain ⟨rest, hrest⟩ := Nat.exists_eq_add_of_le hle
  rw [hrest, fileBytes_add, fileBytes_add, Nat.zero_add] at hcontent
  rw [← hcontent, List.append_assoc, List.drop_left' (length_fileBytes v x 0 o),
    List.take_left' (length_fileBytes v x o c)]

theorem fileBytes_sector (v : Volume) (x : Inode) {pos n : Nat} (h : pos % 512 + n ≤ 512) :
    ((List.ofFn (v.bytes (x.pointer (pos / 512)))).drop (pos % 512)).take n =
      fileBytes v x pos n := by
  apply List.ext_getElem
  · simp only [List.length_take, List.length_drop, List.length_ofFn, fileBytes, List.length_map,
      List.length_range]
    omega
  · intro j hj _
    simp only [List.length_take, List.length_drop, List.length_ofFn] at hj
    have hdiv : (pos + j) / 512 = pos / 512 := by omega
    have hmod : (pos + j) % 512 = pos % 512 + j := by omega
    simp only [List.getElem_take, List.getElem_drop, List.getElem_ofFn, fileBytes,
      List.getElem_map, List.getElem_range, fileByte, hdiv, hmod]

/-- The loop of `fread` within what the file has. -/
theorem freadLoop_reads {fuel : Nat} (hfuel : size.toNat < fuel) (hheld : Held (volume σ.disk) x)
    (hroom : (σ.fdArray i).offset.toNat + size.toNat ≤ x.sizeAllocated.toNat)
    (hfit : (σ.fdArray i).offset.toNat + size.toNat ≤ 5120) :
    freadLoop x i fuel size σ =
      .ok (setFd i { σ.fdArray i with offset := (σ.fdArray i).offset + size } σ,
        fileBytes (volume σ.disk) x (σ.fdArray i).offset.toNat size.toNat) := by
  induction fuel generalizing size σ with
  | zero => exact absurd hfuel (Nat.not_lt_zero _)
  | succ fuel ih =>
      by_cases hsize : size = 0
      · subst hsize
        rw [freadLoop, if_pos rfl]
        simp [setFd, fileBytes]
      · have hpos : 0 < size.toNat := Nat.pos_of_ne_zero fun h => hsize (UInt32.toNat_inj.mp h)
        have haligned := hheld.aligned
        have hremain := toNat_offsetRemain (σ.fdArray i).offset
        have hlookup := offsetToPointer_direct σ.disk x
          (show (σ.fdArray i).offset.toNat < 5120 by omega)
        have hblock := hheld.isBlock (k := (σ.fdArray i).offset.toNat / 512) (by omega)
          (by rw [Inode.blocks]; omega)
        obtain ⟨t, ht, htval⟩ : ∃ t : UInt32,
            t.toNat = chunk (σ.fdArray i).offset.toNat size.toNat ∧
            (if size < sectorSize - offsetRemain (σ.fdArray i).offset then size
              else sectorSize - offsetRemain (σ.fdArray i).offset) = t :=
          ⟨_, toNat_chunk _ _, rfl⟩
        rw [chunk] at ht
        have hle : t ≤ size := by
          rw [UInt32.le_iff_toNat_le]
          omega
        have hrest : (size - t).toNat = size.toNat - t.toNat := UInt32.toNat_sub_of_le _ _ hle
        have hsum : t + (size - t) = size := by
          rw [UInt32.add_comm, UInt32.sub_add_cancel]
        have hadvance : ((σ.fdArray i).offset + t).toNat =
            (σ.fdArray i).offset.toNat + t.toNat := by
          rw [UInt32.toNat_add]
          exact Nat.mod_eq_of_lt (by omega)
        have hrec : freadLoop x i fuel (size - t)
            (setFd i { σ.fdArray i with offset := (σ.fdArray i).offset + t } σ) = _ :=
          ih (by omega) hheld (by rw [setFd_self]; dsimp only; omega)
            (by rw [setFd_self]; dsimp only; omega)
        have hcopied := fileBytes_sector (volume σ.disk) x
          (show (σ.fdArray i).offset.toNat % 512 + t.toNat ≤ 512 by omega)
        have hbytes := fileBytes_add (volume σ.disk) x (σ.fdArray i).offset.toNat t.toNat
          (size - t).toNat
        rw [show t.toNat + (size - t).toNat = size.toNat by omega] at hbytes
        rw [freadLoop]
        simp only [hsize, if_false, hlookup, ok_bind, htval, hremain, ← volume_bytes σ.disk hblock,
          hcopied, hrec, setFd_self, hadvance, hbytes]
        simp only [setFd, Function.update_idem, UInt32.add_assoc, hsum]

variable (size) in
/-- A call of `fread` through a descriptor that knows the size of its file. -/
theorem fread_reads {fd : Int} {n : Nat} (hfd : fdIndex fd = .ok i)
    (hreadable : (σ.fdArray i).readable = true) (hino : (σ.fdArray i).ino.toNat = n)
    (hn : n < inodeItemNum) (hheld : Held (volume σ.disk) ((volume σ.disk).inode n))
    (hoffset : (σ.fdArray i).offset.toNat ≤ (σ.fdArray i).size.toNat)
    (hroom : (σ.fdArray i).size.toNat ≤ ((volume σ.disk).inode n).sizeAllocated.toNat)
    (hfit : (σ.fdArray i).size.toNat ≤ 5120) :
    ∃ total : UInt32, total.toNat =
        min size.toNat ((σ.fdArray i).size.toNat - (σ.fdArray i).offset.toNat) ∧
      fread fd size σ =
        .ok (setFd i { σ.fdArray i with offset := (σ.fdArray i).offset + total } σ,
          fileBytes (volume σ.disk) ((volume σ.disk).inode n) (σ.fdArray i).offset.toNat
            total.toNat, total) := by
  have hminus := ne_minus_of_fdIndex hfd
  have hremain : ((σ.fdArray i).size - (σ.fdArray i).offset).toNat =
      (σ.fdArray i).size.toNat - (σ.fdArray i).offset.toNat :=
    UInt32.toNat_sub_of_le _ _ (UInt32.le_iff_toNat_le.mpr hoffset)
  obtain ⟨total, htotal, hval⟩ : ∃ total : UInt32, total.toNat =
      min size.toNat ((σ.fdArray i).size.toNat - (σ.fdArray i).offset.toNat) ∧
      (if (σ.fdArray i).size - (σ.fdArray i).offset < size
        then (σ.fdArray i).size - (σ.fdArray i).offset else size) = total := by
    refine ⟨_, ?_, rfl⟩
    rw [apply_ite UInt32.toNat, hremain]
    simp only [UInt32.lt_iff_toNat_lt, hremain]
    split <;> omega
  have hloop := freadLoop_reads (i := i) (show total.toNat < total.toNat + 1 by omega) hheld
    (by omega) (by omega)
  refine ⟨total, htotal, ?_⟩
  simp only [fread, if_neg hminus, hfd, ok_bind, hreadable, not_true_eq_false, if_false, hino,
    freadInode, readInodes_remain σ.disk hn, hval, hloop]

namespace Wrote

variable {n : Nat} {written : UInt32} {ds : List Nat}

section

variable (h : Wrote i n buf size written ds x σ σ')

include h

theorem inode_self : (volume σ'.disk).inode n =
    { x with size := ((volume σ.disk).inode n).size + written } := by
  rw [h.inode]
  exact Function.update_self _ _ _

theorem inode_other {m : Nat} (hm : m ≠ n) :
    (volume σ'.disk).inode m = (volume σ.disk).inode m := by
  rw [h.inode]
  exact Function.update_of_ne hm _ _

theorem pointer_self (k : Nat) : ((volume σ'.disk).inode n).pointer k = x.pointer k := by
  rw [h.inode_self]
  rfl

theorem blocks_self : ((volume σ'.disk).inode n).blocks = x.blocks := by
  rw [h.inode_self]
  rfl

theorem held_self : Held (volume σ'.disk) ((volume σ'.disk).inode n) := by
  rw [h.inode_self]
  exact h.held.congr (fun _ => rfl) rfl rfl

theorem fd_self : σ'.fdArray i = (σ.fdArray i).advance written := by
  rw [h.fdArray]
  exact Function.update_self _ _ _

theorem fd_other {j : Nat} (hj : j ≠ i) : σ'.fdArray j = σ.fdArray j := by
  rw [h.fdArray]
  exact Function.update_of_ne hj _ _

theorem name_same (name : CString) : isFileExist name σ' = isFileExist name σ := by
  rw [isFileExist, isFileExist, h.currentDir]

/-- The descriptor does not leave the file. -/
theorem offset_le (hfit : (σ.fdArray i).offset.toNat + size.toNat ≤ 5120)
    (hoffset : (σ.fdArray i).offset.toNat ≤ ((volume σ.disk).inode n).sizeAllocated.toNat) :
    (σ'.fdArray i).offset.toNat ≤ x.sizeAllocated.toNat := by
  have hsize := h.sizeAllocated
  rw [h.fd_self, Fd.advance, UInt32.toNat_add]
  obtain ⟨σ₁, -, ⟨rfl, -, hroom⟩ | ⟨rfl, -, -⟩⟩ := h.outcome
  · rwa [Nat.mod_eq_of_lt (by omega)]
  · rw [UInt32.toNat_zero, Nat.mod_eq_of_lt (by omega)]
    omega

/-- Blocks are only given to a file that needs them within the first ten. -/
theorem sizeAllocated_le (haligned : ((volume σ.disk).inode n).sizeAllocated.toNat % 512 = 0)
    (hfit : (σ.fdArray i).offset.toNat + size.toNat ≤ 5120) :
    ds = [] ∨ ((volume σ.disk).inode n).sizeAllocated.toNat + 512 * ds.length ≤ 5120 := by
  rcases Nat.eq_zero_or_pos ds.length with hzero | hpos
  · exact .inl (List.length_eq_zero_iff.mp hzero)
  · have hneeded := h.needed (ds.length - 1) (by omega)
    omega

/-- The file keeps the blocks it has. -/
theorem pointer_old (haligned : ((volume σ.disk).inode n).sizeAllocated.toNat % 512 = 0)
    (hfit : (σ.fdArray i).offset.toNat + size.toNat ≤ 5120) {k : Nat} (hk : k < 10)
    (hblocks : k < ((volume σ.disk).inode n).blocks) :
    x.pointer k = ((volume σ.disk).inode n).pointer k := by
  rw [h.places]
  rcases h.sizeAllocated_le haligned hfit with rfl | hle
  · rfl
  · rw [places_pointer hle haligned hk, if_neg (by omega)]

/-- The bytes of the file. -/
theorem fileByte {pos : Nat} (hpos : pos < 5120) (hblocks : pos / 512 < x.blocks) :
    Fs.fileByte (volume σ'.disk) ((volume σ'.disk).inode n) pos =
      if (σ.fdArray i).offset.toNat ≤ pos ∧
          pos < (σ.fdArray i).offset.toNat + written.toNat then
        buf (pos - max (σ.fdArray i).offset.toNat (512 * (pos / 512)))
      else Fs.fileByte (volume σ.disk) x pos := by
  have hbytes := h.bytes (pos / 512) (by omega) hblocks ⟨pos % 512, Nat.mod_lt _ (by decide)⟩
  have hdivMod : 512 * (pos / 512) + pos % 512 = pos := Nat.div_add_mod pos 512
  simp only [hdivMod] at hbytes
  rw [Fs.fileByte, h.pointer_self, hbytes]
  rfl

end

end Wrote

/-! ## A file -/

/-- Opening a file touches nothing but the descriptors. -/
theorem fopen_fields (s : CString) (access : UInt32) (σ : FsState) :
    ∃ fdArray fdArraySlist, (fopen s access σ).1 = { σ with fdArray, fdArraySlist } := by
  by_cases hexist : (isFileExist s σ).toNat = 0
  · refine ⟨σ.fdArray, σ.fdArraySlist, ?_⟩
    rw [fopen, if_pos hexist]
  · rw [fopen, if_neg hexist]
    dsimp only
    split
    · exact ⟨σ.fdArray, σ.fdArraySlist, rfl⟩
    · split
      · exact ⟨σ.fdArray, (slistAlloc σ.fdArraySlist).2, rfl⟩
      · exact ⟨_, (slistAlloc σ.fdArraySlist).2, rfl⟩

theorem Cached.congr (h : Cached σ) (fdArray : Nat → Fd) (fdArraySlist : Slist) :
    Cached { σ with fdArray, fdArraySlist } :=
  ⟨h.superBlock, h.imap, h.smapIndex, h.smap⟩

/-- A new file system after the boot. -/
def newFs : FsState :=
  mount (mkfs blankLocals
    { blankFs with fdArraySlist := slistInit blankFs.fdArraySlist fdArraySlistSize })

def fileName : CString := ⟨[0x61], noZero_a⟩

/-- The file `a` has been created and opened. -/
def openFs : FsState := (fopen fileName oRdwr (touch fileName newFs).1).1

theorem newFs_touched : ∃ p k n, Touched fileName newFs (touch fileName newFs).1 p k n := by
  have hmounted : Mounted newFs := (mkfs_mount_mounted blankLocals _).1
  have hnone : (touch fileName newFs).2 = none := by decide +kernel
  cases hrun : touch fileName newFs with
  | mk σ answer =>
      rw [hrun] at hnone
      obtain rfl : answer = none := hnone
      exact touch_spec hmounted hrun

theorem openFs_cached : Cached openFs := by
  obtain ⟨p, k, n, htouched⟩ := newFs_touched
  obtain ⟨fdArray, fdArraySlist, hopen⟩ := fopen_fields fileName oRdwr (touch fileName newFs).1
  rw [openFs, hopen]
  exact htouched.mounted.cached.congr fdArray fdArraySlist

end UcasOs.Fs
