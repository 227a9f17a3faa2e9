import UcasOs.Fs.RoundTrip

/-!
# `fwrite` is all or nothing

The loop of `fwrite` gets all the blocks that a request needs before it fills
the first sector, so a request for which there are too few blocks changes no
byte of the file.  What is stored is the request only as far as its first
sector; every further sector is filled from the start of the buffer again.
-/

namespace UcasOs.Fs

open UcasOs.Foundation UcasOs.Libs

/-- A writable descriptor of inode `n`, and a request that ends within the first ten blocks. -/
structure WriteRequest (fd : Int) (i n : Nat) (size : UInt32) (σ : FsState) : Prop where
  cached : Cached σ
  index : fdIndex fd = .ok i
  writable : (σ.fdArray i).writable = true
  ino : (σ.fdArray i).ino.toNat = n
  bound : n < inodeItemNum
  held : Held (volume σ.disk) ((volume σ.disk).inode n)
  offset : (σ.fdArray i).offset.toNat ≤ ((volume σ.disk).inode n).sizeAllocated.toNat
  fit : (σ.fdArray i).offset.toNat + size.toNat ≤ 5120

/-- The bytes `[start, stop)` are the only ones of the file that may have changed. -/
structure OnlyBytes (n start stop : Nat) (v v' : Volume) : Prop where
  byte : ∀ pos < 5120, pos < (v.inode n).sizeAllocated.toNat → ¬ (start ≤ pos ∧ pos < stop) →
    fileByte v' (v'.inode n) pos = fileByte v (v.inode n) pos
  block : ∀ p, (∀ k < 10, k < (v'.inode n).blocks → p ≠ (v'.inode n).pointer k) →
    v'.dir p = v.dir p

/-- The blocks that the file lacks. -/
def missing (i n : Nat) (size : UInt32) (σ : FsState) : Nat :=
  blocksFor ((σ.fdArray i).offset.toNat + size.toNat) - ((volume σ.disk).inode n).blocks

/-- Everything is stored. -/
structure StoresAll (i n : Nat) (buf : Nat → UInt8) (size written : UInt32) (σ σ' : FsState) :
    Prop where
  written : written = size
  stored : ∀ j < size.toNat, fileByte (volume σ'.disk) ((volume σ'.disk).inode n)
    ((σ.fdArray i).offset.toNat + j) = buf j
  others : OnlyBytes n (σ.fdArray i).offset.toNat ((σ.fdArray i).offset.toNat + size.toNat)
    (volume σ.disk) (volume σ'.disk)

/-- There were too few blocks, and nothing is stored. -/
structure StoresNothing (i n : Nat) (size written : UInt32) (σ σ' : FsState) : Prop where
  short : ¬ Allocates (missing i n size σ) σ
  written : written = 0
  size : ((volume σ'.disk).inode n).size = ((volume σ.disk).inode n).size
  fd : σ'.fdArray i = σ.fdArray i
  others : OnlyBytes n 0 0 (volume σ.disk) (volume σ'.disk)

def AllOrNothing (fd : Int) (i n : Nat) (buf : Nat → UInt8) (size : UInt32) (σ : FsState) : Prop :=
  ∃ σ' written, fwrite fd buf size σ = .ok (σ', written) ∧
    (StoresAll i n buf size written σ σ' ∨ StoresNothing i n size written σ σ')

/-- Where the request goes on in a new block, it goes on with its own beginning. -/
def GoesOn (offset size : Nat) (buf : Nat → UInt8) : Prop :=
  ∀ j < size, offset < 512 * ((offset + j) / 512) → buf j = buf ((offset + j) % 512)

variable {fd : Int} {i n : Nat} {buf : Nat → UInt8} {size written : UInt32} {σ σ' : FsState}
  {ds : List Nat} {x : Inode}

namespace WriteRequest

variable (h : WriteRequest fd i n size σ)
include h

variable (buf) in
theorem wrote : ∃ written ds x σ', Wrote i n buf size written ds x σ σ' ∧
    fwrite fd buf size σ = .ok (σ', written) := by
  obtain ⟨written, ds, x, σ', hwrote, hcall⟩ := fwriteStores_wrote buf h.cached h.index h.writable
    h.ino h.bound h.held h.offset h.fit
  refine ⟨written, ds, x, σ', hwrote, ?_⟩
  rw [fwrite, hcall]
  rfl

/-- A byte that the file had before. -/
theorem fileByte_old (hwrote : Wrote i n buf size written ds x σ σ') {pos : Nat} (hpos : pos < 5120)
    (hold : pos < ((volume σ.disk).inode n).sizeAllocated.toNat)
    (hout : ¬ ((σ.fdArray i).offset.toNat ≤ pos ∧
      pos < (σ.fdArray i).offset.toNat + written.toNat)) :
    fileByte (volume σ'.disk) ((volume σ'.disk).inode n) pos =
      fileByte (volume σ.disk) ((volume σ.disk).inode n) pos := by
  have haligned := h.held.aligned
  have hblocks : pos / 512 < ((volume σ.disk).inode n).blocks := by
    rw [Inode.blocks]
    omega
  have hsize := hwrote.sizeAllocated
  have hxblocks : pos / 512 < x.blocks := by
    rw [Inode.blocks]
    omega
  rw [hwrote.fileByte hpos hxblocks, if_neg hout, fileByte, fileByte,
    hwrote.pointer_old haligned h.fit (by omega) hblocks]

theorem onlyBytes (hwrote : Wrote i n buf size written ds x σ σ') :
    OnlyBytes n (σ.fdArray i).offset.toNat ((σ.fdArray i).offset.toNat + written.toNat)
      (volume σ.disk) (volume σ'.disk) := by
  refine ⟨fun pos hpos hold hout => h.fileByte_old hwrote hpos hold hout, fun p hp => ?_⟩
  refine hwrote.frame p fun k hk hkb => ?_
  rw [← hwrote.pointer_self]
  exact hp k hk (by rwa [hwrote.blocks_self])

/-- There were blocks enough exactly when all was written. -/
theorem outcome (hwrote : Wrote i n buf size written ds x σ σ') :
    (written = size ∧ Allocates (missing i n size σ) σ ∧
      (σ.fdArray i).offset.toNat + size.toNat ≤ x.sizeAllocated.toNat) ∨
    (written = 0 ∧ ¬ Allocates (missing i n size σ) σ) := by
  have haligned := h.held.aligned
  have hsize := hwrote.sizeAllocated
  obtain ⟨σ₁, hallocs, ⟨hw, -, hroom⟩ | ⟨hw, hnone, hfull⟩⟩ := hwrote.outcome
  · refine .inl ⟨hw, ⟨ds, σ₁, ?_, hallocs⟩, hroom⟩
    rw [missing, blocksFor, Inode.blocks]
    cases hds : ds.length with
    | zero => omega
    | succ m =>
        have hneeded := hwrote.needed m (by omega)
        omega
  · refine .inr ⟨hw, fun halloc => ?_⟩
    have hmore : ds.length < missing i n size σ := by
      rw [missing, blocksFor, Inode.blocks]
      omega
    obtain ⟨m, hm⟩ := Nat.exists_eq_add_of_lt hmore
    refine Allocates.ne_none (m := m) (Allocates.after ?_ hallocs) hnone
    rwa [← Nat.add_assoc, ← hm]

/-- What is stored is the request exactly when every new block goes on with its beginning. -/
theorem stored_iff (hwrote : Wrote i n buf size size ds x σ σ')
    (hroom : (σ.fdArray i).offset.toNat + size.toNat ≤ x.sizeAllocated.toNat) :
    (∀ j < size.toNat, fileByte (volume σ'.disk) ((volume σ'.disk).inode n)
      ((σ.fdArray i).offset.toNat + j) = buf j) ↔
    GoesOn (σ.fdArray i).offset.toNat size.toNat buf := by
  have hfit := h.fit
  have hbyte : ∀ j < size.toNat, fileByte (volume σ'.disk) ((volume σ'.disk).inode n)
      ((σ.fdArray i).offset.toNat + j) =
        buf ((σ.fdArray i).offset.toNat + j - max (σ.fdArray i).offset.toNat
          (512 * (((σ.fdArray i).offset.toNat + j) / 512))) := by
    intro j hj
    have haligned := hwrote.held.aligned
    have hblocks : ((σ.fdArray i).offset.toNat + j) / 512 < x.blocks := by
      rw [Inode.blocks]
      omega
    rw [hwrote.fileByte (by omega) hblocks, if_pos (by omega)]
  refine forall_congr' fun j => forall_congr' fun hj => ?_
  rw [hbyte j hj]
  by_cases hcross : (σ.fdArray i).offset.toNat < 512 * (((σ.fdArray i).offset.toNat + j) / 512)
  · rw [max_eq_right hcross.le]
    have hmod : (σ.fdArray i).offset.toNat + j -
        512 * (((σ.fdArray i).offset.toNat + j) / 512) =
          ((σ.fdArray i).offset.toNat + j) % 512 := by omega
    rw [hmod]
    exact ⟨fun heq _ => heq.symm, fun heq => (heq hcross).symm⟩
  · rw [max_eq_left (by omega), Nat.add_sub_cancel_left]
    exact ⟨fun _ hcross' => absurd hcross' hcross, fun _ => rfl⟩

/-- On a disk with blocks enough the request is stored only if it repeats its beginning. -/
theorem goesOn (hall : AllOrNothing fd i n buf size σ)
    (halloc : Allocates (missing i n size σ) σ) :
    GoesOn (σ.fdArray i).offset.toNat size.toNat buf := by
  obtain ⟨σ', written, hcall, hstores | hnothing⟩ := hall
  · obtain ⟨written', ds, x, σ'', hwrote, hcall'⟩ := h.wrote buf
    rw [hcall] at hcall'
    cases hcall'
    obtain ⟨hw, -, hroom⟩ | ⟨-, hnone⟩ := h.outcome hwrote
    · subst hw
      exact (h.stored_iff hwrote hroom).mp hstores.stored
    · exact absurd halloc hnone
  · exact absurd halloc hnothing.short

end WriteRequest

/-- A request is stored as a whole or not at all exactly when the blocks do not suffice for it or
each new block of it goes on with its beginning. -/
theorem allOrNothing_iff {fd : Int} {i n : Nat} {size : UInt32} {σ : FsState}
    (h : WriteRequest fd i n size σ) (buf : Nat → UInt8) :
    AllOrNothing fd i n buf size σ ↔
      ¬ Allocates (missing i n size σ) σ ∨ GoesOn (σ.fdArray i).offset.toNat size.toNat buf := by
  constructor
  · intro hall
    by_cases halloc : Allocates (missing i n size σ) σ
    · exact .inr (h.goesOn hall halloc)
    · exact .inl halloc
  · intro hcond
    obtain ⟨written, ds, x, σ', hwrote, hcall⟩ := h.wrote buf
    have honly := h.onlyBytes hwrote
    refine ⟨σ', written, hcall, ?_⟩
    obtain ⟨hw, halloc, hroom⟩ | ⟨hw, hnone⟩ := h.outcome hwrote
    · subst hw
      refine .inl ⟨rfl, (h.stored_iff hwrote hroom).mpr ?_, honly⟩
      exact hcond.resolve_left (not_not.mpr halloc)
    · subst hw
      refine .inr ⟨hnone, rfl, ?_, ?_, fun pos hpos hold _ => ?_, honly.block⟩
      · rw [hwrote.inode_self]
        exact UInt32.add_zero _
      · rw [hwrote.fd_self]
        simp [Fd.advance]
      · refine honly.byte pos hpos hold ?_
        rw [UInt32.toNat_zero]
        omega

theorem EmptyFile.writeRequest (h : EmptyFile fd n σ) (hfit : size.toNat ≤ 5120) :
    ∃ i, WriteRequest fd i n size σ ∧ (σ.fdArray i).offset.toNat = 0 ∧
      missing i n size σ = blocksFor size.toNat := by
  obtain ⟨i, hfd, hstart⟩ := h.appended
  have hoffset : (σ.fdArray i).offset.toNat = 0 := hstart.offset
  have hwritable : (σ.fdArray i).writable = true := by
    rw [Fd.writable, hstart.access]
    rfl
  refine ⟨i, ⟨h.cached, hfd, hwritable, hstart.ino, h.ino, hstart.held, ?_, ?_⟩, hoffset, ?_⟩
  · rw [hoffset]
    exact Nat.zero_le _
  · rw [hoffset, Nat.zero_add]
    exact hfit
  · rw [missing, hoffset, hstart.blocks, Nat.zero_add]
    rfl

/-- Three bytes in the first block of a file. -/
theorem allOrNothing_three :
    ∃ i, WriteRequest 0 i 1 3 openFs ∧ AllOrNothing 0 i 1 (source [1, 2, 3]) 3 openFs := by
  obtain ⟨i, hrequest, hoffset, -⟩ := openFs_empty.writeRequest (show (3 : UInt32).toNat ≤ 5120 by decide)
  refine ⟨i, hrequest, (allOrNothing_iff hrequest _).mpr (.inr fun j hj hcross => ?_)⟩
  rw [hoffset] at hcross
  have hj' : j < 3 := hj
  omega

/-- The byte behind a block of zeros is not stored. -/
theorem allOrNothing_not_overflowing :
    ¬ ∀ (fd : Int) (i n : Nat) (buf : Nat → UInt8) (size : UInt32) (σ : FsState),
      WriteRequest fd i n size σ → AllOrNothing fd i n buf size σ := by
  intro h
  obtain ⟨i, hrequest, hoffset, hmissing⟩ :=
    openFs_empty.writeRequest (show (513 : UInt32).toNat ≤ 5120 by decide)
  have halloc : Allocates (missing i 1 513 openFs) openFs := by
    rw [hmissing]
    exact openFs_allocates.2
  have hgoesOn := hrequest.goesOn (h 0 i 1 (source overflowing) 513 openFs hrequest) halloc
  have hlast := hgoesOn 512 (by decide) (by rw [hoffset]; decide)
  rw [hoffset] at hlast
  have hdiffer : source overflowing 512 ≠ source overflowing 0 := by decide +kernel
  exact hdiffer hlast

end UcasOs.Fs
