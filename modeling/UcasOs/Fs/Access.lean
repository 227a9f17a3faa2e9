import UcasOs.Fs.Descriptors
import UcasOs.Fs.RoundTrip

/-!
# Access after `fseek`

`fread` and `fwrite` compute what remains of a file as the difference of two
words.  Behind the end of the file the difference wraps around, and both go on
as if the file were large enough.  To see which blocks they use, the lookup of
a block is made a parameter of the calls: `ownedPointer` refuses every pointer
that was not set for the file.
-/

namespace UcasOs.Fs

open UcasOs.Foundation UcasOs.Libs

/-! ## The calls with another lookup -/

abbrev Lookup := Store → Inode → UInt32 → Except Fault UInt32

def fwriteLoopVia (lookup : Lookup) (i : Nat) (r : Fin 8) (buf : Nat → UInt8) :
    Nat → (Fin 8 → Inode) → UInt32 → UInt32 → FsState →
      Except Fault (FsState × (Fin 8 → Inode) × UInt32 × List (Nat × Nat))
  | 0, _, _, _, _ => .error .endless
  | n + 1, inode, size, sizeWritten, σ =>
      if size = 0 then .ok (σ, inode, sizeWritten, [])
      else
        let f := σ.fdArray i
        let remain := (inode r).sizeAllocated - f.offset
        if remain ≥ size then do
          let p ← lookup σ.disk (inode r) f.offset
          let readSize := offsetRemain f.offset
          let t := if size < 512 - readSize then size else 512 - readSize
          let writeBuf := memcopy (sdread σ.disk p) readSize.toNat buf t.toNat
          let inode := Function.update inode r { inode r with size := (inode r).size + t }
          let σ := { σ with disk := sdwrite writeBuf p σ.disk }
          let σ := setFd i { f with offset := f.offset + t, size := f.size + t } σ
          fwriteLoopVia lookup i r buf n inode (size - t) (sizeWritten + t) σ
        else
          let pi := (inode r).sizeAllocated / 512
          match darrayAlloc σ with
          | (σ, none) => .ok (σ, inode, sizeWritten, [])
          | (σ, some dno) => do
              let inode ← storePointer inode r pi.toNat (dataBlock dno)
              let inode := Function.update inode r
                { inode r with sizeAllocated := (inode r).sizeAllocated + 512 }
              let (σ, inode, sizeWritten, stores) ←
                fwriteLoopVia lookup i r buf n inode size sizeWritten σ
              .ok (σ, inode, sizeWritten, (pi.toNat, dno) :: stores)

/-- The lookup among the pointers that were set for the file. -/
def ownedPointer : Lookup := fun disk x offset =>
  if offset.toNat / 512 < 10 ∧ offset.toNat / 512 < x.blocks then offsetToPointer disk x offset
  else .error .wrongSeg

variable {i : Nat} {r : Fin 8} {I : Fin 8 → Inode} {buf : Nat → UInt8} {x : Inode}
  {size w : UInt32} {σ : FsState}

/-- What one round takes of a request. -/
theorem exists_chunk (offset size : UInt32) :
    ∃ t : UInt32, (if size < 512 - offsetRemain offset then size else 512 - offsetRemain offset) = t ∧
      t.toNat = min size.toNat (512 - offset.toNat % 512) ∧
      (size - t).toNat = size.toNat - t.toNat := by
  have ht := toNat_chunk offset size
  rw [chunk] at ht
  refine ⟨_, rfl, ht, UInt32.toNat_sub_of_le _ _ ?_⟩
  rw [UInt32.le_iff_toNat_le, ht]
  exact min_le_left _ _

/-- A descriptor of inode `n`, a file of at most ten blocks; its offset is any word. -/
structure OpenFile (fd : Int) (i n : Nat) (σ : FsState) : Prop where
  index : fdIndex fd = .ok i
  ino : (σ.fdArray i).ino.toNat = n
  bound : n < inodeItemNum
  size : (σ.fdArray i).size = ((volume σ.disk).inode n).size
  aligned : ((volume σ.disk).inode n).sizeAllocated.toNat % 512 = 0
  ten : ((volume σ.disk).inode n).sizeAllocated.toNat ≤ 5120

theorem storePointer_ok_iff {pi : Nat} {p : UInt32} :
    (∃ I', storePointer I r pi p = .ok I') ↔ r.val * 16 + 3 + pi < 128 := by
  have := r.isLt
  unfold storePointer
  split
  case isTrue hpi => exact iff_of_true ⟨_, rfl⟩ (by omega)
  case isFalse =>
      split
      case isTrue hword => exact iff_of_true ⟨_, rfl⟩ hword
      case isFalse hword => exact iff_of_false (fun ⟨_, h⟩ => (nomatch h)) hword

/--
The disk runs out of blocks before the file has room for the request, as the
loop computes it, and before a store to `pointers[]` leaves the buffer.
-/
def RunsDry (i : Nat) (r : Fin 8) (x : Inode) (size : UInt32) (σ : FsState) : Prop :=
  ∃ ds σ₁, Allocs σ ds σ₁ ∧ (darrayAlloc σ₁).2 = none ∧
    (∀ j ≤ ds.length,
      ¬ UInt32.ofNat (x.sizeAllocated.toNat + 512 * j) - (σ.fdArray i).offset ≥ size) ∧
    ∀ j < ds.length, r.val * 16 + 3 + (x.blocks + j) < 128

/-- The request begins within what is allocated, and ends within ten blocks. -/
def WriteFits (offset allocated size : Nat) : Prop := offset ≤ allocated ∧ offset + size ≤ 5120

/-- One more block in front. -/
theorem RunsDry.cons {d : Nat} {σ₁ : FsState} {y : Inode} (h : RunsDry i r y size σ₁)
    (halloc : darrayAlloc σ = (σ₁, some d)) (hfd : σ₁.fdArray = σ.fdArray)
    (hroom : ¬ x.sizeAllocated - (σ.fdArray i).offset ≥ size)
    (hstore : r.val * 16 + 3 + x.blocks < 128)
    (hsize : y.sizeAllocated.toNat = x.sizeAllocated.toNat + 512) : RunsDry i r x size σ := by
  obtain ⟨ds, σ₂, hallocs, hnone, hrooms, hstores⟩ := h
  have hblocks : y.blocks = x.blocks + 1 := by
    rw [Inode.blocks, hsize, Inode.blocks]
    omega
  refine ⟨d :: ds, σ₂, .cons halloc hallocs, hnone, fun j hj => ?_, fun j hj => ?_⟩
  · cases j with
    | zero => rwa [Nat.mul_zero, Nat.add_zero, UInt32.ofNat_toNat]
    | succ j =>
        have hj' := hrooms j (Nat.le_of_succ_le_succ hj)
        rwa [hsize, hfd, show x.sizeAllocated.toNat + 512 + 512 * j =
          x.sizeAllocated.toNat + 512 * (j + 1) by omega] at hj'
  · cases j with
    | zero => exact hstore
    | succ j =>
        have hj' := hstores j (Nat.lt_of_succ_lt_succ hj)
        omega

/-- The block that is stored at `pointers[pi]`, when that is inside the buffer. -/
theorem storePointer_grows {d : Nat} {I₁ : Fin 8 → Inode}
    (hstore : storePointer I r ((I r).sizeAllocated / 512).toNat (dataBlock d) = .ok I₁) :
    r.val * 16 + 3 + (I r).blocks < 128 ∧
      ((I₁ r).sizeAllocated + 512).toNat = (I r).sizeAllocated.toNat + 512 := by
  have hinside := storePointer_ok_iff.mp ⟨I₁, hstore⟩
  rw [UInt32.toNat_div] at hinside
  have hblocks : r.val * 16 + 3 + (I r).blocks < 128 := hinside
  refine ⟨hblocks, ?_⟩
  rw [(storePointer_self hstore).2.2, UInt32.toNat_add]
  rw [Inode.blocks] at hblocks
  exact Nat.mod_eq_of_lt (by
    show _ + 512 < _
    omega)

/-- A request that fits stays among the pointers of the file. -/
theorem WriteFits.ok {fuel : Nat} (haligned : (I r).sizeAllocated.toNat % 512 = 0)
    (hfuel : size.toNat + (10 - (I r).blocks) < fuel)
    (h : WriteFits (σ.fdArray i).offset.toNat (I r).sizeAllocated.toNat size.toNat) :
    ∃ a, fwriteLoopVia ownedPointer i r buf fuel I size w σ = .ok a := by
  obtain ⟨hoffset, hfit⟩ := h
  induction fuel generalizing I size w σ with
  | zero => exact absurd hfuel (Nat.not_lt_zero _)
  | succ fuel ih =>
      rw [fwriteLoopVia]
      split
      case isTrue => exact ⟨_, rfl⟩
      case isFalse hsize =>
          have hpos : 0 < size.toNat := Nat.pos_of_ne_zero fun h => hsize (UInt32.toNat_inj.mp h)
          have hremain : ((I r).sizeAllocated - (σ.fdArray i).offset).toNat =
              (I r).sizeAllocated.toNat - (σ.fdArray i).offset.toNat :=
            UInt32.toNat_sub_of_le _ _ (UInt32.le_iff_toNat_le.mpr hoffset)
          dsimp only
          split
          case isTrue hroom =>
              rw [ge_iff_le, UInt32.le_iff_toNat_le, hremain] at hroom
              have hinside : (σ.fdArray i).offset.toNat / 512 < 10 ∧
                  (σ.fdArray i).offset.toNat / 512 < (I r).blocks := by
                rw [Inode.blocks]
                omega
              have hlookup : ownedPointer σ.disk (I r) (σ.fdArray i).offset =
                  .ok ((I r).pointer ((σ.fdArray i).offset.toNat / 512)) := by
                rw [ownedPointer, if_pos hinside, offsetToPointer_direct σ.disk (I r) (by omega)]
              obtain ⟨t, htval, ht, hrest⟩ := exists_chunk (σ.fdArray i).offset size
              have hsum : ((σ.fdArray i).offset + t).toNat =
                  (σ.fdArray i).offset.toNat + t.toNat := by
                rw [UInt32.toNat_add]
                exact Nat.mod_eq_of_lt (by omega)
              rw [hlookup, ok_bind, htval]
              refine ih ?_ ?_ ?_ ?_
              · rw [Function.update_self]
                exact haligned
              · rw [Function.update_self, hrest]
                show _ + (10 - (I r).blocks) < fuel
                omega
              · rw [setFd_self, Function.update_self]
                dsimp only
                omega
              · rw [setFd_self]
                dsimp only
                omega
          case isFalse hroom =>
              rw [ge_iff_le, UInt32.le_iff_toNat_le, hremain] at hroom
              have hsame := (darrayAlloc_sameDir σ).1
              split
              case h_1 => exact ⟨_, rfl⟩
              case h_2 σ₁ d halloc =>
                  rw [halloc] at hsame
                  have hblocks : (I r).blocks < 10 := by
                    rw [Inode.blocks]
                    omega
                  obtain ⟨I₁, hstore⟩ : ∃ I₁, storePointer I r ((I r).sizeAllocated / 512).toNat
                      (dataBlock d) = .ok I₁ := by
                    refine storePointer_ok_iff.mpr ?_
                    have := r.isLt
                    rw [UInt32.toNat_div]
                    show _ + (I r).blocks < 128
                    omega
                  obtain ⟨-, hgrown⟩ := storePointer_grows hstore
                  obtain ⟨b, hloop⟩ : ∃ b, fwriteLoopVia ownedPointer i r buf fuel
                      (Function.update I₁ r
                        { I₁ r with sizeAllocated := (I₁ r).sizeAllocated + 512 }) size w σ₁ =
                      .ok b := by
                    refine ih ?_ ?_ ?_ ?_
                    · rw [Function.update_self]
                      show ((I₁ r).sizeAllocated + 512).toNat % 512 = 0
                      omega
                    · rw [Function.update_self, Inode.blocks]
                      show _ + (10 - ((I₁ r).sizeAllocated + 512).toNat / 512) < fuel
                      rw [Inode.blocks] at hfuel
                      omega
                    · rw [Function.update_self, hsame.fdArray]
                      show _ ≤ ((I₁ r).sizeAllocated + 512).toNat
                      omega
                    · rw [hsame.fdArray]
                      exact hfit
                  exact ⟨_, bind_eq_ok.mpr ⟨I₁, hstore, bind_eq_ok.mpr ⟨b, hloop, rfl⟩⟩⟩

theorem OpenFile.fseek {fd : Int} {n : Nat} (h : OpenFile fd i n σ) (offset : UInt32) :
    Fs.fseek fd offset σ = .ok (setFd i { σ.fdArray i with offset := offset } σ) ∧
      OpenFile fd i n (setFd i { σ.fdArray i with offset := offset } σ) := by
  refine ⟨?_, h.index, ?_, h.bound, ?_, h.aligned, h.ten⟩
  · rw [Fs.fseek, if_neg (ne_minus_of_fdIndex h.index), h.index]
    rfl
  · rw [setFd_self]
    exact h.ino
  · rw [setFd_self]
    exact h.size

end UcasOs.Fs
