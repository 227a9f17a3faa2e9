import Mathlib.Data.Set.Function
import UcasOs.Fs.Files

/-!
# From an offset to a block

`offset_to_pointer` goes from an inode through up to three tables of pointers.
Which slot and which entries it takes is a path; the paths and the block
numbers correspond one to one.
-/

namespace UcasOs.Fs

open UcasOs.Foundation

/-- A slot of `pointers`, and the entry in each table on the way. -/
structure PointerPath where
  slot : UInt32
  indices : List UInt32
  deriving DecidableEq, Repr

namespace PointerPath

/-- A slot below 10 leads to a block; slots 10, 11 and 12 to one, two and three tables. -/
structure Valid (p : PointerPath) : Prop where
  slot : p.slot.toNat ≤ 12
  length : p.indices.length = p.slot.toNat - 9
  indices : ∀ i ∈ p.indices, i.toNat < 128

def follow (p : PointerPath) (disk : Store) (inode : Inode) : UInt32 :=
  p.indices.foldl (tableEntry disk) (inode.pointers (Fin.ofNat 13 p.slot.toNat))

/-- The number of the block at the end of a path. -/
def block (p : PointerPath) : Nat :=
  match p.indices with
  | [] => p.slot.toNat
  | [i] => 10 + i.toNat
  | [i, j] => 138 + 128 * i.toNat + j.toNat
  | i :: j :: k :: _ => 16522 + 16384 * i.toNat + 128 * j.toNat + k.toNat

end PointerPath

/-- The path that `offset_to_pointer` takes. -/
def offsetPath (offset : UInt32) : Except Fault PointerPath :=
  let offset := offset / 512
  match seg offset with
  | 0 => .ok ⟨offset, []⟩
  | 1 => .ok ⟨10, [offset - 10]⟩
  | 2 =>
      let offset := offset - 138
      let i := offset / 128
      .ok ⟨11, [i, offset - i * 128]⟩
  | 3 =>
      let offset := offset - 16522
      let i := offset / (128 * 128)
      let offset := offset - i * 128 * 128
      let j := offset / 128
      .ok ⟨12, [i, j, offset - j * 128]⟩
  | _ => .error .wrongSeg

theorem offsetToPointer_eq_follow (disk : Store) (inode : Inode) (offset : UInt32) :
    offsetToPointer disk inode offset = (offsetPath offset).map (·.follow disk inode) := by
  unfold offsetToPointer offsetPath
  dsimp only
  generalize seg (offset / 512) = n
  match n with
  | 0 => rfl
  | 1 => rfl
  | 2 => rfl
  | 3 => rfl
  | _ + 4 => rfl

/-! ## The four ranges -/

theorem seg_eq (o : UInt32) :
    seg o = if o.toNat < 10 then 0 else if o.toNat < 138 then 1 else if o.toNat < 16522 then 2
      else if o.toNat < 2113674 then 3 else 4 := by
  have hge : ∀ c : UInt32, (decide (o ≥ c)).toNat = if c.toNat ≤ o.toNat then 1 else 0 := by
    intro c
    by_cases h : c.toNat ≤ o.toNat
    · rw [if_pos h, decide_eq_true (UInt32.le_iff_toNat_le.mpr h)]
      rfl
    · rw [if_neg h, decide_eq_false fun hle => h (UInt32.le_iff_toNat_le.mp hle)]
      rfl
  rw [seg, hge, hge, hge, hge]
  show (if 10 ≤ o.toNat then 1 else 0) + (if 138 ≤ o.toNat then 1 else 0) +
    (if 16522 ≤ o.toNat then 1 else 0) + (if 2113674 ≤ o.toNat then 1 else 0) = _
  split_ifs <;> omega

theorem PointerPath.Valid.cases {p : PointerPath} (h : p.Valid) :
    (∃ slot : UInt32, slot.toNat < 10 ∧ p = ⟨slot, []⟩) ∨
    (∃ i : UInt32, i.toNat < 128 ∧ p = ⟨10, [i]⟩) ∨
    (∃ i j : UInt32, i.toNat < 128 ∧ j.toNat < 128 ∧ p = ⟨11, [i, j]⟩) ∨
    ∃ i j k : UInt32, i.toNat < 128 ∧ j.toNat < 128 ∧ k.toNat < 128 ∧ p = ⟨12, [i, j, k]⟩ := by
  obtain ⟨slot, indices⟩ := p
  obtain ⟨hslot, hlength, hindices⟩ := h
  dsimp only at hslot hlength hindices
  match indices with
  | [] =>
      rw [List.length_nil] at hlength
      exact .inl ⟨slot, by omega, rfl⟩
  | [i] =>
      rw [List.length_singleton] at hlength
      obtain rfl : slot = 10 := UInt32.toNat_inj.mp (show slot.toNat = 10 by omega)
      exact .inr (.inl ⟨i, hindices i (by simp), rfl⟩)
  | [i, j] =>
      simp only [List.length_cons, List.length_nil] at hlength
      obtain rfl : slot = 11 := UInt32.toNat_inj.mp (show slot.toNat = 11 by omega)
      exact .inr (.inr (.inl ⟨i, j, hindices i (by simp), hindices j (by simp), rfl⟩))
  | [i, j, k] =>
      simp only [List.length_cons, List.length_nil] at hlength
      obtain rfl : slot = 12 := UInt32.toNat_inj.mp (show slot.toNat = 12 by omega)
      exact .inr (.inr (.inr ⟨i, j, k, hindices i (by simp), hindices j (by simp),
        hindices k (by simp), rfl⟩))
  | i :: j :: k :: l :: rest =>
      simp only [List.length_cons] at hlength
      omega

theorem PointerPath.Valid.block_lt {p : PointerPath} (h : p.Valid) : p.block < 2113674 := by
  rcases h.cases with ⟨slot, hs, rfl⟩ | ⟨i, hi, rfl⟩ | ⟨i, j, hi, hj, rfl⟩ | ⟨i, j, k, hi, hj, hk, rfl⟩
  · show slot.toNat < _
    omega
  · show 10 + i.toNat < _
    omega
  · show 138 + 128 * i.toNat + j.toNat < _
    omega
  · show 16522 + 16384 * i.toNat + 128 * j.toNat + k.toNat < _
    omega

/-- A path is determined by its block: the ranges do not meet, and within a range the entries are
the digits of a number. -/
theorem PointerPath.Valid.block_inj {p q : PointerPath} (hp : p.Valid) (hq : q.Valid)
    (h : p.block = q.block) : p = q := by
  rcases hp.cases with ⟨s, hs, rfl⟩ | ⟨i, hi, rfl⟩ | ⟨i, j, hi, hj, rfl⟩ | ⟨i, j, k, hi, hj, hk, rfl⟩ <;>
    rcases hq.cases with ⟨s', hs', rfl⟩ | ⟨i', hi', rfl⟩ | ⟨i', j', hi', hj', rfl⟩ |
      ⟨i', j', k', hi', hj', hk', rfl⟩ <;>
    simp only [PointerPath.block] at h
  case inl.inl =>
      obtain rfl : s = s' := UInt32.toNat_inj.mp h
      rfl
  case inr.inl.inr.inl =>
      obtain rfl : i = i' := UInt32.toNat_inj.mp (by omega)
      rfl
  case inr.inr.inl.inr.inr.inl =>
      obtain rfl : i = i' := UInt32.toNat_inj.mp (by omega)
      obtain rfl : j = j' := UInt32.toNat_inj.mp (by omega)
      rfl
  case inr.inr.inr.inr.inr.inr =>
      obtain rfl : i = i' := UInt32.toNat_inj.mp (by omega)
      obtain rfl : j = j' := UInt32.toNat_inj.mp (by omega)
      obtain rfl : k = k' := UInt32.toNat_inj.mp (by omega)
      rfl
  all_goals omega

theorem toNat_block (offset : UInt32) : (offset / 512).toNat = offset.toNat / 512 :=
  UInt32.toNat_div _ _

/-- In every range the quotients and remainders are entries of tables, and lead back to the
block. -/
theorem offsetPath_ok {offset : UInt32} (h : offset.toNat / 512 < 2113674) :
    ∃ p, offsetPath offset = .ok p ∧ p.Valid ∧ p.block = offset.toNat / 512 := by
  have ho := toNat_block offset
  unfold offsetPath
  dsimp only
  rw [seg_eq]
  generalize offset / 512 = o at ho
  by_cases h₀ : o.toNat < 10
  · rw [if_pos h₀]
    exact ⟨_, rfl, ⟨by dsimp only; omega, by dsimp only; simp; omega, by simp⟩, ho⟩
  by_cases h₁ : o.toNat < 138
  · rw [if_neg h₀, if_pos h₁]
    have hi : (o - 10).toNat = o.toNat - 10 :=
      UInt32.toNat_sub_of_le _ _ (UInt32.le_iff_toNat_le.mpr (by show 10 ≤ _; omega))
    refine ⟨_, rfl, ⟨Nat.le_of_ble_eq_true rfl, rfl, ?_⟩, ?_⟩
    · rw [List.forall_mem_singleton, hi]
      omega
    · show 10 + (o - 10).toNat = _
      omega
  by_cases h₂ : o.toNat < 16522
  · rw [if_neg h₀, if_neg h₁, if_pos h₂]
    have hx : (o - 138).toNat = o.toNat - 138 :=
      UInt32.toNat_sub_of_le _ _ (UInt32.le_iff_toNat_le.mpr (by show 138 ≤ _; omega))
    generalize o - 138 = x at hx
    have hi : (x / 128).toNat = x.toNat / 128 := UInt32.toNat_div _ _
    have hj : (x - x / 128 * 128).toNat = x.toNat % 128 := Word.toNat_sub_div_mul x 128
    refine ⟨_, rfl, ⟨Nat.le_of_ble_eq_true rfl, rfl, ?_⟩, ?_⟩
    · simp only [List.forall_mem_cons, List.not_mem_nil, hi, hj]
      exact ⟨by omega, by omega, by simp⟩
    · show 138 + 128 * (x / 128).toNat + (x - x / 128 * 128).toNat = _
      omega
  · have h₃ : o.toNat < 2113674 := by omega
    rw [if_neg h₀, if_neg h₁, if_neg h₂, if_pos h₃]
    have hx : (o - 16522).toNat = o.toNat - 16522 :=
      UInt32.toNat_sub_of_le _ _ (UInt32.le_iff_toNat_le.mpr (by show 16522 ≤ _; omega))
    generalize o - 16522 = x at hx
    have hi : (x / (128 * 128)).toNat = x.toNat / 16384 := UInt32.toNat_div _ _
    have hy : (x - x / (128 * 128) * 128 * 128).toNat = x.toNat % 16384 := by
      rw [UInt32.mul_assoc]
      exact Word.toNat_sub_div_mul x (128 * 128)
    generalize x - x / (128 * 128) * 128 * 128 = y at hy
    have hj : (y / 128).toNat = y.toNat / 128 := UInt32.toNat_div _ _
    have hk : (y - y / 128 * 128).toNat = y.toNat % 128 := Word.toNat_sub_div_mul y 128
    refine ⟨_, rfl, ⟨Nat.le_of_ble_eq_true rfl, rfl, ?_⟩, ?_⟩
    · simp only [List.forall_mem_cons, List.not_mem_nil, hi, hj, hk]
      exact ⟨by omega, by omega, by omega, by simp⟩
    · show 16522 + 16384 * (x / (128 * 128)).toNat + 128 * (y / 128).toNat +
        (y - y / 128 * 128).toNat = _
      omega

theorem offsetPath_error {offset : UInt32} (h : 2113674 ≤ offset.toNat / 512) :
    offsetPath offset = .error .wrongSeg := by
  have ho := toNat_block offset
  unfold offsetPath
  dsimp only
  rw [seg_eq, if_neg (by omega), if_neg (by omega), if_neg (by omega), if_neg (by omega)]
  rfl

/-- The path to a block. -/
def blockPath (block : Nat) : Except Fault PointerPath := offsetPath (UInt32.ofNat (512 * block))

theorem toNat_blockStart {block : Nat} (h : block < 2113674) :
    (UInt32.ofNat (512 * block)).toNat / 512 = block := by
  rw [UInt32.toNat_ofNat', Nat.mod_eq_of_lt (by omega)]
  omega

theorem blockPath_ok {block : Nat} (h : block < 2113674) :
    ∃ p, blockPath block = .ok p ∧ p.Valid ∧ p.block = block := by
  have hstart := toNat_blockStart h
  obtain ⟨p, hp, hvalid, hblock⟩ := offsetPath_ok (by omega :
    (UInt32.ofNat (512 * block)).toNat / 512 < 2113674)
  exact ⟨p, hp, hvalid, hblock.trans hstart⟩

theorem blockPath_bijOn : Set.BijOn blockPath {block | block < 2113674}
    (Set.image .ok {p : PointerPath | p.Valid}) := by
  refine ⟨fun block hblock => ?_, fun block hblock block' hblock' heq => ?_, ?_⟩
  · obtain ⟨p, hp, hvalid, -⟩ := blockPath_ok hblock
    exact ⟨p, hvalid, hp.symm⟩
  · obtain ⟨p, hp, -, hpb⟩ := blockPath_ok hblock
    obtain ⟨q, hq, -, hqb⟩ := blockPath_ok hblock'
    obtain rfl : p = q := Except.ok.inj (hp.symm.trans (heq.trans hq))
    exact hpb.symm.trans hqb
  · rintro _ ⟨p, hvalid, rfl⟩
    obtain ⟨q, hq, hqvalid, hqb⟩ := blockPath_ok hvalid.block_lt
    exact ⟨p.block, hvalid.block_lt, by rw [hq, hqvalid.block_inj hvalid hqb]⟩

/-- How an offset is taken apart. -/
structure Decomposes (offset : UInt32) : Prop where
  remain : (offsetRemain offset).toNat = offset.toNat % 512
  path : offset.toNat / 512 < 2113674 → ∃ p, blockPath (offset.toNat / 512) = .ok p ∧ p.Valid ∧
    ∀ disk inode, offsetToPointer disk inode offset = .ok (p.follow disk inode)
  panic : 2113674 ≤ offset.toNat / 512 →
    ∀ disk inode, offsetToPointer disk inode offset = .error .wrongSeg

/-- Every offset takes the path of its block or stops, and blocks and paths correspond one to
one. -/
theorem offset_decomposes : (∀ offset, Decomposes offset) ∧
    Set.BijOn blockPath {block | block < 2113674} (Set.image .ok {p : PointerPath | p.Valid}) := by
  refine ⟨fun offset => ⟨toNat_offsetRemain offset, fun h => ?_, fun h disk inode => ?_⟩,
    blockPath_bijOn⟩
  · obtain ⟨p, hp, hvalid, hblock⟩ := offsetPath_ok h
    obtain ⟨q, hq, hqvalid, hqblock⟩ := blockPath_ok h
    obtain rfl : p = q := hvalid.block_inj hqvalid (hblock.trans hqblock.symm)
    refine ⟨p, hq, hvalid, fun disk inode => ?_⟩
    rw [offsetToPointer_eq_follow, hp]
    rfl
  · rw [offsetToPointer_eq_follow, offsetPath_error h]
    rfl

end UcasOs.Fs
