import UcasOs.Fs.Maps
import UcasOs.Foundation.Naming

/-!
# A consistent volume

The directories form a tree of names over the live inodes, every data block in
use has one owner, and the counters of the superblock count.  Creating and
removing a name are described by what they change; both keep the volume
consistent.
-/

namespace UcasOs.Fs

open UcasOs.Foundation UcasOs.Foundation.Naming UcasOs.Libs

/-- The name of an entry, up to its terminating zero. -/
def DMap.nameOf (e : DMap) : List UInt8 := untilZero (List.ofFn e.name)

namespace Volume

variable (v : Volume)

def isDir (n : Nat) : Prop := (v.inode n).type = fileDir

def block (n : Nat) : UInt32 := (v.inode n).pointers 0

/-- The directory in the first block of an inode. -/
def content (n : Nat) : Dir := v.dir (v.block n)

instance (n : Nat) : Decidable (v.isDir n) := inferInstanceAs (Decidable (_ = _))

/-- The inode named by an entry of a directory. -/
def entry (n : Nat) (k : Fin maxDirItemNum) : Option Nat :=
  if v.isDir n ∧ ((v.content n).map k).valid ≠ 0 then some ((v.content n).map k).ino.toNat
  else none

structure LiveDir (n : Nat) : Prop where
  live : v.live n = true
  dir : v.isDir n

/-- The `k`-th pointer of inode `n` points to a block of its own. -/
structure Owns (n : Nat) (k : Fin 13) : Prop where
  live : v.live n = true
  allocated : k.val < (v.inode n).sizeAllocated.toNat / 512

structure Tree : Prop where
  reach : ∀ n, v.live n = true ↔ Reachable v.entry 0 n
  unambiguous : Unambiguous v.entry 0
  rootDir : v.isDir 0
  rootBlock : v.block 0 = darrayAddr
  names : ∀ n k k', v.LiveDir n → ((v.content n).map k).valid ≠ 0 →
    ((v.content n).map k').valid ≠ 0 →
    ((v.content n).map k).nameOf = ((v.content n).map k').nameOf → k = k'
  parents : ∀ p k c, v.LiveDir p → v.entry p k = some c → v.isDir c →
    (v.content c).fpointer = v.block p

structure Blocks : Prop where
  owned : ∀ n k, v.Owns n k →
    ∃ d < dataItemNum, (v.inode n).pointers k = dataBlock d ∧ v.used d = true
  unique : ∀ n k n' k', v.Owns n k → v.Owns n' k' →
    (v.inode n).pointers k = (v.inode n').pointers k' → n = n' ∧ k = k'
  used : ∀ d < dataItemNum, v.used d = true →
    ∃ n k, v.Owns n k ∧ (v.inode n).pointers k = dataBlock d
  dirs : ∀ n, v.LiveDir n → (v.inode n).sizeAllocated = 512

structure Counts : Prop where
  inodeUsed : v.superBlock.inodeUsed.toNat = countBits v.live inodeItemNum
  dataUsed : v.superBlock.dataUsed.toNat = countBits v.used dataItemNum

structure Consistent : Prop where
  tree : v.Tree
  blocks : v.Blocks
  counts : v.Counts

variable {v} {n p c : Nat} {k : Fin maxDirItemNum}

theorem entry_of_valid (hdir : v.isDir n) (hvalid : ((v.content n).map k).valid ≠ 0) :
    v.entry n k = some ((v.content n).map k).ino.toNat :=
  if_pos ⟨hdir, hvalid⟩

theorem entry_of_invalid (hvalid : ((v.content n).map k).valid = 0) : v.entry n k = none :=
  if_neg fun h => h.2 hvalid

theorem entry_eq_some (h : v.entry n k = some c) :
    v.isDir n ∧ ((v.content n).map k).valid ≠ 0 ∧ ((v.content n).map k).ino.toNat = c := by
  unfold entry at h
  split at h
  case isTrue hvalid => exact ⟨hvalid.1, hvalid.2, Option.some.inj h⟩
  case isFalse => cases h

/-- A directory owns its first block. -/
theorem Blocks.dirBlock (h : v.Blocks) (hn : v.LiveDir n) : v.Owns n 0 := by
  refine ⟨hn.live, ?_⟩
  rw [h.dirs n hn]
  decide

theorem Blocks.isBlock (h : v.Blocks) (hn : v.LiveDir n) : IsBlock (v.block n) := by
  obtain ⟨d, hd, hp, -⟩ := h.owned n 0 (h.dirBlock hn)
  rw [block, hp]
  exact isBlock_dataBlock hd

theorem Blocks.block_inj (h : v.Blocks) {m : Nat} (hn : v.LiveDir n) (hm : v.LiveDir m)
    (heq : v.block n = v.block m) : n = m :=
  (h.unique n 0 m 0 (h.dirBlock hn) (h.dirBlock hm) heq).1

namespace Tree

variable (h : v.Tree)
include h

theorem root : v.LiveDir 0 := ⟨(h.reach 0).mpr .root, h.rootDir⟩

theorem reachable (hn : v.LiveDir n) : Reachable v.entry 0 n := (h.reach n).mp hn.live

theorem live_entry (hp : v.LiveDir p) (hk : v.entry p k = some c) : v.live c = true :=
  (h.reach c).mpr (.child (h.reachable hp) hk)

theorem live_ino (hp : v.LiveDir p) (hk : ((v.content p).map k).valid ≠ 0) :
    v.live ((v.content p).map k).ino.toNat = true :=
  h.live_entry hp (entry_of_valid hp.dir hk)

theorem ino_ne_zero (hp : v.LiveDir p) (hk : ((v.content p).map k).valid ≠ 0) :
    ((v.content p).map k).ino ≠ 0 := by
  intro hzero
  have hentry := entry_of_valid hp.dir hk
  rw [hzero] at hentry
  exact h.unambiguous.root_unnamed p k (h.reachable hp) hentry

/-- A live inode other than the root has a name in a live directory. -/
theorem named (hn : v.live n = true) (hroot : n ≠ 0) :
    ∃ p k, v.LiveDir p ∧ v.entry p k = some n := by
  obtain ⟨p, k, hp, hk⟩ := ((h.reach n).mp hn).named.resolve_left hroot
  exact ⟨p, k, ⟨(h.reach p).mpr hp, (entry_eq_some hk).1⟩, hk⟩

end Tree

end Volume

/-! ## Creating a name -/

def Dir.link (d : Dir) (k : Fin maxDirItemNum) (n : Nat) (s : List UInt8) : Dir :=
  { d with
    map := Function.update d.map k
      { valid := 1, name := strcpy (d.map k).name s, ino := UInt32.ofNat n } }

namespace Volume

/-- Inode `n` comes to life under the name `s` in the entry `k` of directory `p`. -/
structure Adds (v v' : Volume) (p : Nat) (k : Fin maxDirItemNum) (n : Nat) (s : List UInt8) :
    Prop where
  parent : v.LiveDir p
  free : ((v.content p).map k).valid = 0
  fresh : ∀ k', ((v.content p).map k').valid ≠ 0 → ((v.content p).map k').nameOf ≠ s
  string : 0 ∉ s ∧ s.length ≤ maxNameLenth
  bound : n < inodeItemNum
  dead : v.live n = false
  live : ∀ m, v'.live m = (decide (m = n) || v.live m)
  inode : ∀ m, m ≠ n → v'.inode m = v.inode m
  content : ∀ m, v.LiveDir m → m ≠ p → v'.content m = v.content m
  linked : v'.content p = (v.content p).link k n s
  leaf : v'.isDir n → ∀ k', ((v'.content n).map k').valid = 0
  father : v'.isDir n → (v'.content n).fpointer = v.block p

namespace Adds

variable {v v' : Volume} {p n : Nat} {k : Fin maxDirItemNum} {s : List UInt8}
variable (h : v.Adds v' p k n s)
include h

theorem ne_of_live {m : Nat} (hm : v.live m = true) : m ≠ n := by
  rintro rfl
  exact nomatch h.dead.symm.trans hm

theorem live_iff (m : Nat) : v'.live m = true ↔ v.live m = true ∨ m = n := by
  rw [h.live, Bool.or_eq_true, decide_eq_true_eq, or_comm]

theorem linked_same : (v'.content p).map k =
    { valid := 1, name := strcpy ((v.content p).map k).name s, ino := UInt32.ofNat n } := by
  simp [h.linked, Dir.link]

theorem linked_other {k' : Fin maxDirItemNum} (hk : k' ≠ k) :
    (v'.content p).map k' = (v.content p).map k' := by
  simp [h.linked, Dir.link, Function.update_of_ne hk]

theorem liveDir {m : Nat} (hm : v'.LiveDir m) : v.LiveDir m ∨ m = n := by
  rcases (h.live_iff m).mp hm.live with hlive | rfl
  · refine .inl ⟨hlive, ?_⟩
    rw [isDir, ← h.inode m (h.ne_of_live hlive)]
    exact hm.dir
  · exact .inr rfl

/-- The entries of a directory that was there are unchanged, but for the new one. -/
theorem map_frame {m : Nat} {k' : Fin maxDirItemNum} (hm : v.LiveDir m) (hk : m = p → k' ≠ k) :
    (v'.content m).map k' = (v.content m).map k' := by
  by_cases hmp : m = p
  · subst hmp
    exact h.linked_other (hk rfl)
  · rw [h.content m hm hmp]

theorem fpointer_frame {m : Nat} (hm : v.LiveDir m) :
    (v'.content m).fpointer = (v.content m).fpointer := by
  by_cases hmp : m = p
  · subst hmp
    rw [h.linked]
    rfl
  · rw [h.content m hm hmp]

theorem entry_new : v'.entry p k = some n := by
  have hbound : n < 4096 := h.bound
  have hdir : v'.isDir p := by
    rw [isDir, h.inode p (h.ne_of_live h.parent.live)]
    exact h.parent.dir
  rw [entry_of_valid hdir (by rw [h.linked_same]; exact (by decide : (1 : UInt8) ≠ 0)),
    h.linked_same]
  simp only [UInt32.toNat_ofNat', Option.some.injEq]
  omega

theorem entry_frame {m : Nat} {k' : Fin maxDirItemNum} (hm : v.live m = true)
    (hk : m = p → k' ≠ k) : v'.entry m k' = v.entry m k' := by
  have hinode := h.inode m (h.ne_of_live hm)
  have hiff : v'.isDir m ↔ v.isDir m := by rw [isDir, hinode, isDir]
  by_cases hdir : v.isDir m
  · unfold entry
    rw [h.map_frame ⟨hm, hdir⟩ hk]
    exact if_congr (and_congr_left' hiff) rfl rfl
  · have hdir' : ¬ v'.isDir m := fun hd => hdir (hiff.mp hd)
    simp [entry, hdir, hdir']

theorem links (ht : v.Tree) : Links v.entry v'.entry 0 p k n where
  free := entry_of_invalid h.free
  named := h.entry_new
  leaf k' := by
    by_cases hdir : v'.isDir n
    · exact entry_of_invalid (h.leaf hdir k')
    · simp [entry, hdir]
  frame := fun q _ hq hk => h.entry_frame ((ht.reach q).mpr hq) hk

theorem dead_unreachable (ht : v.Tree) : ¬ Reachable v.entry 0 n := by
  intro hn
  exact nomatch h.dead.symm.trans ((ht.reach n).mpr hn)

theorem names (ht : v.Tree) (m : Nat) (k₁ k₂ : Fin maxDirItemNum) (hm : v'.LiveDir m)
    (h₁ : ((v'.content m).map k₁).valid ≠ 0) (h₂ : ((v'.content m).map k₂).valid ≠ 0)
    (heq : ((v'.content m).map k₁).nameOf = ((v'.content m).map k₂).nameOf) : k₁ = k₂ := by
  rcases h.liveDir hm with hold | rfl
  case inr => exact absurd (h.leaf hm.dir k₁) h₁
  -- the new name differs from every other one of the directory
  have hnew : m = p → ((v'.content m).map k).nameOf = s := by
    rintro rfl
    rw [h.linked_same]
    exact untilZero_strcpy _ h.string.1 (by have := h.string.2; omega)
  have hother : ∀ k', m = p → k' ≠ k → ((v'.content m).map k').valid ≠ 0 →
      ((v'.content m).map k').nameOf ≠ s := by
    rintro k' rfl hk' hvalid
    rw [h.linked_other hk'] at hvalid ⊢
    exact h.fresh k' hvalid
  by_cases hmp : m = p
  · by_cases hk₁ : k₁ = k
    · by_cases hk₂ : k₂ = k
      · rw [hk₁, hk₂]
      · rw [hk₁, hnew hmp] at heq
        exact absurd heq.symm (hother k₂ hmp hk₂ h₂)
    · by_cases hk₂ : k₂ = k
      · rw [hk₂, hnew hmp] at heq
        exact absurd heq (hother k₁ hmp hk₁ h₁)
      · rw [h.map_frame hold (fun _ => hk₁)] at h₁ heq
        rw [h.map_frame hold (fun _ => hk₂)] at h₂ heq
        exact ht.names m k₁ k₂ hold h₁ h₂ heq
  · rw [h.content m hold hmp] at h₁ h₂ heq
    exact ht.names m k₁ k₂ hold h₁ h₂ heq

theorem parents (ht : v.Tree) (q : Nat) (k' : Fin maxDirItemNum) (c : Nat) (hq : v'.LiveDir q)
    (hk' : v'.entry q k' = some c) (hc : v'.isDir c) : (v'.content c).fpointer = v'.block q := by
  rcases h.liveDir hq with hold | rfl
  case inr => exact nomatch ((h.links ht).leaf k').symm.trans hk'
  have hblock : v'.block q = v.block q := by
    rw [block, h.inode q (h.ne_of_live hold.live), block]
  rw [hblock]
  by_cases hslot : q = p ∧ k' = k
  · obtain ⟨rfl, rfl⟩ := hslot
    obtain rfl : n = c := Option.some.inj (h.entry_new.symm.trans hk')
    exact h.father hc
  · rw [h.entry_frame hold.live (fun hqp hkk => hslot ⟨hqp, hkk⟩)] at hk'
    have hclive := ht.live_entry hold hk'
    have hcdir : v.isDir c := by
      rw [isDir, ← h.inode c (h.ne_of_live hclive)]
      exact hc
    rw [h.fpointer_frame ⟨hclive, hcdir⟩]
    exact ht.parents q k' c hold hk' hcdir

theorem parent_liveDir : v'.LiveDir p := by
  refine ⟨(h.live_iff p).mpr (.inl h.parent.live), ?_⟩
  rw [isDir, h.inode p (h.ne_of_live h.parent.live)]
  exact h.parent.dir

theorem parent_block : v'.block p = v.block p := by
  rw [block, h.inode p (h.ne_of_live h.parent.live), block]

theorem owns_iff {m : Nat} (hm : m ≠ n) (j : Fin 13) : v'.Owns m j ↔ v.Owns m j := by
  constructor
  · rintro ⟨hlive, hj⟩
    exact ⟨((h.live_iff m).mp hlive).resolve_right hm, by rwa [h.inode m hm] at hj⟩
  · rintro ⟨hlive, hj⟩
    exact ⟨(h.live_iff m).mpr (.inl hlive), by rwa [h.inode m hm]⟩

theorem dirs (hb : v.Blocks) {m : Nat} (hm : v'.LiveDir m) (hne : m ≠ n) :
    (v'.inode m).sizeAllocated = 512 := by
  rw [h.inode m hne]
  exact hb.dirs m ((h.liveDir hm).resolve_right hne)

theorem tree (ht : v.Tree) : v'.Tree where
  reach m := by
    rw [h.live_iff, (h.links ht).reachable_iff (ht.reachable h.parent) (h.dead_unreachable ht),
      ht.reach]
  unambiguous :=
    (h.links ht).unambiguous (ht.reachable h.parent) (h.dead_unreachable ht) ht.unambiguous
  rootDir := by
    rw [isDir, h.inode 0 (h.ne_of_live ht.root.live)]
    exact ht.rootDir
  rootBlock := by
    rw [block, h.inode 0 (h.ne_of_live ht.root.live)]
    exact ht.rootBlock
  names := h.names ht
  parents := h.parents ht

end Adds

end Volume

/-! ## Removing a name -/

def Dir.unlink (d : Dir) (k : Fin maxDirItemNum) : Dir :=
  { d with map := Function.update d.map k { d.map k with valid := 0 } }

namespace Volume

/-- The empty directory `c` and its entry `k` in directory `p` go. -/
structure Removes (v v' : Volume) (p : Nat) (k : Fin maxDirItemNum) (c : Nat) : Prop where
  parent : v.LiveDir p
  named : v.entry p k = some c
  empty : ∀ k', ((v.content c).map k').valid = 0
  live : ∀ m, v'.live m = (!decide (m = c) && v.live m)
  inode : v'.inode = v.inode
  content : ∀ m, v.LiveDir m → m ≠ p → v'.content m = v.content m
  unlinked : v'.content p = (v.content p).unlink k

namespace Removes

variable {v v' : Volume} {p c : Nat} {k : Fin maxDirItemNum} (h : v.Removes v' p k c)
include h

theorem live_iff (m : Nat) : v'.live m = true ↔ v.live m = true ∧ m ≠ c := by
  rw [h.live, Bool.and_eq_true, Bool.not_eq_true', decide_eq_false_iff_not, and_comm]

theorem isDir_iff (m : Nat) : v'.isDir m ↔ v.isDir m := by rw [isDir, h.inode, isDir]

theorem liveDir {m : Nat} (hm : v'.LiveDir m) : v.LiveDir m :=
  ⟨((h.live_iff m).mp hm.live).1, (h.isDir_iff m).mp hm.dir⟩

theorem unlinked_same : ((v'.content p).map k).valid = 0 := by
  simp [h.unlinked, Dir.unlink]

theorem map_frame {m : Nat} {k' : Fin maxDirItemNum} (hm : v.LiveDir m) (hk : m = p → k' ≠ k) :
    (v'.content m).map k' = (v.content m).map k' := by
  by_cases hmp : m = p
  · subst hmp
    simp [h.unlinked, Dir.unlink, Function.update_of_ne (hk rfl)]
  · rw [h.content m hm hmp]

theorem fpointer_frame {m : Nat} (hm : v.LiveDir m) :
    (v'.content m).fpointer = (v.content m).fpointer := by
  by_cases hmp : m = p
  · subst hmp
    rw [h.unlinked]
    rfl
  · rw [h.content m hm hmp]

/-- An entry that is still valid was valid and is the same. -/
theorem map_valid {m : Nat} {k' : Fin maxDirItemNum} (hm : v.LiveDir m)
    (hvalid : ((v'.content m).map k').valid ≠ 0) :
    (v'.content m).map k' = (v.content m).map k' := by
  apply h.map_frame hm
  rintro rfl rfl
  exact hvalid h.unlinked_same

theorem entry_frame {m : Nat} {k' : Fin maxDirItemNum} (hm : v.live m = true)
    (hk : m = p → k' ≠ k) : v'.entry m k' = v.entry m k' := by
  by_cases hdir : v.isDir m
  · unfold entry
    rw [h.map_frame ⟨hm, hdir⟩ hk]
    exact if_congr (and_congr_left' (h.isDir_iff m)) rfl rfl
  · have hdir' : ¬ v'.isDir m := fun hd => hdir ((h.isDir_iff m).mp hd)
    simp [entry, hdir, hdir']

theorem unlinks (ht : v.Tree) : Unlinks v.entry v'.entry 0 p k c where
  named := h.named
  freed := entry_of_invalid h.unlinked_same
  leaf := fun k' => entry_of_invalid (h.empty k')
  frame := fun q _ hq hk => h.entry_frame ((ht.reach q).mpr hq) hk

theorem child_ne_parent : c ≠ p := by
  rintro rfl
  exact nomatch (entry_of_invalid (h.empty k)).symm.trans h.named

theorem tree (ht : v.Tree) : v'.Tree where
  reach m := by
    rw [h.live_iff, (h.unlinks ht).reachable_iff (ht.reachable h.parent) ht.unambiguous, ht.reach]
  unambiguous := (h.unlinks ht).unambiguous (ht.reachable h.parent) ht.unambiguous
  rootDir := (h.isDir_iff 0).mpr ht.rootDir
  rootBlock := by
    rw [block, h.inode]
    exact ht.rootBlock
  names m k₁ k₂ hm h₁ h₂ heq := by
    have hold := h.liveDir hm
    have e₁ := h.map_valid hold h₁
    have e₂ := h.map_valid hold h₂
    rw [e₁] at h₁ heq
    rw [e₂] at h₂ heq
    exact ht.names m k₁ k₂ hold h₁ h₂ heq
  parents q k' d hq hk' hd := by
    have hold := h.liveDir hq
    have hslot : q = p → k' ≠ k := by
      rintro rfl rfl
      exact nomatch (h.unlinks ht).freed.symm.trans hk'
    rw [h.entry_frame hold.live hslot] at hk'
    have hddir := (h.isDir_iff d).mp hd
    rw [h.fpointer_frame ⟨ht.live_entry hold hk', hddir⟩, block, h.inode]
    exact ht.parents q k' d hold hk' hddir

end Removes

/-! ## Owners of blocks -/

/-- Block `d` becomes the `k`-th block of inode `n`. -/
structure Gains (v v' : Volume) (n : Nat) (k : Fin 13) (d : Nat) : Prop where
  bound : d < dataItemNum
  unused : v.used d = false
  used : ∀ e, v'.used e = (decide (e = d) || v.used e)
  owns : ∀ m j, v'.Owns m j ↔ v.Owns m j ∨ (m = n ∧ j = k)
  pointers : ∀ m j, v.Owns m j → (v'.inode m).pointers j = (v.inode m).pointers j
  pointer : (v'.inode n).pointers k = dataBlock d
  dirs : ∀ m, v'.LiveDir m → (v'.inode m).sizeAllocated = 512

theorem Gains.blocks {v v' : Volume} {n : Nat} {k : Fin 13} {d : Nat} (h : v.Gains v' n k d)
    (hb : v.Blocks) : v'.Blocks where
  owned m j hm := by
    rcases (h.owns m j).mp hm with hold | ⟨rfl, rfl⟩
    · obtain ⟨e, he, hp, hused⟩ := hb.owned m j hold
      exact ⟨e, he, (h.pointers m j hold).trans hp, by simp [h.used, hused]⟩
    · exact ⟨d, h.bound, h.pointer, by simp [h.used]⟩
  unique m j m' j' hm hm' heq := by
    -- a block that had an owner is not the new one
    have hne : ∀ m j, v.Owns m j → (v.inode m).pointers j ≠ dataBlock d := by
      intro m j hold hp
      obtain ⟨e, he, hp', hused⟩ := hb.owned m j hold
      obtain rfl := dataBlock_inj he h.bound (hp'.symm.trans hp)
      exact nomatch h.unused.symm.trans hused
    rcases (h.owns m j).mp hm with hold | ⟨rfl, rfl⟩
    · rw [h.pointers m j hold] at heq
      rcases (h.owns m' j').mp hm' with hold' | ⟨rfl, rfl⟩
      · rw [h.pointers m' j' hold'] at heq
        exact hb.unique m j m' j' hold hold' heq
      · exact absurd (heq.trans h.pointer) (hne m j hold)
    · rcases (h.owns m' j').mp hm' with hold' | ⟨rfl, rfl⟩
      · rw [h.pointers m' j' hold', h.pointer] at heq
        exact absurd heq.symm (hne m' j' hold')
      · exact ⟨rfl, rfl⟩
  used e he hused := by
    rw [h.used, Bool.or_eq_true, decide_eq_true_eq] at hused
    rcases hused with rfl | hused
    · exact ⟨n, k, (h.owns n k).mpr (.inr ⟨rfl, rfl⟩), h.pointer⟩
    · obtain ⟨m, j, hold, hp⟩ := hb.used e he hused
      exact ⟨m, j, (h.owns m j).mpr (.inl hold), (h.pointers m j hold).trans hp⟩
  dirs := h.dirs

/-- No block changes hands. -/
theorem Blocks.congr {v v' : Volume} (hb : v.Blocks) (hused : ∀ d, v'.used d = v.used d)
    (howns : ∀ m j, v'.Owns m j ↔ v.Owns m j)
    (hpointers : ∀ m j, v.Owns m j → (v'.inode m).pointers j = (v.inode m).pointers j)
    (hdirs : ∀ m, v'.LiveDir m → (v'.inode m).sizeAllocated = 512) : v'.Blocks where
  owned m j hm := by
    have hold := (howns m j).mp hm
    obtain ⟨e, he, hp, hu⟩ := hb.owned m j hold
    exact ⟨e, he, (hpointers m j hold).trans hp, (hused e).trans hu⟩
  unique m j m' j' hm hm' heq := by
    have hold := (howns m j).mp hm
    have hold' := (howns m' j').mp hm'
    rw [hpointers m j hold, hpointers m' j' hold'] at heq
    exact hb.unique m j m' j' hold hold' heq
  used e he hu := by
    obtain ⟨m, j, hold, hp⟩ := hb.used e he ((hused e).symm.trans hu)
    exact ⟨m, j, (howns m j).mpr hold, (hpointers m j hold).trans hp⟩
  dirs := hdirs

/-- The directory `c` gives up its block `d`. -/
theorem Blocks.lose {v v' : Volume} (hb : v.Blocks) {c d : Nat} (hc : v.LiveDir c)
    (hd : d < dataItemNum) (hblock : v.block c = dataBlock d)
    (hlive : ∀ m, v'.live m = true ↔ v.live m = true ∧ m ≠ c) (hinode : v'.inode = v.inode)
    (hused : ∀ e, v'.used e = (!decide (e = d) && v.used e)) : v'.Blocks := by
  have howns : ∀ m j, v'.Owns m j ↔ v.Owns m j ∧ m ≠ c := by
    intro m j
    constructor
    · rintro ⟨hm, hj⟩
      exact ⟨⟨((hlive m).mp hm).1, by rwa [hinode] at hj⟩, ((hlive m).mp hm).2⟩
    · rintro ⟨⟨hm, hj⟩, hne⟩
      exact ⟨(hlive m).mpr ⟨hm, hne⟩, by rwa [hinode]⟩
  refine ⟨fun m j hm => ?_, fun m j m' j' hm hm' heq => ?_, fun e he hu => ?_, fun m hm => ?_⟩
  · obtain ⟨hold, hne⟩ := (howns m j).mp hm
    obtain ⟨e, he, hp, hu⟩ := hb.owned m j hold
    have hed : e ≠ d := by
      rintro rfl
      exact hne (hb.unique m j c 0 hold (hb.dirBlock hc) (hp.trans hblock.symm)).1
    exact ⟨e, he, by rw [hinode]; exact hp, by simp [hused, hu, hed]⟩
  · rw [hinode] at heq
    exact hb.unique m j m' j' ((howns m j).mp hm).1 ((howns m' j').mp hm').1 heq
  · rw [hused, Bool.and_eq_true, Bool.not_eq_true', decide_eq_false_iff_not] at hu
    obtain ⟨m, j, hold, hp⟩ := hb.used e he hu.2
    refine ⟨m, j, (howns m j).mpr ⟨hold, ?_⟩, by rw [hinode]; exact hp⟩
    rintro rfl
    -- the only block of a directory is its first
    have hj : j = 0 := by
      have hlt := hold.allocated
      rw [hb.dirs m hc] at hlt
      apply Fin.ext
      simpa using hlt
    subst hj
    exact hu.1 (dataBlock_inj he hd (hp.symm.trans hblock))
  · rw [hinode]
    exact hb.dirs m ⟨((hlive m).mp hm.live).1, by rw [isDir, ← hinode]; exact hm.dir⟩

/-! ## The counters -/

theorem toNat_add_one {x : UInt32} {n : Nat} (hx : x.toNat = n) (hn : n + 1 < 2 ^ 32) :
    (x + 1).toNat = n + 1 := by
  rw [UInt32.toNat_add, hx]
  exact Nat.mod_eq_of_lt hn

theorem toNat_sub_one {x : UInt32} {n : Nat} (hx : x.toNat = n + 1) : (x - 1).toNat = n := by
  have hlt := x.toNat_lt
  rw [UInt32.toNat_sub, hx, show (1 : UInt32).toNat = 1 from rfl]
  omega

namespace Counts

variable {v v' : Volume} {n d : Nat}

theorem congr (h : v.Counts) (hsuper : v'.superBlock = v.superBlock) (himap : v'.imap = v.imap)
    (hsmap : v'.smap = v.smap) : v'.Counts := by
  have hlive : v'.live = v.live := by
    funext m
    rw [live, himap, live]
  have hused : v'.used = v.used := by
    funext e
    rw [used, hsmap, used]
  exact ⟨by rw [hsuper, hlive, h.inodeUsed], by rw [hsuper, hused, h.dataUsed]⟩

theorem allocInode (h : v.Counts) (hn : n < inodeItemNum) (hdead : v.live n = false) :
    (v.allocInode n).Counts := by
  have hcount := countBits_set hn hdead (v.live_allocInode hn)
  have hle := countBits_le (v.allocInode n).live inodeItemNum
  refine ⟨?_, h.dataUsed⟩
  rw [hcount] at hle ⊢
  exact toNat_add_one h.inodeUsed (lt_of_le_of_lt hle (by decide))

theorem allocBlock (h : v.Counts) (hd : d < dataItemNum) (hunused : v.used d = false) :
    (v.allocBlock d).Counts := by
  have hcount := countBits_set hd hunused (v.used_allocBlock d)
  have hle := countBits_le (v.allocBlock d).used dataItemNum
  refine ⟨h.inodeUsed, ?_⟩
  rw [hcount] at hle ⊢
  exact toNat_add_one h.dataUsed (lt_of_le_of_lt hle (by decide))

theorem freeInode (h : v.Counts) (hn : n < inodeItemNum) (hlive : v.live n = true) :
    (v.freeInode n).Counts := by
  have hcount := countBits_clear hn hlive (v.live_freeInode hn)
  exact ⟨toNat_sub_one (h.inodeUsed.trans hcount.symm), h.dataUsed⟩

theorem freeBlock (h : v.Counts) (hd : d < dataItemNum) (hused : v.used d = true) :
    (v.freeBlock d).Counts := by
  have hcount := countBits_clear hd hused (v.used_freeBlock d)
  exact ⟨h.inodeUsed, toNat_sub_one (h.dataUsed.trans hcount.symm)⟩

end Counts

end Volume

end UcasOs.Fs
