import UcasOs.Fs.Namespace
import UcasOs.Libs.Printk
import UcasOs.Foundation.NamePath
import Mathlib.Data.List.Find

/-!
# Names as paths

A directory of a volume names inodes by strings, and a path is resolved from
the root by its names.  Creating and removing a name change what one path leads
to, and `parse_path` resolves what stands between the backslashes.
-/

namespace UcasOs.Fs

open UcasOs.Foundation UcasOs.Foundation.Naming UcasOs.Libs

abbrev Name := List UInt8

/-! ## Searching a directory by name -/

theorem Dir.find_name {d : Dir} {s : Name} {k : Fin maxDirItemNum} (hs : 0 ∉ s)
    (h : d.find s = some k) : (d.map k).nameOf = s := by
  have hp := List.find?_some h
  simp only [decide_eq_true_eq, strcmp_eq_zero_iff] at hp
  rw [DMap.nameOf, hp.2, untilZero_of_noZero hs]

theorem DMap.zero_notMem_nameOf (e : DMap) : 0 ∉ e.nameOf := zero_notMem_untilZero _

/-- A search sees no more than which entries have the name. -/
theorem Dir.find_congr {d d' : Dir} {s : Name} (hs : 0 ∉ s)
    (h : ∀ k, (d'.map k).valid ≠ 0 ∧ (d'.map k).nameOf = s ↔
      (d.map k).valid ≠ 0 ∧ (d.map k).nameOf = s) : d'.find s = d.find s := by
  refine List.find?_congr fun k _ => ?_
  rw [decide_eq_decide, strcmp_eq_zero_iff, strcmp_eq_zero_iff, untilZero_of_noZero hs]
  exact h k

/-- Where no two entries have one name, a search finds the entry of that name. -/
theorem Dir.find_eq_some {d : Dir} {s : Name} {k : Fin maxDirItemNum} (hs : 0 ∉ s)
    (hvalid : (d.map k).valid ≠ 0) (hname : (d.map k).nameOf = s)
    (hunique : ∀ k', (d.map k').valid ≠ 0 → (d.map k').nameOf = s → k' = k) :
    d.find s = some k := by
  cases hfind : d.find s with
  | none => exact absurd hname (Dir.find_none hs hfind k hvalid)
  | some k' => rw [hunique k' (Dir.find_some hfind) (Dir.find_name hs hfind)]

theorem Dir.find_eq_none {d : Dir} {s : Name} (hs : 0 ∉ s)
    (h : ∀ k, (d.map k).valid ≠ 0 → (d.map k).nameOf ≠ s) : d.find s = none := by
  cases hfind : d.find s with
  | none => rfl
  | some k => exact absurd (Dir.find_name hs hfind) (h k (Dir.find_some hfind))

/-! ## Names in a volume -/

namespace Volume

/-- The inode that directory `n` has under the name `s`. -/
def lookup (v : Volume) (n : Nat) (s : Name) : Option Nat :=
  if 0 ∈ s then none else ((v.content n).find s).bind (v.entry n)

def resolve (v : Volume) (path : List Name) : Option Nat := Naming.resolve v.lookup 0 path

variable {v v' : Volume} {n p c m : Nat} {k : Fin maxDirItemNum} {s : Name} {path P : List Name}

theorem lookup_eq (hs : 0 ∉ s) : v.lookup n s = ((v.content n).find s).bind (v.entry n) :=
  if_neg hs

theorem lookup_some (h : v.lookup n s = some c) :
    0 ∉ s ∧ ∃ k, (v.content n).find s = some k ∧ v.entry n k = some c ∧
      ((v.content n).map k).nameOf = s := by
  by_cases hs : 0 ∈ s
  · rw [lookup, if_pos hs] at h
    cases h
  · rw [lookup_eq hs] at h
    obtain ⟨k, hk, hc⟩ := Option.bind_eq_some_iff.mp h
    exact ⟨hs, k, hk, hc, Dir.find_name hs hk⟩

theorem lookup_none_of_empty (h : ∀ k, v.entry n k = none) (s : Name) : v.lookup n s = none := by
  cases hlookup : v.lookup n s with
  | none => rfl
  | some c =>
      obtain ⟨-, k, -, hk, -⟩ := lookup_some hlookup
      exact nomatch (h k).symm.trans hk

theorem lookup_congr (hdir : v'.isDir n ↔ v.isDir n) (hcontent : v'.content n = v.content n)
    (s : Name) : v'.lookup n s = v.lookup n s := by
  have hentry : v'.entry n = v.entry n := by
    funext k
    unfold entry
    rw [hcontent]
    exact if_congr (and_congr_left' hdir) rfl rfl
  rw [lookup, lookup, hcontent, hentry]

/-- A search for a name succeeds where the name leads somewhere. -/
theorem find_none_iff (hn : v.LiveDir n) (hs : 0 ∉ s) :
    (v.content n).find s = none ↔ v.lookup n s = none := by
  rw [lookup_eq hs]
  cases hfind : (v.content n).find s with
  | none => simp
  | some k => simp [entry_of_valid hn.dir (Dir.find_some hfind)]

theorem find_ino (hn : v.LiveDir n) (hs : 0 ∉ s) :
    ((v.content n).find s).map (fun k => ((v.content n).map k).ino.toNat) = v.lookup n s := by
  rw [lookup_eq hs]
  cases hfind : (v.content n).find s with
  | none => rfl
  | some k => exact (entry_of_valid hn.dir (Dir.find_some hfind)).symm

namespace Tree

variable (h : v.Tree)
include h

theorem lookup_entry (hn : v.LiveDir n) (hk : v.entry n k = some c) :
    v.lookup n ((v.content n).map k).nameOf = some c := by
  have hs := ((v.content n).map k).zero_notMem_nameOf
  have hvalid := (entry_eq_some hk).2.1
  have hfind : (v.content n).find ((v.content n).map k).nameOf = some k :=
    Dir.find_eq_some hs hvalid rfl fun k' hvalid' hname => h.names n k' k hn hvalid' hvalid hname
  rw [lookup_eq hs, hfind]
  exact hk

theorem reachable_lookup (i : Nat) : Reachable v.lookup 0 i ↔ v.live i = true := by
  rw [h.reach]
  constructor
  · intro hi
    induction hi with
    | root => exact .root
    | child _ hs ih =>
        obtain ⟨-, k, -, hk, -⟩ := lookup_some hs
        exact .child ih hk
  · intro hi
    induction hi with
    | root => exact .root
    | child hp hk ih =>
        exact .child ih (h.lookup_entry ⟨(h.reach _).mpr hp, (entry_eq_some hk).1⟩ hk)

theorem unambiguous_lookup : Unambiguous v.lookup 0 := by
  have hreach : ∀ {i}, Reachable v.lookup 0 i → Reachable v.entry 0 i := fun hi =>
    (h.reach _).mp ((h.reachable_lookup _).mp hi)
  refine ⟨fun q s hq hs => ?_, fun q s q' s' d hq hq' hs hs' => ?_⟩
  · obtain ⟨-, k, -, hk, -⟩ := lookup_some hs
    exact h.unambiguous.root_unnamed q k (hreach hq) hk
  · obtain ⟨-, k, -, hk, hname⟩ := lookup_some hs
    obtain ⟨-, k', -, hk', hname'⟩ := lookup_some hs'
    obtain ⟨rfl, rfl⟩ := h.unambiguous.unique q k q' k' d (hreach hq) (hreach hq') hk hk'
    exact ⟨rfl, hname.symm.trans hname'⟩

theorem live_resolve (hpath : v.resolve path = some n) : v.live n = true :=
  (h.reachable_lookup n).mp (reachable_of_resolve hpath)

theorem exists_path (hn : v.live n = true) : ∃ path, v.resolve path = some n :=
  ((h.reachable_lookup n).mpr hn).exists_path

theorem resolve_inj {path' : List Name} (hpath : v.resolve path = some n)
    (hpath' : v.resolve path' = some n) : path = path' :=
  h.unambiguous_lookup.resolve_inj hpath hpath'

end Tree

/-! ## Creating and removing a name -/

/-- When one entry of a directory changes, the lookups of names it has neither before nor after
stay the same. -/
theorem lookup_frame (hs : 0 ∉ s)
    (hmap : ∀ k', k' ≠ k → (v'.content n).map k' = (v.content n).map k')
    (hentry : ∀ k', k' ≠ k → v'.entry n k' = v.entry n k')
    (hold : ((v.content n).map k).valid ≠ 0 → ((v.content n).map k).nameOf ≠ s)
    (hnew : ((v'.content n).map k).valid ≠ 0 → ((v'.content n).map k).nameOf ≠ s) :
    v'.lookup n s = v.lookup n s := by
  have hfind : (v'.content n).find s = (v.content n).find s := by
    refine Dir.find_congr hs fun k' => ?_
    by_cases hk : k' = k
    · subst hk
      exact ⟨fun h => absurd h.2 (hnew h.1), fun h => absurd h.2 (hold h.1)⟩
    · rw [hmap k' hk]
  rw [lookup_eq hs, lookup_eq hs, hfind]
  cases hk : (v.content n).find s with
  | none => rfl
  | some k' =>
      refine hentry k' ?_
      rintro rfl
      exact hold (Dir.find_some hk) (Dir.find_name hs hk)

/-- What changes in one entry of a directory changes the lookups there only. -/
theorem lookup_elsewhere (hdir : v'.isDir n ↔ v.isDir n)
    (hcontent : v.isDir n → v'.content n = v.content n) (s : Name) :
    v'.lookup n s = v.lookup n s := by
  by_cases hn : v.isDir n
  · exact lookup_congr hdir (hcontent hn) s
  · rw [lookup_none_of_empty (fun k' => if_neg fun h => hn h.1),
      lookup_none_of_empty (fun k' => if_neg fun h => hn (hdir.mp h.1))]

theorem lookup_zero (hs : 0 ∈ s) : v.lookup n s = none := if_pos hs

theorem Adds.nameOf_new (h : v.Adds v' p k n s) : ((v'.content p).map k).nameOf = s := by
  rw [h.linked_same]
  exact untilZero_strcpy _ h.string.1 (by have := h.string.2; omega)

theorem Adds.lookup_links (h : v.Adds v' p k n s) (ht : v.Tree) :
    Links v.lookup v'.lookup 0 p s n where
  free := by
    rw [lookup_eq h.string.1, Dir.find_eq_none h.string.1 h.fresh]
    rfl
  named := by
    rw [← h.nameOf_new]
    exact (h.tree ht).lookup_entry h.parent_liveDir h.entry_new
  leaf := lookup_none_of_empty (h.links ht).leaf
  frame q t hq hne := by
    have hlive := (ht.reachable_lookup q).mp hq
    have hdir : v'.isDir q ↔ v.isDir q := by rw [isDir, h.inode q (h.ne_of_live hlive), isDir]
    by_cases hqp : q = p
    · subst hqp
      by_cases ht0 : 0 ∈ t
      · rw [lookup_zero ht0, lookup_zero ht0]
      · refine lookup_frame ht0 (fun k' hk => h.linked_other hk)
          (fun k' hk => h.entry_frame hlive fun _ => hk) (fun hvalid => absurd h.free hvalid)
          (fun _ => ?_)
        rw [h.nameOf_new]
        exact (hne rfl).symm
    · exact lookup_elsewhere hdir (fun hd => h.content q ⟨hlive, hd⟩ hqp) t

theorem Removes.lookup_unlinks (h : v.Removes v' p k c) (ht : v.Tree) :
    Unlinks v.lookup v'.lookup 0 p ((v.content p).map k).nameOf c where
  named := ht.lookup_entry h.parent h.named
  freed := by
    have hzero := ((v.content p).map k).zero_notMem_nameOf
    have hnone : (v'.content p).find ((v.content p).map k).nameOf = none := by
      refine Dir.find_eq_none hzero fun k' hvalid hname => ?_
      have hold := hvalid
      rw [h.map_valid h.parent hvalid] at hold hname
      obtain rfl := ht.names p k' k h.parent hold (entry_eq_some h.named).2.1 hname
      exact hvalid h.unlinked_same
    rw [lookup_eq hzero, hnone]
    rfl
  leaf := lookup_none_of_empty (h.unlinks ht).leaf
  frame q t hq hne := by
    have hlive := (ht.reachable_lookup q).mp hq
    by_cases hqp : q = p
    · subst hqp
      by_cases ht0 : 0 ∈ t
      · rw [lookup_zero ht0, lookup_zero ht0]
      · exact lookup_frame ht0 (fun k' hk => h.map_frame h.parent fun _ => hk)
          (fun k' hk => h.entry_frame hlive fun _ => hk) (fun _ => (hne rfl).symm)
          (fun hvalid => absurd h.unlinked_same hvalid)
    · exact lookup_elsewhere (h.isDir_iff q) (fun hd => h.content q ⟨hlive, hd⟩ hqp) t

end Volume

/-! ## `parse_path` -/

theorem separate_some {s : List UInt8} {c : UInt8} {pos : Nat} (h : separate s c = some pos) :
    c ∉ s.take pos ∧ s = s.take pos ++ c :: s.drop (pos + 1) := by
  obtain ⟨hlt, hsep, hbefore⟩ := List.findIdx?_eq_some_iff_getElem.mp h
  constructor
  · intro hmem
    obtain ⟨j, hj, hc⟩ := List.getElem_of_mem hmem
    rw [List.length_take] at hj
    have hne := hbefore j (by omega)
    rw [List.getElem_take] at hc
    simp [hc] at hne
  · have hdrop := List.drop_eq_getElem_cons hlt
    rw [beq_iff_eq] at hsep
    rw [← hsep, ← hdrop, List.take_append_drop]

/-- From a directory on, the names between the backslashes are looked up one after the other. -/
theorem parseFrom_resolve {disk : Store} (h : (volume disk).Consistent) {s : List UInt8} {n : Nat}
    (hs : 0 ∉ s) (hn : (volume disk).LiveDir n) :
    (parseFrom disk ((volume disk).content n) s).map UInt32.toNat =
      Naming.resolve (volume disk).lookup n (s.splitOn backslash) := by
  induction hlen : s.length using Nat.strong_induction_on generalizing s n with
  | _ len ih =>
      rw [parseFrom]
      split
      case h_1 pos hpos =>
          obtain ⟨hfirst, hsplit⟩ := separate_some hpos
          have hparts : s.splitOn backslash =
              s.take pos :: (s.drop (pos + 1)).splitOn backslash := by
            conv_lhs => rw [hsplit]
            exact List.splitOn_append_cons_self_of_not_mem hfirst _
          have hzero : 0 ∉ s.take pos := fun hmem => hs (List.mem_of_mem_take hmem)
          rw [hparts, Naming.resolve, List.foldlM_cons, Volume.lookup_eq hzero]
          cases hfind : ((volume disk).content n).find (s.take pos) with
          | none => rfl
          | some k =>
              have hentry := Volume.entry_of_valid hn.dir (Dir.find_some hfind)
              have hlive := h.tree.live_entry hn hentry
              dsimp only [Option.bind_some]
              rw [hentry, readInodes_remain disk (Volume.live_lt hlive)]
              split
              case isTrue hfile =>
                  -- a file names nothing, and there is a name left
                  obtain ⟨t, rest, hrest⟩ := List.exists_cons_of_ne_nil
                    (List.splitOn_ne_nil backslash (s.drop (pos + 1)))
                  rw [hrest]
                  have hnone := (volume disk).lookup_none_of_empty
                    (fun k' => if_neg fun hd => hfile hd.1) t
                  change none = (((volume disk).lookup _ t).bind fun c => rest.foldlM _ c)
                  rw [hnone]
                  rfl
              case isFalse htype =>
                  have hdir : (volume disk).LiveDir _ := ⟨hlive, not_not.mp htype⟩
                  have hcontent := volume_dir disk (h.blocks.isBlock hdir)
                  rw [Volume.block] at hcontent
                  rw [← hcontent]
                  have hlt := separate_lt hpos
                  refine ih _ ?_ (fun hmem => hs (List.mem_of_mem_drop hmem)) hdir rfl
                  simp only [List.length_drop]
                  omega
      case h_2 hnone =>
          have hsep : backslash ∉ s := by
            intro hmem
            rw [separate, List.findIdx?_eq_none_iff] at hnone
            simpa using hnone _ hmem
          rw [List.splitOn_eq_singleton hsep, Naming.resolve, List.foldlM_cons]
          have hino := Volume.find_ino hn hs
          rw [← hino, Option.map_map]
          cases ((volume disk).content n).find s <;> rfl

theorem parsePath_resolve {disk : Store} (h : (volume disk).Consistent) {s : List UInt8}
    (hs : 0 ∉ s) (hne : s ≠ [backslash]) :
    (parsePath disk s).map UInt32.toNat = (volume disk).resolve (s.tail.splitOn backslash) := by
  have hroot := h.tree.root
  have hblock := h.blocks.isBlock hroot
  rw [h.tree.rootBlock] at hblock
  have hcmp : ¬ strcmp s [backslash] = 0 := by
    rw [strcmp_eq_zero_iff, untilZero_of_noZero hs, untilZero_of_noZero (by decide)]
    exact hne
  rw [parsePath, if_neg hcmp, ← volume_dir disk hblock, ← h.tree.rootBlock]
  exact parseFrom_resolve h (fun hmem => hs (List.mem_of_mem_tail hmem)) hroot

end UcasOs.Fs
