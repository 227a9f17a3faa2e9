import UcasOs.Foundation.Naming
import Mathlib.Data.List.Induction

/-!
# Paths in a tree of names

A path is the list of the names from the root on.  In an unambiguous tree no
two paths lead to one node, so that linking and unlinking a node change what a
single path leads to.
-/

namespace UcasOs.Foundation.Naming

universe u v

variable {ι : Type u} {κ : Type v}

def resolve (entry : ι → κ → Option ι) (root : ι) (path : List κ) : Option ι :=
  path.foldlM entry root

variable {entry entry' : ι → κ → Option ι} {root p c i : ι} {k : κ} {path path' : List κ}

@[simp] theorem resolve_nil : resolve entry root [] = some root := rfl

theorem resolve_concat (path : List κ) (k : κ) :
    resolve entry root (path ++ [k]) = (resolve entry root path).bind (entry · k) := by
  rw [resolve, List.foldlM_append]
  cases h : path.foldlM entry root with
  | none => simp [resolve, h]
  | some i => simp [resolve, h]

theorem reachable_of_resolve (h : resolve entry root path = some i) : Reachable entry root i := by
  induction path using List.reverseRecOn generalizing i with
  | nil =>
      cases h
      exact .root
  | append_singleton path k ih =>
      rw [resolve_concat] at h
      obtain ⟨q, hq, hk⟩ := Option.bind_eq_some_iff.mp h
      exact .child (ih hq) hk

theorem Reachable.exists_path (h : Reachable entry root i) :
    ∃ path, resolve entry root path = some i := by
  induction h with
  | root => exact ⟨[], rfl⟩
  | @child q d k _ hk ih =>
      obtain ⟨path, hpath⟩ := ih
      exact ⟨path ++ [k], by rw [resolve_concat, hpath]; exact hk⟩

/-- Paths see no more than what the reachable nodes have. -/
theorem resolve_congr (frame : ∀ q k, Reachable entry root q → entry' q k = entry q k)
    (path : List κ) : resolve entry' root path = resolve entry root path := by
  induction path using List.reverseRecOn with
  | nil => rfl
  | append_singleton path k ih =>
      rw [resolve_concat, resolve_concat, ih]
      cases hpath : resolve entry root path with
      | none => rfl
      | some q => exact frame q k (reachable_of_resolve hpath)

/-- A node has one path. -/
theorem Unambiguous.resolve_inj (hu : Unambiguous entry root)
    (h : resolve entry root path = some i) (h' : resolve entry root path' = some i) :
    path = path' := by
  induction path using List.reverseRecOn generalizing path' i with
  | nil =>
      cases h
      rcases List.eq_nil_or_concat path' with rfl | ⟨init, last, rfl⟩
      · rfl
      · rw [List.concat_eq_append, resolve_concat] at h'
        obtain ⟨q, hq, hlast⟩ := Option.bind_eq_some_iff.mp h'
        exact absurd hlast (hu.root_unnamed q last (reachable_of_resolve hq))
  | append_singleton path k ih =>
      rw [resolve_concat] at h
      obtain ⟨q, hq, hk⟩ := Option.bind_eq_some_iff.mp h
      rcases List.eq_nil_or_concat path' with rfl | ⟨init, last, rfl⟩
      · cases h'
        exact absurd hk (hu.root_unnamed q k (reachable_of_resolve hq))
      · rw [List.concat_eq_append, resolve_concat] at h'
        obtain ⟨q', hq', hlast⟩ := Option.bind_eq_some_iff.mp h'
        obtain ⟨rfl, rfl⟩ := hu.unique q k q' last i (reachable_of_resolve hq)
          (reachable_of_resolve hq') hk hlast
        rw [ih hq hq', List.concat_eq_append]

/-- When the slot `k` of `p` is all that changes, and neither its old nor its new node has
children, one path leads somewhere else. -/
theorem Unambiguous.resolve_slot [DecidableEq κ] {P : List κ} (hu : Unambiguous entry root)
    (hP : resolve entry root P = some p)
    (frame : ∀ q k', Reachable entry root q → (q = p → k' ≠ k) → entry' q k' = entry q k')
    (below : ∀ k', (entry p k).bind (entry · k') = none)
    (below' : ∀ k', (entry' p k).bind (entry' · k') = none) (path : List κ) :
    resolve entry' root path = if path = P ++ [k] then entry' p k else resolve entry root path := by
  induction path using List.reverseRecOn with
  | nil => simp
  | append_singleton path k' ih =>
      rw [resolve_concat, ih, resolve_concat]
      by_cases hslot : path = P ++ [k]
      · subst hslot
        rw [if_pos rfl, resolve_concat, hP, if_neg (by simp), below' k']
        exact (below k').symm
      · rw [if_neg hslot]
        cases hpath : resolve entry root path with
        | none =>
            refine (if_neg fun heq => ?_).symm
            rw [(List.append_inj' heq rfl).1, hP] at hpath
            cases hpath
        | some q =>
            by_cases hq : q = p ∧ k' = k
            · obtain ⟨rfl, rfl⟩ := hq
              rw [hu.resolve_inj hpath hP, if_pos rfl]
              rfl
            · have hne : path ++ [k'] ≠ P ++ [k] := by
                intro heq
                obtain ⟨rfl, hk⟩ := List.append_inj' heq rfl
                exact hq ⟨Option.some.inj (hpath.symm.trans hP), List.singleton_inj.mp hk⟩
              rw [if_neg hne]
              exact frame q k' (reachable_of_resolve hpath) fun hqp hkk => hq ⟨hqp, hkk⟩

theorem Links.resolve [DecidableEq κ] {P : List κ} (h : Links entry entry' root p k c)
    (hu : Unambiguous entry root) (hP : resolve entry root P = some p) (path : List κ) :
    resolve entry' root path = if path = P ++ [k] then some c else resolve entry root path := by
  rw [← h.named]
  refine hu.resolve_slot hP h.frame (fun k' => ?_) (fun k' => ?_) path
  · rw [h.free]
    rfl
  · rw [h.named]
    exact h.leaf k'

theorem Unlinks.resolve [DecidableEq κ] {P : List κ} (h : Unlinks entry entry' root p k c)
    (hu : Unambiguous entry root) (hP : resolve entry root P = some p) (path : List κ) :
    resolve entry' root path = if path = P ++ [k] then none else resolve entry root path := by
  rw [← h.freed]
  refine hu.resolve_slot hP h.frame (fun k' => ?_) (fun k' => ?_) path
  · rw [h.named]
    exact h.leaf k'
  · rw [h.freed]
    rfl

end UcasOs.Foundation.Naming
