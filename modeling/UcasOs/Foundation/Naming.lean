import Mathlib.Data.Option.Basic

/-!
# Trees of names

Nodes hold slots and a slot may name a node.  `Reachable` is what can be found
from the root by following names; `Unambiguous` says that the root has no name
and every other node at most one.  Linking a fresh node into a free slot and
unlinking a node without children keep both.
-/

namespace UcasOs.Foundation.Naming

universe u v

variable {ι : Type u} {κ : Type v}

inductive Reachable (entry : ι → κ → Option ι) (root : ι) : ι → Prop
  | root : Reachable entry root root
  | child {p c : ι} {k : κ} (hp : Reachable entry root p) (hk : entry p k = some c) :
      Reachable entry root c

structure Unambiguous (entry : ι → κ → Option ι) (root : ι) : Prop where
  root_unnamed : ∀ p k, Reachable entry root p → entry p k ≠ some root
  unique : ∀ p k p' k' c, Reachable entry root p → Reachable entry root p' →
    entry p k = some c → entry p' k' = some c → p = p' ∧ k = k'

variable {entry entry' : ι → κ → Option ι} {root p c : ι} {k : κ}

theorem Reachable.named {i : ι} (h : Reachable entry root i) :
    i = root ∨ ∃ p k, Reachable entry root p ∧ entry p k = some i := by
  cases h with
  | root => exact .inl rfl
  | child hp hk => exact .inr ⟨_, _, hp, hk⟩

/-- The slots of the nodes that can be found decide what can be found. -/
theorem reachable_congr (frame : ∀ q k, Reachable entry root q → entry' q k = entry q k) (i : ι) :
    Reachable entry' root i ↔ Reachable entry root i := by
  constructor
  · intro hi
    induction hi with
    | root => exact .root
    | @child q d k _ hk ih => exact .child ih ((frame q k ih).symm.trans hk)
  · intro hi
    induction hi with
    | root => exact .root
    | @child q d k hq hk ih => exact .child ih ((frame q k hq).trans hk)

theorem Unambiguous.congr (hu : Unambiguous entry root)
    (frame : ∀ q k, Reachable entry root q → entry' q k = entry q k) : Unambiguous entry' root := by
  have hslot : ∀ {q k d}, Reachable entry' root q → entry' q k = some d →
      Reachable entry root q ∧ entry q k = some d := by
    intro q k d hq hd
    have hq' := (reachable_congr frame q).mp hq
    exact ⟨hq', (frame q k hq').symm.trans hd⟩
  refine ⟨fun q k hq hd => hu.root_unnamed q k (hslot hq hd).1 (hslot hq hd).2, ?_⟩
  intro q k q' k' d hq hq' hd hd'
  exact hu.unique q k q' k' d (hslot hq hd).1 (hslot hq' hd').1 (hslot hq hd).2 (hslot hq' hd').2

/-- The new node `c` is named by the slot `k` of `p`, which was free. -/
structure Links (entry entry' : ι → κ → Option ι) (root p : ι) (k : κ) (c : ι) : Prop where
  free : entry p k = none
  named : entry' p k = some c
  leaf : ∀ k', entry' c k' = none
  frame : ∀ q k', Reachable entry root q → (q = p → k' ≠ k) → entry' q k' = entry q k'

theorem Links.reachable_iff (h : Links entry entry' root p k c) (hp : Reachable entry root p)
    (hc : ¬ Reachable entry root c) (i : ι) :
    Reachable entry' root i ↔ Reachable entry root i ∨ i = c := by
  have hold : ∀ {i}, Reachable entry root i → Reachable entry' root i := by
    intro i hi
    induction hi with
    | root => exact .root
    | @child q d k' hq hk' ih =>
        refine .child ih ((h.frame q k' hq ?_).trans hk')
        rintro rfl rfl
        exact nomatch h.free.symm.trans hk'
  constructor
  · intro hi
    induction hi with
    | root => exact .inl .root
    | @child q d k' hq hk' ih =>
        by_cases hqc : q = c
        · subst hqc
          exact nomatch (h.leaf k').symm.trans hk'
        · by_cases hslot : q = p ∧ k' = k
          · obtain ⟨rfl, rfl⟩ := hslot
            exact .inr (Option.some.inj (hk'.symm.trans h.named))
          · have hq' := ih.resolve_right hqc
            have hframe := h.frame q k' hq' (fun hqp hkk => hslot ⟨hqp, hkk⟩)
            exact .inl (.child hq' (hframe.symm.trans hk'))
  · rintro (hi | rfl)
    · exact hold hi
    · exact .child (hold hp) h.named

theorem Links.unambiguous (h : Links entry entry' root p k c) (hp : Reachable entry root p)
    (hc : ¬ Reachable entry root c) (hu : Unambiguous entry root) : Unambiguous entry' root := by
  -- a slot of the new tree is the new one or was there before, naming something else
  have hslot : ∀ {q k' d}, Reachable entry' root q → entry' q k' = some d →
      (q = p ∧ k' = k ∧ d = c) ∨ (Reachable entry root q ∧ entry q k' = some d ∧ d ≠ c) := by
    intro q k' d hq hd
    have hqc : q ≠ c := by
      rintro rfl
      exact nomatch (h.leaf k').symm.trans hd
    by_cases hpk : q = p ∧ k' = k
    · obtain ⟨rfl, rfl⟩ := hpk
      exact .inl ⟨rfl, rfl, Option.some.inj (hd.symm.trans h.named)⟩
    · have hq' := ((h.reachable_iff hp hc q).mp hq).resolve_right hqc
      have hframe := h.frame q k' hq' (fun hqp hkk => hpk ⟨hqp, hkk⟩)
      refine .inr ⟨hq', hframe.symm.trans hd, ?_⟩
      rintro rfl
      exact hc (.child hq' (hframe.symm.trans hd))
  refine ⟨?_, ?_⟩
  · intro q k' hq hroot
    obtain ⟨-, -, rfl⟩ | ⟨hq', hd, -⟩ := hslot hq hroot
    · exact hc .root
    · exact hu.root_unnamed q k' hq' hd
  · intro q k' q' k'' d hq hq' hd hd'
    obtain ⟨rfl, rfl, rfl⟩ | ⟨hr, he, hne⟩ := hslot hq hd
    · obtain ⟨rfl, rfl, -⟩ | ⟨-, -, hne⟩ := hslot hq' hd'
      · exact ⟨rfl, rfl⟩
      · exact absurd rfl hne
    · obtain ⟨-, -, rfl⟩ | ⟨hr', he', -⟩ := hslot hq' hd'
      · exact absurd rfl hne
      · exact hu.unique q k' q' k'' d hr hr' he he'

/-- The slot `k` of `p` no longer names the leaf `c`. -/
structure Unlinks (entry entry' : ι → κ → Option ι) (root p : ι) (k : κ) (c : ι) : Prop where
  named : entry p k = some c
  freed : entry' p k = none
  leaf : ∀ k', entry c k' = none
  frame : ∀ q k', Reachable entry root q → (q = p → k' ≠ k) → entry' q k' = entry q k'

theorem Unlinks.reachable_iff (h : Unlinks entry entry' root p k c) (hp : Reachable entry root p)
    (hu : Unambiguous entry root) (i : ι) :
    Reachable entry' root i ↔ Reachable entry root i ∧ i ≠ c := by
  have hroot : root ≠ c := by
    rintro rfl
    exact hu.root_unnamed p k hp h.named
  constructor
  · intro hi
    induction hi with
    | root => exact ⟨.root, hroot⟩
    | @child q d k' hq hk' ih =>
        by_cases hslot : q = p ∧ k' = k
        · obtain ⟨rfl, rfl⟩ := hslot
          exact nomatch h.freed.symm.trans hk'
        · have hframe := h.frame q k' ih.1 (fun hqp hkk => hslot ⟨hqp, hkk⟩)
          refine ⟨.child ih.1 (hframe.symm.trans hk'), ?_⟩
          rintro rfl
          exact hslot (hu.unique q k' p k d ih.1 hp (hframe.symm.trans hk') h.named)
  · rintro ⟨hi, hne⟩
    induction hi with
    | root => exact .root
    | @child q d k' hq hk' ih =>
        have hqc : q ≠ c := by
          rintro rfl
          exact nomatch (h.leaf k').symm.trans hk'
        refine .child (ih hqc) ((h.frame q k' hq ?_).trans hk')
        rintro rfl rfl
        exact hne (Option.some.inj (hk'.symm.trans h.named))

theorem Unlinks.unambiguous (h : Unlinks entry entry' root p k c) (hp : Reachable entry root p)
    (hu : Unambiguous entry root) : Unambiguous entry' root := by
  have hslot : ∀ {q k' d}, Reachable entry' root q → entry' q k' = some d →
      Reachable entry root q ∧ entry q k' = some d := by
    intro q k' d hq hd
    have hq' := ((h.reachable_iff hp hu q).mp hq).1
    refine ⟨hq', ?_⟩
    rw [← hd]
    refine (h.frame q k' hq' ?_).symm
    rintro rfl rfl
    exact nomatch h.freed.symm.trans hd
  refine ⟨?_, ?_⟩
  · intro q k' hq hd
    exact hu.root_unnamed q k' (hslot hq hd).1 (hslot hq hd).2
  · intro q k' q' k'' d hq hq' hd hd'
    exact hu.unique q k' q' k'' d (hslot hq hd).1 (hslot hq' hd').1 (hslot hq hd).2
      (hslot hq' hd').2

end UcasOs.Foundation.Naming
