import Mathlib.Logic.Relation

/-!
# Labelled transition systems and their runs

A system is a step relation over states, with a label on every step.  Runs
grow at their end, so an invariant is carried from the first state to the
last by one step lemma, and a simulation by one commuting square.
-/

namespace UcasOs.Foundation

universe u v w

structure Lts (σ : Type u) (ι : Type v) where
  step : σ → ι → σ → Prop

namespace Lts

variable {σ : Type u} {ι : Type v}

/-- `L.Run s labels t`: the steps labelled `labels` lead from `s` to `t`. -/
inductive Run (L : Lts σ ι) : σ → List ι → σ → Prop
  | nil (s : σ) : Run L s [] s
  | snoc {s t u : σ} {labels : List ι} {label : ι} :
      Run L s labels t → L.step t label u → Run L s (labels ++ [label]) u

/-- The system whose steps also meet a condition on the state before them. -/
def restrict (L : Lts σ ι) (allowed : σ → ι → Prop) : Lts σ ι where
  step s label t := allowed s label ∧ L.step s label t

@[simp] theorem restrict_step (L : Lts σ ι) (allowed : σ → ι → Prop)
    (s : σ) (label : ι) (t : σ) :
    (L.restrict allowed).step s label t ↔
      allowed s label ∧ L.step s label t :=
  Iff.rfl

variable {L : Lts σ ι} {s t u : σ} {labels more : List ι} {label : ι}

theorem Run.single (h : L.step s label t) : L.Run s [label] t :=
  .snoc (.nil s) h

theorem Run.append (first : L.Run s labels t) (second : L.Run t more u) :
    L.Run s (labels ++ more) u := by
  induction second with
  | nil => simpa using first
  | snoc _ hstep ih =>
      rw [← List.append_assoc]
      exact .snoc ih hstep

theorem Run.unrestrict {allowed : σ → ι → Prop} (run : (L.restrict allowed).Run s labels t) :
    L.Run s labels t := by
  induction run with
  | nil => exact .nil _
  | snoc _ hstep ih => exact .snoc ih hstep.2

/-- A run whose labels are allowed in every state. -/
theorem Run.restricted {allowed : σ → ι → Prop}
    (hallowed : ∀ label ∈ labels, ∀ s, allowed s label) (run : L.Run s labels t) :
    (L.restrict allowed).Run s labels t := by
  induction run with
  | nil => exact .nil _
  | snoc _ hstep ih =>
      refine .snoc (ih fun label hl => hallowed label (by simp [hl])) ⟨?_, hstep⟩
      exact hallowed _ (by simp) _

theorem Run.restrict_mono {allowed allowed' : σ → ι → Prop}
    (hallowed : ∀ s label, allowed s label → allowed' s label)
    (run : (L.restrict allowed).Run s labels t) : (L.restrict allowed').Run s labels t := by
  induction run with
  | nil => exact .nil _
  | snoc _ hstep ih => exact .snoc ih ⟨hallowed _ _ hstep.1, hstep.2⟩

/-- What every step preserves holds at the end of every run. -/
theorem Run.invariant {I : σ → Prop}
    (preserved : ∀ s label t, I s → L.step s label t → I t)
    (run : L.Run s labels t) (start : I s) : I t := by
  induction run with
  | nil => exact start
  | snoc _ hstep ih => exact preserved _ _ _ ih hstep

/-- A run can be cut where its labels are. -/
theorem Run.split {first rest : List ι} (run : L.Run s (first ++ rest) u) :
    ∃ t, L.Run s first t ∧ L.Run t rest u := by
  generalize hlabels : first ++ rest = labels at run
  induction run generalizing rest with
  | nil =>
      obtain ⟨rfl, rfl⟩ := List.append_eq_nil_iff.mp hlabels
      exact ⟨_, .nil _, .nil _⟩
  | snoc hrun hstep ih =>
      rcases List.eq_nil_or_concat rest with rfl | ⟨init, last, rfl⟩
      · rw [List.append_nil] at hlabels
        exact ⟨_, hlabels ▸ .snoc hrun hstep, .nil _⟩
      · rw [List.concat_eq_append, ← List.append_assoc] at hlabels
        obtain ⟨hinit, hlast⟩ := List.append_inj' hlabels rfl
        obtain ⟨t, hfirst, hrest⟩ := ih hinit
        cases hlast
        exact ⟨t, hfirst, by rw [List.concat_eq_append]; exact .snoc hrest hstep⟩

/-- In a deterministic system, the labels of a run determine where it ends. -/
theorem Run.unique (hdet : ∀ s label t t', L.step s label t → L.step s label t' → t = t')
    (run : L.Run s labels t) (run' : L.Run s labels u) : t = u := by
  induction run generalizing u with
  | nil =>
      generalize hnil : ([] : List ι) = labels at run'
      cases run' with
      | nil => rfl
      | snoc => simp at hnil
  | snoc hrun hstep ih =>
      generalize hlabels : _ ++ [_] = all at run'
      cases run' with
      | nil => simp at hlabels
      | snoc hrun' hstep' =>
          obtain ⟨hinit, hlast⟩ := List.append_inj' hlabels rfl
          cases hlast
          subst hinit
          obtain rfl := ih hrun'
          exact hdet _ _ _ _ hstep hstep'

theorem Run.unsnoc (run : L.Run s (labels ++ [label]) u) :
    ∃ t, L.Run s labels t ∧ L.step t label u := by
  generalize hlabels : labels ++ [label] = all at run
  cases run with
  | nil => simp at hlabels
  | snoc hrun hstep =>
      obtain ⟨hinit, hlast⟩ := List.append_inj' hlabels rfl
      cases hlast
      exact ⟨_, hinit ▸ hrun, hstep⟩

/--
A relation kept by matching steps carries a run to a run of the other system.
The steps need to match only as far as `P` holds, a property that cannot come back.
-/
theorem Run.simulate {α : Type w} {A : Lts α ι} {R : σ → α → Prop} {I P : σ → Prop}
    (keep : ∀ s label t, I s → L.step s label t → I t)
    (back : ∀ s label t, I s → L.step s label t → P t → P s)
    (square : ∀ s a label t, I s → R s a → L.step s label t → P t →
      ∃ b, A.step a label b ∧ R t b)
    (run : L.Run s labels t) (start : I s) {a : α} (related : R s a) (goal : P t) :
    ∃ b, A.Run a labels b ∧ R t b := by
  induction run with
  | nil => exact ⟨a, .nil a, related⟩
  | snoc hrun hstep ih =>
      have hinv := hrun.invariant keep start
      obtain ⟨b, hmatched, hrel⟩ := ih (back _ _ _ hinv hstep goal)
      obtain ⟨c, hnext, hrel'⟩ := square _ _ _ _ hinv hrel hstep goal
      exact ⟨c, .snoc hmatched hnext, hrel'⟩

end Lts

end UcasOs.Foundation
