import UcasOs.Foundation.Run
import Mathlib.Data.List.Nodup
import Mathlib.Data.List.Perm.Subperm
import Mathlib.Algebra.Order.BigOperators.Group.List
import Mathlib.Algebra.Order.Ring.Nat

/-!
# Service by priority and age

The members of a queue have a priority and an age.  Whoever is served has the
highest priority and, among those that have it, the highest age; the others
grow older by one.  In a `turns` system the one that was served stays, with its
age at 0 and its priority lowered; in a `traffic` system it leaves, and others
arrive.  Neither lets anybody wait for long.
-/

namespace UcasOs.Foundation

universe u

variable {ν : Type u} [DecidableEq ν]

structure Standing (ν : Type u) where
  priority : ν → Int
  age : ν → Int

namespace Standing

structure Best (s : Standing ν) (l : List ν) (x : ν) : Prop where
  mem : x ∈ l
  highest : ∀ y ∈ l, s.priority y ≤ s.priority x
  oldest : ∀ y ∈ l, s.priority y = s.priority x → s.age y ≤ s.age x

def lower (n : Int) : Int := if n > 1 then n - 1 else n

/-- How far the priorities are above 1, all in all. -/
def excess (s : Standing ν) (l : List ν) : Nat := (l.map fun y => (s.priority y - 1).toNat).sum

end Standing

/-! ## Turns -/

/-- Only the members of `l` count; `s'` may be anything elsewhere. -/
structure Turn (l : List ν) (s : Standing ν) (x : ν) (s' : Standing ν) : Prop where
  best : s.Best l x
  priority : ∀ y ∈ l, s'.priority y = if y = x then Standing.lower (s.priority y) else s.priority y
  age : ∀ y ∈ l, s'.age y = if y = x then 0 else s.age y + 1

def turns (l : List ν) : Lts (Standing ν) ν where
  step := Turn l

/-- What every turn keeps. -/
structure Standing.Sound (s : Standing ν) (l : List ν) : Prop where
  priority : ∀ y ∈ l, 1 ≤ s.priority y
  age : ∀ y ∈ l, 0 ≤ s.age y

namespace Standing

variable {s s' : Standing ν} {l picks : List ν} {x : ν}

omit [DecidableEq ν] in
theorem excess_eq_zero (h : ∀ y ∈ l, 1 ≤ s.priority y) :
    s.excess l = 0 ↔ ∀ y ∈ l, s.priority y = 1 := by
  unfold excess
  rw [List.sum_eq_zero_iff]
  simp only [List.mem_map, forall_exists_index, and_imp, forall_apply_eq_imp_iff₂]
  refine forall₂_congr fun y hy => ?_
  have := h y hy
  omega

theorem Sound.turn (h : s.Sound l) (hturn : Turn l s x s') : s'.Sound l := by
  constructor
  · intro y hy
    have := h.priority y hy
    rw [hturn.priority y hy, lower]
    split
    · split <;> omega
    · omega
  · intro y hy
    have := h.age y hy
    rw [hturn.age y hy]
    split <;> omega

/-- A turn takes one off the excess, as long as there is any. -/
theorem excess_turn (hnodup : l.Nodup) (h : s.Sound l) (hturn : Turn l s x s') :
    s'.excess l = s.excess l - 1 := by
  by_cases hx : s.priority x = 1
  · have hone : ∀ y ∈ l, s.priority y = 1 := by
      intro y hy
      have := h.priority y hy
      have := hturn.best.highest y hy
      omega
    have hone' : ∀ y ∈ l, s'.priority y = 1 := by
      intro y hy
      rw [hturn.priority y hy, hone y hy]
      simp [lower]
    rw [(excess_eq_zero h.priority).mpr hone,
      (excess_eq_zero (h.turn hturn).priority).mpr hone']
  · obtain ⟨before, after, hl⟩ := List.append_of_mem hturn.best.mem
    have hlow := h.priority x hturn.best.mem
    have hother : ∀ y ∈ before ++ after, s'.priority y = s.priority y := by
      intro y hy
      rw [hturn.priority y (by rw [hl]; simp only [List.mem_append, List.mem_cons] at hy ⊢; tauto)]
      refine if_neg ?_
      rintro rfl
      rw [hl] at hnodup
      exact (List.nodup_middle.mp hnodup).notMem hy
    have hself : s'.priority x = s.priority x - 1 := by
      rw [hturn.priority x hturn.best.mem, if_pos rfl, lower, if_pos (by omega)]
    have hsame : ∀ part, part ⊆ before ++ after →
        (part.map fun y => (s'.priority y - 1).toNat) =
          part.map fun y => (s.priority y - 1).toNat := by
      intro part hpart
      exact List.map_congr_left fun y hy => by rw [hother y (hpart hy)]
    unfold excess
    rw [hl, List.map_append, List.map_append, List.map_cons, List.map_cons,
      hsame before (by simp), hsame after (by simp)]
    simp only [List.sum_append, List.sum_cons, hself]
    omega

theorem Sound.run (h : s.Sound l) (run : (turns l).Run s picks s') : s'.Sound l :=
  run.invariant (I := fun s => s.Sound l) (fun _ _ _ hs hturn => hs.turn hturn) h

theorem excess_run (hnodup : l.Nodup) (h : s.Sound l) (run : (turns l).Run s picks s') :
    s'.excess l = s.excess l - picks.length := by
  induction run with
  | nil => rfl
  | snoc hrun hturn ih =>
      rw [excess_turn hnodup (h.run hrun) hturn, ih, List.length_append]
      exact Nat.sub_sub _ _ _

/-- Among equals, whoever has waited for longer is served first. -/
structure InRound (l picks : List ν) (s : Standing ν) : Prop where
  nodup : picks.Nodup
  subset : picks ⊆ l
  equal : ∀ y ∈ l, s.priority y = 1
  waiting : ∀ y ∈ l, y ∉ picks → (picks.length : Int) ≤ s.age y
  served : ∀ y ∈ picks, s.age y < picks.length

theorem InRound.turn (h : InRound l picks s) (hlen : picks.length < l.length) (hnodup : l.Nodup)
    (hturn : Turn l s x s') : InRound l (picks ++ [x]) s' := by
  have hx := hturn.best.mem
  -- somebody has not been served yet, and is older than those that have
  obtain ⟨y, hy, hypicks⟩ : ∃ y ∈ l, y ∉ picks := by
    by_contra hall
    push Not at hall
    have := (hnodup.subperm hall).length_le
    omega
  have hfresh : x ∉ picks := by
    intro hmem
    have h1 := h.waiting y hy hypicks
    have h2 := hturn.best.oldest y hy (by rw [h.equal y hy, h.equal x hx])
    have h3 := h.served x hmem
    omega
  refine ⟨?_, ?_, ?_, ?_, ?_⟩
  · rw [List.nodup_append]
    refine ⟨h.nodup, List.nodup_singleton x, fun a ha b hb => ?_⟩
    rw [List.mem_singleton] at hb
    rintro rfl
    exact hfresh (hb ▸ ha)
  · intro z hz
    rcases List.mem_append.mp hz with hz | hz
    · exact h.subset hz
    · rw [List.mem_singleton] at hz
      exact hz ▸ hx
  · intro z hz
    rw [hturn.priority z hz, h.equal z hz]
    simp [lower]
  · intro z hz hnot
    rw [List.mem_append, List.mem_singleton, not_or] at hnot
    have := h.waiting z hz hnot.1
    rw [hturn.age z hz, if_neg hnot.2, List.length_append, List.length_singleton]
    push_cast
    omega
  · intro z hz
    rw [List.length_append, List.length_singleton]
    push_cast
    rcases List.mem_append.mp hz with hz | hz
    · have := h.served z hz
      have hne : z ≠ x := fun he => hfresh (he ▸ hz)
      rw [hturn.age z (h.subset hz), if_neg hne]
      omega
    · rw [List.mem_singleton] at hz
      subst hz
      rw [hturn.age z hx, if_pos rfl]
      omega

theorem InRound.run (hnodup : l.Nodup) (h : s.Sound l) (hone : ∀ y ∈ l, s.priority y = 1)
    (run : (turns l).Run s picks s') (hlen : picks.length ≤ l.length) : InRound l picks s' := by
  induction run with
  | nil => exact ⟨List.nodup_nil, by simp, hone, fun y hy _ => h.age y hy, by simp⟩
  | snoc hrun hturn ih =>
      rw [List.length_append, List.length_singleton] at hlen
      exact (ih (by omega)).turn (by omega) hnodup hturn

/-- As many turns as there are members serve each member once. -/
theorem round (hnodup : l.Nodup) (h : s.Sound l) (hone : ∀ y ∈ l, s.priority y = 1)
    (run : (turns l).Run s picks s') (hlen : picks.length = l.length) : picks.Perm l := by
  have hround := InRound.run hnodup h hone run (le_of_eq hlen)
  exact (hround.nodup.subperm hround.subset).perm_of_length_le (le_of_eq hlen.symm)

/-- Once the excess is used up, all turns go round. -/
theorem round_of_excess (hnodup : l.Nodup) (h : s.Sound l) {first window rest : List ν}
    (run : (turns l).Run s (first ++ window ++ rest) s') (hfirst : s.excess l ≤ first.length)
    (hwindow : window.length = l.length) : window.Perm l := by
  obtain ⟨s₂, hrun₂, -⟩ := run.split
  obtain ⟨s₁, hrun₁, hwin⟩ := hrun₂.split
  have hsound := h.run hrun₁
  have hexcess : s₁.excess l = 0 := by
    rw [excess_run hnodup h hrun₁]
    omega
  exact round hnodup hsound ((excess_eq_zero hsound.priority).mp hexcess) hwin hwindow

end Standing

/-! ## Traffic -/

/-- A call serves somebody unless there is nobody. -/
inductive Traffic (ν : Type u) where
  | call (served : Option ν)
  | arrive (y : ν)

namespace Traffic

def isCall : Traffic ν → Bool
  | call _ => true
  | arrive _ => false

def served : Traffic ν → Option ν
  | call served => served
  | arrive _ => none

end Traffic

/-- The members of a queue in which all have the same priority, and their ages. -/
structure Crowd (ν : Type u) where
  members : List ν
  age : ν → Int

namespace Crowd

/-- The oldest one leaves and the others grow older; new members come last, with age 0. -/
def Moves (c : Crowd ν) : Traffic ν → Crowd ν → Prop
  | .call none, c' => c.members = [] ∧ c'.members = []
  | .call (some x), c' =>
      x ∈ c.members ∧ (∀ y ∈ c.members, c.age y ≤ c.age x) ∧ c'.members = c.members.erase x ∧
        ∀ y ∈ c.members, y ≠ x → c'.age y = c.age y + 1
  | .arrive y, c' =>
      y ∉ c.members ∧ c'.members = c.members ++ [y] ∧ c'.age y = 0 ∧
        ∀ z ∈ c.members, c'.age z = c.age z

end Crowd

def traffic : Lts (Crowd ν) (Traffic ν) where
  step := Crowd.Moves

def callsOf (labels : List (Traffic ν)) : Nat := labels.countP Traffic.isCall

def servedBy (labels : List (Traffic ν)) : List ν := labels.filterMap Traffic.served

/-- `old` were there at the first call.  After `calls` calls, which served `served`, those of
them that still wait are older than everybody else. -/
structure OldFirst (old : List ν) (calls : Nat) (served : List ν) (c : Crowd ν) : Prop where
  nodup : c.members.Nodup
  length : (served.take old.length).length = min calls old.length
  firstNodup : (served.take old.length).Nodup
  firstOld : served.take old.length ⊆ old
  waiting : ∀ x ∈ old, x ∉ served.take old.length → x ∈ c.members ∧ (calls : Int) ≤ c.age x
  young : calls ≤ old.length → served.length = calls ∧
    ∀ y ∈ c.members, y ∉ old ∨ y ∈ served → c.age y < calls

namespace OldFirst

variable {old served : List ν} {calls : Nat} {c c' : Crowd ν}

omit [DecidableEq ν] in
/-- Once there have been as many calls, everybody who was there has been served. -/
theorem mem_first (h : OldFirst old calls served c) (hcalls : old.length ≤ calls) {x : ν}
    (hx : x ∈ old) : x ∈ served.take old.length := by
  have hlen : old.length ≤ (served.take old.length).length := by
    rw [h.length]
    omega
  exact ((h.firstNodup.subperm h.firstOld).perm_of_length_le hlen).mem_iff.mpr hx

omit [DecidableEq ν] in
/-- Before that, somebody is still waiting. -/
theorem exists_waiting (h : OldFirst old calls served c) (hold : old.Nodup)
    (hcalls : calls < old.length) : ∃ x ∈ old, x ∉ served.take old.length := by
  by_contra hall
  push Not at hall
  have := (hold.subperm hall).length_le
  rw [h.length] at this
  omega

omit [DecidableEq ν] in
theorem start (hold : old.Nodup) (hage : ∀ x ∈ old, 0 ≤ c.age x) (hmembers : c.members = old) :
    OldFirst old 0 [] c := by
  refine ⟨hmembers ▸ hold, by simp, by simp, by simp, fun x hx _ => ⟨hmembers ▸ hx, hage x hx⟩,
    fun _ => ⟨rfl, fun y hy hnot => ?_⟩⟩
  rcases hnot with hnot | hnot
  · exact absurd (hmembers ▸ hy) hnot
  · cases hnot

theorem arrive (h : OldFirst old calls served c) (hcalls : 1 ≤ calls) {y : ν}
    (hmove : c.Moves (.arrive y) c') : OldFirst old calls served c' := by
  obtain ⟨hnew, hmembers, hzero, hage⟩ := hmove
  refine ⟨?_, h.length, h.firstNodup, h.firstOld, fun x hx hnot => ?_, fun hle => ?_⟩
  · rw [hmembers, List.nodup_append]
    refine ⟨h.nodup, List.nodup_singleton y, fun a ha b hb => ?_⟩
    rw [List.mem_singleton] at hb
    rintro rfl
    exact hnew (hb ▸ ha)
  · obtain ⟨hmem, hold⟩ := h.waiting x hx hnot
    rw [hage x hmem, hmembers]
    exact ⟨List.mem_append_left _ hmem, hold⟩
  · obtain ⟨hlen, hyoung⟩ := h.young hle
    refine ⟨hlen, fun z hz hnot => ?_⟩
    rw [hmembers, List.mem_append, List.mem_singleton] at hz
    rcases hz with hz | rfl
    · rw [hage z hz]
      exact hyoung z hz hnot
    · rw [hzero]
      omega

/-- A call that comes when all of `old` have been served. -/
theorem call_late (h : OldFirst old calls served c) (hcalls : old.length ≤ calls)
    (hnodup : c'.members.Nodup) (more : List ν) : OldFirst old (calls + 1) (served ++ more) c' := by
  have hall : ∀ x ∈ old, x ∈ served.take old.length := fun x hx => h.mem_first hcalls hx
  have hlen : old.length ≤ served.length := by
    have := h.length
    rw [List.length_take] at this
    omega
  have htake : (served ++ more).take old.length = served.take old.length :=
    List.take_append_of_le_length hlen
  refine ⟨hnodup, ?_, htake ▸ h.firstNodup, htake ▸ h.firstOld, fun x hx hnot => ?_, fun hle => ?_⟩
  · rw [htake, h.length]
    omega
  · exact absurd (hall x hx) (htake ▸ hnot)
  · omega

/-- Until then a call serves one of them. -/
theorem call_early (h : OldFirst old calls served c) (hold : old.Nodup)
    (hcalls : calls < old.length) {x : ν} (hmove : c.Moves (.call (some x)) c') :
    OldFirst old (calls + 1) (served ++ [x]) c' := by
  obtain ⟨hx, holdest, hmembers, hage⟩ := hmove
  obtain ⟨hlen, hyoung⟩ := h.young (by omega)
  have htake : served.take old.length = served := List.take_of_length_le (by omega)
  have htake' : (served ++ [x]).take old.length = served ++ [x] :=
    List.take_of_length_le (by rw [List.length_append, List.length_singleton]; omega)
  obtain ⟨z, hz, hznot⟩ := h.exists_waiting hold hcalls
  obtain ⟨hzmem, hzage⟩ := h.waiting z hz hznot
  have hxage := holdest z hzmem
  -- nobody but a waiting member of `old` is as old as `z`
  have hxold : x ∈ old ∧ x ∉ served := by
    by_contra hnot
    have := hyoung x hx (by tauto)
    omega
  have hmem : ∀ y, y ∈ c'.members ↔ y ≠ x ∧ y ∈ c.members := by
    intro y
    rw [hmembers, h.nodup.mem_erase_iff]
  refine ⟨hmembers ▸ h.nodup.erase x, ?_, ?_, ?_, fun y hy hnot => ?_, fun _ => ⟨?_, ?_⟩⟩
  · rw [htake', List.length_append, List.length_singleton]
    omega
  · rw [htake', List.nodup_append]
    refine ⟨htake ▸ h.firstNodup, List.nodup_singleton x, fun a ha b hb => ?_⟩
    rw [List.mem_singleton] at hb
    rintro rfl
    exact hxold.2 (hb ▸ ha)
  · rw [htake']
    intro y hy
    rcases List.mem_append.mp hy with hy | hy
    · exact h.firstOld (by rwa [htake])
    · rw [List.mem_singleton] at hy
      exact hy ▸ hxold.1
  · rw [htake', List.mem_append, List.mem_singleton, not_or] at hnot
    obtain ⟨hymem, hyage⟩ := h.waiting y hy (by rw [htake]; exact hnot.1)
    refine ⟨(hmem y).mpr ⟨hnot.2, hymem⟩, ?_⟩
    rw [hage y hymem hnot.2]
    push_cast
    omega
  · rw [List.length_append, List.length_singleton, hlen]
  · intro y hy hnot
    obtain ⟨hne, hymem⟩ := (hmem y).mp hy
    have hynot : y ∉ old ∨ y ∈ served := by
      rcases hnot with hnot | hnot
      · exact .inl hnot
      · rw [List.mem_append, List.mem_singleton] at hnot
        exact .inr (hnot.resolve_right hne)
    have := hyoung y hymem hynot
    rw [hage y hymem hne]
    push_cast
    omega

theorem call (h : OldFirst old calls served c) (hold : old.Nodup) {x : Option ν}
    (hmove : c.Moves (.call x) c') : OldFirst old (calls + 1) (served ++ x.toList) c' := by
  by_cases hcalls : calls < old.length
  · cases x with
    | some x => exact h.call_early hold hcalls hmove
    | none =>
        obtain ⟨z, hz, hznot⟩ := h.exists_waiting hold hcalls
        have hmem := (h.waiting z hz hznot).1
        rw [hmove.1] at hmem
        cases hmem
  · refine h.call_late (by omega) ?_ _
    cases x with
    | some x =>
        rw [hmove.2.2.1]
        exact h.nodup.erase x
    | none =>
        rw [hmove.2]
        exact List.nodup_nil

end OldFirst

omit [DecidableEq ν] in
theorem callsOf_pos {labels : List (Traffic ν)} (hne : labels ≠ [])
    (hfirst : ∀ y, labels.head? ≠ some (.arrive y)) : 1 ≤ callsOf labels := by
  cases labels with
  | nil => exact absurd rfl hne
  | cons event rest =>
      cases event with
      | call x => simp [callsOf, Traffic.isCall]
      | arrive y => exact absurd rfl (hfirst y)

/-- Traffic that begins with a call. -/
theorem OldFirst.run {c c' : Crowd ν} {labels : List (Traffic ν)} (hold : c.members.Nodup)
    (hage : ∀ x ∈ c.members, 0 ≤ c.age x) (run : traffic.Run c labels c')
    (hfirst : ∀ y, labels.head? ≠ some (.arrive y)) :
    OldFirst c.members (callsOf labels) (servedBy labels) c' := by
  induction run with
  | nil => exact .start hold hage rfl
  | @snoc c₁ c₂ labels event hrun hmove ih =>
      have hhead : ∀ y, labels.head? ≠ some (.arrive y) := by
        intro y hy
        apply hfirst y
        rw [List.head?_append, hy]
        rfl
      have hinv := ih hhead
      cases event with
      | call x =>
          have hnext := hinv.call hold hmove
          have hcount : callsOf (labels ++ [.call x]) = callsOf labels + 1 := by
            simp [callsOf, Traffic.isCall]
          have hserved : servedBy (labels ++ [.call x]) = servedBy labels ++ x.toList := by
            cases x <;> simp [servedBy, Traffic.served]
          rwa [hcount, hserved]
      | arrive y =>
          have hne : labels ≠ [] := by
            rintro rfl
            exact hfirst y rfl
          have hnext := hinv.arrive (callsOf_pos hne hhead) hmove
          have hcount : callsOf (labels ++ [.arrive y]) = callsOf labels := by
            simp [callsOf, Traffic.isCall]
          have hserved : servedBy (labels ++ [.arrive y]) = servedBy labels := by
            simp [servedBy, Traffic.served]
          rwa [hcount, hserved]

end UcasOs.Foundation
