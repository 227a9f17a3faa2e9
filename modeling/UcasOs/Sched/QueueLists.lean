import UcasOs.Sched.Queue
import Mathlib.Data.List.Pairwise

/-!
# Queues as lists

Every operation of `kernel/sched/queue.c` does to the list of a queue what its
name says, the sorted insertion included, and does nothing to the other queues.
-/

namespace UcasOs.Sched

open UcasOs.Foundation

universe u v

variable {ν : Type u} {κ : Type v} [DecidableEq ν] [DecidableEq κ]

/-- The other queues, on items apart from `l`, are as they were. -/
def OthersUnchanged (h h' : LinkHeap ν κ) (q : κ) (l : List ν) : Prop :=
  ∀ p m, p ≠ q → h.Represents p m → m.Disjoint l →
    h'.Represents p m ∧ h'.head p = h.head p ∧ h'.tail p = h.tail p ∧
      ∀ x ∈ m, h'.prev x = h.prev x ∧ h'.next x = h.next x

def NonIncreasing (priority : ν → Int) (l : List ν) : Prop :=
  l.Pairwise fun a b => priority b ≤ priority a

section

variable {h h' : LinkHeap ν κ} {q : κ} {x : ν} {l l' l₁ l₂ : List ν}

omit [DecidableEq ν] [DecidableEq κ] in
theorem othersUnchanged_of_replaces (hreplaces : h.Replaces h' q l l') {touched : List ν}
    (hl : l ⊆ touched) (hl' : l' ⊆ touched) : OthersUnchanged h h' q touched := by
  intro p m hp hrep hdisjoint
  have hold : ∀ y ∈ m, y ∉ l := fun y hy hyl => hdisjoint hy (hl hyl)
  have hnew : ∀ y ∈ m, y ∉ l' := fun y hy hyl => hdisjoint hy (hl' hyl)
  refine ⟨hreplaces.other hp hrep hold hnew, hreplaces.head_eq p hp, hreplaces.tail_eq p hp, ?_⟩
  intro y hy
  exact ⟨hreplaces.prev_eq y (hold y hy) (hnew y hy), hreplaces.next_eq y (hold y hy) (hnew y hy)⟩

/-! ## The sorted insertion -/

variable {priority : ν → Int}

omit [DecidableEq ν] [DecidableEq κ] in
theorem insertionPoint_eq {before : Option ν} {fuel : Nat} (hseg : h.Seg before l none)
    (hfuel : l.length ≤ fuel) :
    insertionPoint h priority x fuel l.head? =
      .ok (l.dropWhile fun t => priority t > priority x).head? := by
  induction l generalizing before fuel with
  | nil => cases fuel <;> rfl
  | cons t l ih =>
      obtain ⟨-, hnext, hrest⟩ := hseg
      rw [Option.or_none] at hnext
      cases fuel with
      | zero => cases hfuel
      | succ fuel =>
          rw [List.head?_cons, insertionPoint]
          by_cases ht : priority t > priority x
          · rw [if_pos ht, hnext, ih hrest (by simpa using hfuel)]
            simp [ht]
          · rw [if_neg ht]
            simp [ht]

/-- The item goes between what is larger and the first that is not. -/
theorem queuePushIncreasingly_replaces {fuel : Nat} (hrep : h.Represents q (l₁ ++ l₂))
    (hx : x ∉ l₁ ++ l₂)
    (hpoint : insertionPoint h priority x fuel (h.head q) = .ok l₂.head?) :
    ∃ h', queuePushIncreasingly h priority q x fuel = .ok h' ∧
      h.Replaces h' q (l₁ ++ l₂) (l₁ ++ x :: l₂) := by
  have hpush (hnil : l₂ = []) : ∃ h', queuePush h q x = .ok h' ∧
      h.Replaces h' q (l₁ ++ l₂) (l₁ ++ x :: l₂) := by
    subst hnil
    rw [List.append_nil] at hrep hx
    simpa using queuePush_replaces hrep hx
  cases hhead : h.head q with
  | none =>
      have hnil : l₁ ++ l₂ = [] := hrep.head_eq_none.mp hhead
      have heq : queuePushIncreasingly h priority q x fuel = queuePush h q x := by
        simp only [queuePushIncreasingly, queuePush, hhead]
      rw [heq]
      exact hpush (List.append_eq_nil_iff.mp hnil).2
  | some first =>
      rw [hhead] at hpoint
      cases l₂ with
      | nil =>
          have heq : queuePushIncreasingly h priority q x fuel = queuePush h q x := by
            simp only [queuePushIncreasingly, queuePush, hhead, hpoint, List.head?_nil]
          rw [heq]
          exact hpush rfl
      | cons t l₂ =>
          obtain ⟨hprev, -⟩ := hrep.links
          have hishead := isHead_iff hrep
          have hxt : t ≠ x := by
            rintro rfl
            simp at hx
          have htail := hrep.tail_eq
          rcases List.eq_nil_or_concat l₁ with rfl | ⟨front, last, rfl⟩
          · have hfirst : t = first := Option.some.inj ((hishead.mpr rfl).trans hhead)
            refine ⟨_, by
              simp only [queuePushIncreasingly, hhead, hpoint, List.head?_cons, if_pos hfirst]
              rfl, ?_⟩
            apply hrep.linked hx
            · simp
            · simpa [List.getLast?_cons_cons] using htail
            · intro p hp
              simp [hp]
            · simp
            · intro y hy
              simp [Function.update_apply, hy, eq_comm (a := y)]
            · intro y hy
              simp [hy]
          · rw [List.concat_eq_append] at *
            have hfirst : t ≠ first := by
              rintro rfl
              simpa using hishead.mp hhead.symm
            refine ⟨_, by
              simp only [queuePushIncreasingly, hhead, hpoint, List.head?_cons, if_neg hfirst,
                hprev, List.getLast?_concat]
              rfl, ?_⟩
            apply hrep.linked hx
            · cases front <;> simp [hrep.head_eq]
            · simpa [List.getLast?_cons_cons] using htail
            · intro p _
              exact ⟨rfl, rfl⟩
            · simp [Function.update_of_ne hxt.symm]
            · intro y hy
              simp [Function.update_apply, hy, eq_comm (a := y)]
            · intro y hy
              simp [Function.update_apply, hy, eq_comm (a := y)]

omit [DecidableEq ν] in
theorem insert_perm (p : ν → Bool) : (l.takeWhile p ++ x :: l.dropWhile p).Perm (x :: l) := by
  have hperm : (l.takeWhile p ++ x :: l.dropWhile p).Perm
      (x :: (l.takeWhile p ++ l.dropWhile p)) := List.perm_middle
  rwa [List.takeWhile_append_dropWhile] at hperm

omit [DecidableEq ν] in
/-- Putting an item before the first one that is not larger keeps the order. -/
theorem NonIncreasing.insert (hsorted : NonIncreasing priority l) :
    NonIncreasing priority (l.takeWhile (fun t => priority t > priority x) ++
      x :: l.dropWhile fun t => priority t > priority x) := by
  induction l with
  | nil => simp [NonIncreasing]
  | cons t l ih =>
      obtain ⟨ht, hrest⟩ := List.pairwise_cons.mp hsorted
      by_cases hlarger : priority t > priority x
      · simp only [hlarger, List.takeWhile_cons, List.dropWhile_cons, decide_true, if_true,
          List.cons_append]
        apply List.pairwise_cons.mpr ⟨?_, ih hrest⟩
        intro y hy
        rcases List.mem_cons.mp ((insert_perm _).mem_iff.mp hy) with rfl | hy
        · omega
        · exact ht y hy
      · simp only [hlarger, List.takeWhile_cons, List.dropWhile_cons, decide_false, if_false,
          List.nil_append, Bool.false_eq_true]
        apply List.pairwise_cons.mpr ⟨?_, hsorted⟩
        intro y hy
        rcases List.mem_cons.mp hy with rfl | hy
        · omega
        · have := ht y hy
          omega

/-! ## The four operations -/

theorem queuePush_appends (hrep : h.Represents q l) (hx : x ∉ l) :
    ∃ h', queuePush h q x = .ok h' ∧ h'.Represents q (l ++ [x]) ∧
      OthersUnchanged h h' q (x :: l) := by
  obtain ⟨h', hpush, hreplaces⟩ := queuePush_replaces hrep hx
  refine ⟨h', hpush, hreplaces.represents, ?_⟩
  apply othersUnchanged_of_replaces hreplaces <;> simp

theorem queueRemove_erases (hrep : h.Represents q l) (hsplit : l = l₁ ++ x :: l₂) :
    ∃ h', queueRemove h q x = .ok (l₂.head?, h') ∧ h'.Represents q (l₁ ++ l₂) ∧
      h'.prev x = none ∧ h'.next x = none ∧ OthersUnchanged h h' q l := by
  subst hsplit
  obtain ⟨h', hremove, hprev, hnext, hreplaces⟩ := queueRemove_replaces hrep
  refine ⟨h', hremove, hreplaces.represents, hprev, hnext, ?_⟩
  apply othersUnchanged_of_replaces hreplaces <;> simp

theorem queueDequeue_pops (hrep : h.Represents q l) (hcons : l = x :: l') :
    ∃ h', queueDequeue h q = .ok (x, h') ∧ h'.Represents q l' ∧
      h'.prev x = none ∧ h'.next x = none ∧ OthersUnchanged h h' q l := by
  subst hcons
  obtain ⟨h', hdequeue, hprev, hnext, hreplaces⟩ := queueDequeue_replaces hrep
  refine ⟨h', hdequeue, hreplaces.represents, hprev, hnext, ?_⟩
  apply othersUnchanged_of_replaces hreplaces <;> simp

theorem queuePushIncreasingly_inserts {fuel : Nat} (hrep : h.Represents q l) (hx : x ∉ l)
    (hsorted : NonIncreasing priority l) (hfuel : l.length ≤ fuel) :
    ∃ h' l', queuePushIncreasingly h priority q x fuel = .ok h' ∧ h'.Represents q l' ∧
      l'.Perm (x :: l) ∧ NonIncreasing priority l' ∧ OthersUnchanged h h' q (x :: l) := by
  have hpoint : insertionPoint h priority x fuel (h.head q) =
      .ok (l.dropWhile fun t => priority t > priority x).head? := by
    rw [hrep.head_eq]
    exact insertionPoint_eq hrep.seg hfuel
  have hsplit : l.takeWhile (fun t => priority t > priority x) ++
      l.dropWhile (fun t => priority t > priority x) = l := List.takeWhile_append_dropWhile
  obtain ⟨h', hpush, hreplaces⟩ := queuePushIncreasingly_replaces (hsplit.symm ▸ hrep)
    (hsplit.symm ▸ hx) hpoint
  rw [hsplit] at hreplaces
  have hperm := insert_perm (x := x) (l := l) fun t => priority t > priority x
  refine ⟨h', _, hpush, hreplaces.represents, hperm, hsorted.insert, ?_⟩
  apply othersUnchanged_of_replaces hreplaces (by simp)
  exact fun y hy => hperm.mem_iff.mp hy

end

/--
On every heap and for every well-formed queue, `queue_push` appends,
`queue_remove` deletes and returns the successor, `queue_dequeue` takes the
head, and `queue_push_increasingly` inserts in order; a removed item has no
links, and queues on other items are untouched.
-/
theorem queues_refine_lists (h : LinkHeap ν κ) (q : κ) (l : List ν) (hrep : h.Represents q l)
    (priority : ν → Int) :
    (∀ x, x ∉ l → ∃ h', queuePush h q x = .ok h' ∧ h'.Represents q (l ++ [x]) ∧
      OthersUnchanged h h' q (x :: l)) ∧
    (∀ l₁ x l₂, l = l₁ ++ x :: l₂ → ∃ h', queueRemove h q x = .ok (l₂.head?, h') ∧
      h'.Represents q (l₁ ++ l₂) ∧ h'.prev x = none ∧ h'.next x = none ∧
        OthersUnchanged h h' q l) ∧
    (∀ x rest, l = x :: rest → ∃ h', queueDequeue h q = .ok (x, h') ∧ h'.Represents q rest ∧
      h'.prev x = none ∧ h'.next x = none ∧ OthersUnchanged h h' q l) ∧
    (∀ x fuel, x ∉ l → NonIncreasing priority l → l.length ≤ fuel →
      ∃ h' l', queuePushIncreasingly h priority q x fuel = .ok h' ∧ h'.Represents q l' ∧
        l'.Perm (x :: l) ∧ NonIncreasing priority l' ∧ OthersUnchanged h h' q (x :: l)) := by
  refine ⟨?_, ?_, ?_, ?_⟩
  · exact fun x hx => queuePush_appends hrep hx
  · exact fun l₁ x l₂ hsplit => queueRemove_erases hrep hsplit
  · exact fun x rest hcons => queueDequeue_pops hrep hcons
  · exact fun x fuel hx hsorted hfuel => queuePushIncreasingly_inserts hrep hx hsorted hfuel

/-- Items 0 and 1 in the queue `true`, item 2 in the queue `false`, item 3 in none. -/
def twoQueues : LinkHeap Nat Bool where
  prev i := if i = 1 then some 0 else none
  next i := if i = 0 then some 1 else none
  head b := if b then some 0 else some 2
  tail b := if b then some 1 else some 2

theorem queues_refine_lists_two :
    twoQueues.Represents true [0, 1] ∧ twoQueues.Represents false [2] ∧
      (∃ h', queueRemove twoQueues true 0 = .ok (some 1, h') ∧ h'.Represents true [1] ∧
        h'.prev 0 = none ∧ h'.next 0 = none ∧ h'.Represents false [2]) ∧
      ∃ h' l', queuePushIncreasingly twoQueues (fun i => 3 - (i : Int)) true 3 2 = .ok h' ∧
        h'.Represents true l' ∧ l'.Perm [3, 0, 1] ∧
          NonIncreasing (fun i : Nat => 3 - (i : Int)) l' ∧ h'.Represents false [2] := by
  have htrue : twoQueues.Represents true [0, 1] :=
    ⟨rfl, rfl, by decide, rfl, rfl, rfl, rfl, trivial⟩
  have hfalse : twoQueues.Represents false [2] := ⟨rfl, rfl, by decide, rfl, rfl, trivial⟩
  have hops := queues_refine_lists twoQueues true [0, 1] htrue fun i => 3 - (i : Int)
  refine ⟨htrue, hfalse, ?_, ?_⟩
  · obtain ⟨h', hremove, hrep, hprev, hnext, hothers⟩ := hops.2.1 [] 0 [1] rfl
    exact ⟨h', hremove, hrep, hprev, hnext, (hothers false [2] (by decide) hfalse (by simp)).1⟩
  · obtain ⟨h', l', hpush, hrep, hperm, hsorted, hothers⟩ :=
      hops.2.2.2 3 2 (by decide) (by simp [NonIncreasing]) (by decide)
    exact ⟨h', l', hpush, hrep, hperm, hsorted,
      (hothers false [2] (by decide) hfalse (by simp)).1⟩

end UcasOs.Sched
