import UcasOs.Foundation.LinkHeap
import UcasOs.Foundation.Outcome

/-!
# Queues of process control blocks

`kernel/sched/queue.c`.  A queue is a header with `head` and `tail`; its items
are linked through the `prev` and `next` fields of the PCBs themselves, so one
item can be in one queue only.  The operations run on the links alone; a NULL
pointer that the code would follow stops them.
-/

namespace UcasOs.Sched

open UcasOs.Foundation

/-- The ways in which kernel code stops instead of returning. -/
inductive Fault where
  | panic (message : String)
  | nullPointer
  | uninitialised
  | endlessLoop
  deriving DecidableEq, Repr

universe u v

variable {ν : Type u} {κ : Type v} [DecidableEq ν] [DecidableEq κ]

def queueInit (h : LinkHeap ν κ) (queue : κ) : LinkHeap ν κ :=
  { h with
    head := Function.update h.head queue none
    tail := Function.update h.tail queue none }

def queueIsEmpty (h : LinkHeap ν κ) (queue : κ) : Bool :=
  (h.head queue).isNone

def queuePush (h : LinkHeap ν κ) (queue : κ) (item : ν) :
    Except Fault (LinkHeap ν κ) :=
  match h.head queue with
  | none =>
      .ok
        { prev := Function.update h.prev item none
          next := Function.update h.next item none
          head := Function.update h.head queue (some item)
          tail := Function.update h.tail queue (some item) }
  | some _ =>
      match h.tail queue with
      | none => .error .nullPointer
      | some last =>
          .ok
            { h with
              prev := Function.update h.prev item (some last)
              next := Function.update (Function.update h.next last (some item)) item none
              tail := Function.update h.tail queue (some item) }

/-- The item at which the loop of `queue_push_increasingly` stops, NULL at the end. -/
def insertionPoint (h : LinkHeap ν κ) (priority : ν → Int) (item : ν) :
    Nat → Option ν → Except Fault (Option ν)
  | _, none => .ok none
  | 0, some _ => .error .endlessLoop
  | fuel + 1, some t =>
      if priority t > priority item then insertionPoint h priority item fuel (h.next t)
      else .ok (some t)

def queuePushIncreasingly (h : LinkHeap ν κ) (priority : ν → Int) (queue : κ) (item : ν)
    (fuel : Nat) : Except Fault (LinkHeap ν κ) :=
  match h.head queue with
  | none =>
      .ok
        { prev := Function.update h.prev item none
          next := Function.update h.next item none
          head := Function.update h.head queue (some item)
          tail := Function.update h.tail queue (some item) }
  | some first =>
      match insertionPoint h priority item fuel (some first) with
      | .error fault => .error fault
      | .ok none =>
          match h.tail queue with
          | none => .error .nullPointer
          | some last =>
              .ok
                { h with
                  prev := Function.update h.prev item (some last)
                  next := Function.update (Function.update h.next last (some item)) item none
                  tail := Function.update h.tail queue (some item) }
      | .ok (some t) =>
          if t = first then
            .ok
              { h with
                prev := Function.update (Function.update h.prev t (some item)) item none
                next := Function.update h.next item (some t)
                head := Function.update h.head queue (some item) }
          else
            match h.prev t with
            | none => .error .nullPointer
            | some before =>
                .ok
                  { h with
                    prev := Function.update (Function.update h.prev item (some before)) t
                      (some item)
                    next := Function.update (Function.update h.next before (some item)) item
                      (some t) }

/-- Returns the old head.  The links of a sole item are left as they are. -/
def queueDequeue (h : LinkHeap ν κ) (queue : κ) :
    Except Fault (ν × LinkHeap ν κ) :=
  match h.head queue with
  | none => .error .nullPointer
  | some first =>
      match h.next first with
      | none =>
          .ok (first,
            { h with
              head := Function.update h.head queue none
              tail := Function.update h.tail queue none })
      | some second =>
          .ok (first,
            { h with
              prev := Function.update (Function.update h.prev second none) first none
              next := Function.update h.next first none
              head := Function.update h.head queue (some second) })

/-- Removes `item` and returns the item that followed it. -/
def queueRemove (h : LinkHeap ν κ) (queue : κ) (item : ν) :
    Except Fault (Option ν × LinkHeap ν κ) :=
  let next := h.next item
  if some item = h.head queue ∧ some item = h.tail queue then
    .ok (next,
      { h with
        head := Function.update h.head queue none
        tail := Function.update h.tail queue none })
  else if some item = h.head queue then
    match h.next item with
    | none => .error .nullPointer
    | some after =>
        .ok (next,
          { h with
            prev := Function.update (Function.update h.prev after none) item none
            next := Function.update h.next item none
            head := Function.update h.head queue (some after) })
  else if some item = h.tail queue then
    match h.prev item with
    | none => .error .nullPointer
    | some before =>
        .ok (next,
          { h with
            prev := Function.update h.prev item none
            next := Function.update (Function.update h.next before none) item none
            tail := Function.update h.tail queue (some before) })
  else
    match h.prev item, h.next item with
    | some before, some after =>
        .ok (next,
          { h with
            prev := Function.update (Function.update h.prev after (some before)) item none
            next := Function.update (Function.update h.next before (some after)) item none })
    | _, _ => .error .nullPointer

/-! ## The operations on represented lists -/

section

variable {h : LinkHeap ν κ} {L : κ → List ν} {q : κ} {x : ν} {l l₁ l₂ : List ν}

omit [DecidableEq ν] in
theorem queueInit_replaces : h.Replaces (queueInit h q) q [] [] where
  represents :=
    { head_eq := by simp [queueInit]
      tail_eq := by simp [queueInit]
      nodup := List.nodup_nil
      seg := trivial }
  head_eq p hp := by simp [queueInit, hp]
  tail_eq p hp := by simp [queueInit, hp]
  prev_eq _ _ _ := rfl
  next_eq _ _ _ := rfl

/-- Pushing an item of no queue appends it. -/
theorem queuePush_replaces (hrep : h.Represents q l) (hx : x ∉ l) :
    ∃ h', queuePush h q x = .ok h' ∧ h.Replaces h' q l (l ++ [x]) := by
  have hrep' : h.Represents q (l ++ []) := by rwa [List.append_nil]
  have hx' : x ∉ l ++ [] := by rwa [List.append_nil]
  have hlinked (h' : LinkHeap ν κ) := @LinkHeap.Represents.linked ν κ _ h h' q l [] x hrep' hx'
  rcases List.eq_nil_or_concat l with rfl | ⟨front, last, rfl⟩
  · have hhead : h.head q = none := hrep.head_eq
    refine ⟨_, by simp only [queuePush, hhead]; rfl, ?_⟩
    apply hlinked
    · simp
    · simp
    · intro p hp
      simp [hp]
    · simp
    · intro y hy
      simp [hy]
    · intro y hy
      simp [hy]
  · rw [List.concat_eq_append] at *
    obtain ⟨first, hfirst⟩ : ∃ first, (front ++ [last]).head? = some first := by
      cases front <;> simp
    have hhead : h.head q = some first := hrep.head_eq.trans hfirst
    have htail : h.tail q = some last := by simpa using hrep.tail_eq
    have hlx : last ≠ x := by
      rintro rfl
      simp at hx
    refine ⟨_, by simp only [queuePush, hhead, htail]; rfl, ?_⟩
    rw [List.append_nil] at hlinked
    apply hlinked
    · rw [List.head?_append, hfirst]
      exact hhead
    · simp
    · intro p hp
      simp [hp]
    · simp
    · intro y hy
      simp [hy]
    · intro y hy
      simp [Function.update_apply, hy, eq_comm (a := y)]

omit [DecidableEq ν] [DecidableEq κ] in
/-- What the code's tests on `head` and `tail` say of the position of a member. -/
theorem isHead_iff (hrep : h.Represents q (l₁ ++ x :: l₂)) : some x = h.head q ↔ l₁ = [] := by
  rw [hrep.head_eq]
  cases l₁ with
  | nil => simp
  | cons y l₁ =>
      have hx := (List.nodup_cons.mp hrep.nodup).1
      simp only [List.cons_append, List.head?_cons, Option.some.injEq, reduceCtorEq, iff_false]
      rintro rfl
      simp at hx

omit [DecidableEq ν] [DecidableEq κ] in
theorem isTail_iff (hrep : h.Represents q (l₁ ++ x :: l₂)) : some x = h.tail q ↔ l₂ = [] := by
  rw [hrep.tail_eq]
  have hx := (List.nodup_cons.mp (List.nodup_middle.mp hrep.nodup)).1
  rcases List.eq_nil_or_concat l₂ with rfl | ⟨front, last, rfl⟩
  · simp
  · rw [List.concat_eq_append] at *
    simp only [← List.cons_append, ← List.append_assoc, List.getLast?_concat,
      Option.some.injEq, List.append_eq_nil_iff, List.cons_ne_self, and_false, iff_false]
    rintro rfl
    simp at hx

/-- Removing a member returns its successor. -/
theorem queueRemove_replaces (hrep : h.Represents q (l₁ ++ x :: l₂)) :
    ∃ h', queueRemove h q x = .ok (l₂.head?, h') ∧ h'.prev x = none ∧ h'.next x = none ∧
      h.Replaces h' q (l₁ ++ x :: l₂) (l₁ ++ l₂) := by
  obtain ⟨hprev, hnext⟩ := hrep.links
  have hhead := hrep.head_eq
  have htail := hrep.tail_eq
  have hishead := isHead_iff hrep
  have histail := isTail_iff hrep
  rcases List.eq_nil_or_concat l₁ with rfl | ⟨front, last, rfl⟩ <;>
    rcases l₂ with _ | ⟨first, rest⟩
  · refine ⟨_, by
      rw [queueRemove, if_pos ⟨hishead.mpr rfl, histail.mpr rfl⟩, hnext], ?_, ?_, ?_⟩
    · exact hprev
    · exact hnext
    · apply hrep.unlinked
      · simp
      · simp
      · intro p hp
        simp [hp]
      · simp
      · simp
  · have ht : ¬ some x = h.tail q := by simp [histail]
    refine ⟨_, by
      rw [queueRemove, if_neg (by simp [ht]), if_pos (hishead.mpr rfl), hnext]
      rfl, by simp, by simp, ?_⟩
    apply hrep.unlinked
    · simp
    · simp [htail, List.getLast?_cons_cons]
    · intro p hp
      simp [hp]
    · intro y hy
      simp [Function.update_apply, hy, eq_comm (a := y)]
    · intro y hy
      simp [hy]
  · rw [List.concat_eq_append] at *
    have hh : ¬ some x = h.head q := by simp [hishead]
    refine ⟨_, by
      rw [queueRemove, if_neg (by simp [hh]), if_neg hh, if_pos (histail.mpr rfl), hprev,
        hnext, List.getLast?_concat], by simp, by simp, ?_⟩
    apply hrep.unlinked
    · cases front <;> simp [hhead]
    · simp
    · intro p hp
      simp [hp]
    · intro y hy
      simp [hy]
    · intro y hy
      simp [Function.update_apply, hy, eq_comm (a := y)]
  · rw [List.concat_eq_append] at *
    have hh : ¬ some x = h.head q := by simp [hishead]
    have ht : ¬ some x = h.tail q := by simp [histail]
    refine ⟨_, by
      rw [queueRemove, if_neg (by simp [hh]), if_neg hh, if_neg ht, hprev, hnext,
        List.getLast?_concat]
      rfl, by simp, by simp, ?_⟩
    apply hrep.unlinked
    · cases front <;> simp [hhead]
    · simp [htail, List.getLast?_cons_cons]
    · intro p _
      exact ⟨rfl, rfl⟩
    · intro y hy
      simp [Function.update_apply, hy, eq_comm (a := y)]
    · intro y hy
      simp [Function.update_apply, hy, eq_comm (a := y)]

/-- Dequeuing takes the first member off. -/
theorem queueDequeue_replaces (hrep : h.Represents q (x :: l)) :
    ∃ h', queueDequeue h q = .ok (x, h') ∧ h'.prev x = none ∧ h'.next x = none ∧
      h.Replaces h' q (x :: l) l := by
  have hrep' : h.Represents q ([] ++ x :: l) := hrep
  obtain ⟨hprev, hnext⟩ := hrep'.links
  have hhead : h.head q = some x := hrep.head_eq
  have htail := hrep.tail_eq
  rcases l with _ | ⟨second, rest⟩
  · refine ⟨_, by simp only [queueDequeue, hhead, hnext]; rfl, ?_, ?_, ?_⟩
    · exact hprev
    · exact hnext
    · apply hrep'.unlinked
      · simp
      · simp
      · intro p hp
        simp [hp]
      · simp
      · simp
  · refine ⟨_, by simp only [queueDequeue, hhead, hnext]; rfl, by simp, by simp, ?_⟩
    apply hrep'.unlinked
    · simp
    · simp [htail, List.getLast?_cons_cons]
    · intro p hp
      simp [hp]
    · intro y hy
      simp [Function.update_apply, hy, eq_comm (a := y)]
    · intro y hy
      simp [hy]

/-! ## The operations on all queues at once -/

omit [DecidableEq ν] in
theorem queueInit_holds (hh : h.Holds L) (hempty : L q = []) :
    (queueInit h q).Holds L := by
  have hreplaces : h.Replaces (queueInit h q) q (L q) (L q) := by
    rw [hempty]
    exact queueInit_replaces
  have hupdate := hh.replace hreplaces fun _ => .inl
  rwa [Function.update_eq_self] at hupdate

omit [DecidableEq ν] [DecidableEq κ] in
theorem queueIsEmpty_iff (hh : h.Holds L) : queueIsEmpty h q = true ↔ L q = [] := by
  rw [queueIsEmpty, Option.isNone_iff_eq_none, (hh.represents q).head_eq_none]

theorem queuePush_holds (hh : h.Holds L) (hx : ∀ p, x ∉ L p) :
    ∃ h', queuePush h q x = .ok h' ∧
      h'.Holds (Function.update L q (L q ++ [x])) := by
  obtain ⟨h', hpush, hreplaces⟩ := queuePush_replaces (hh.represents q) (hx q)
  refine ⟨h', hpush, hh.replace hreplaces ?_⟩
  intro y hy
  rcases List.mem_append.mp hy with hy | hy
  · exact .inl hy
  · rw [List.mem_singleton] at hy
    exact .inr (hy ▸ hx)

theorem queueRemove_holds (hh : h.Holds L) (hsplit : L q = l₁ ++ x :: l₂) :
    ∃ h', queueRemove h q x = .ok (l₂.head?, h') ∧
      h'.Holds (Function.update L q ((L q).erase x)) := by
  have hrep := hh.represents q
  rw [hsplit] at hrep
  obtain ⟨h', hremove, -, -, hreplaces⟩ := queueRemove_replaces hrep
  have hx := (List.nodup_cons.mp (List.nodup_middle.mp hrep.nodup)).1
  have herase : (L q).erase x = l₁ ++ l₂ := by
    rw [hsplit, List.erase_append_right _ fun hmem => hx (by simp [hmem]), List.erase_cons_head]
  rw [← hsplit, ← herase] at hreplaces
  exact ⟨h', hremove, hh.replace hreplaces fun y hy => .inl (List.mem_of_mem_erase hy)⟩

theorem queueDequeue_holds (hh : h.Holds L) {rest : List ν} (hcons : L q = x :: rest) :
    ∃ h', queueDequeue h q = .ok (x, h') ∧
      h'.Holds (Function.update L q rest) := by
  have hrep := hh.represents q
  rw [hcons] at hrep
  obtain ⟨h', hdequeue, -, -, hreplaces⟩ := queueDequeue_replaces hrep
  rw [← hcons] at hreplaces
  exact ⟨h', hdequeue, hh.replace hreplaces fun y hy => .inl (by simp [hcons, hy])⟩

end

end UcasOs.Sched
