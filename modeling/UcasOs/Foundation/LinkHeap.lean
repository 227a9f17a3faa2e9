import Mathlib.Data.List.Basic
import Mathlib.Data.List.Nodup
import Mathlib.Logic.Function.Basic

/-!
# Intrusive doubly linked lists sharing one heap of nodes

Nodes carry one `prev` and one `next` link, and any number of list headers
point into the same heap.  `Seg` reads a piece of a list off the links;
`Represents` says that a header holds exactly a given list; `Holds` says so of
all headers at once, with no node in two lists.
-/

namespace UcasOs.Foundation

universe u v w

structure LinkHeap (ν : Type u) (κ : Type v) where
  prev : ν → Option ν
  next : ν → Option ν
  head : κ → Option ν
  tail : κ → Option ν

namespace LinkHeap

variable {ν : Type u} {κ : Type v}

/--
`h.Seg before l after`: the nodes of `l` are linked in order, the first one
back to `before` and the last one on to `after`.
-/
def Seg (h : LinkHeap ν κ) : Option ν → List ν → Option ν → Prop
  | _, [], _ => True
  | before, x :: l, after =>
      h.prev x = before ∧ h.next x = l.head?.or after ∧ h.Seg (some x) l after

@[simp] theorem seg_nil (h : LinkHeap ν κ) (before after : Option ν) :
    h.Seg before [] after := trivial

@[simp] theorem seg_cons (h : LinkHeap ν κ) (before after : Option ν)
    (x : ν) (l : List ν) :
    h.Seg before (x :: l) after ↔
      h.prev x = before ∧ h.next x = l.head?.or after ∧
        h.Seg (some x) l after := Iff.rfl

theorem seg_append (h : LinkHeap ν κ) (before after : Option ν)
    (l₁ l₂ : List ν) :
    h.Seg before (l₁ ++ l₂) after ↔
      h.Seg before l₁ (l₂.head?.or after) ∧
        h.Seg (l₁.getLast?.or before) l₂ after := by
  induction l₁ generalizing before with
  | nil => simp
  | cons x l₁ ih =>
      rw [List.cons_append, seg_cons, seg_cons, ih]
      cases l₁ with
      | nil => simp [and_assoc]
      | cons y l₁ =>
          have hlast : ((y :: l₁).getLast?.or (some x)) =
              ((y :: l₁).getLast?.or before) := by
            rw [List.getLast?_cons]
            rfl
          rw [hlast, List.getLast?_cons_cons, List.cons_append,
            List.head?_cons, List.head?_cons, and_assoc, and_assoc]
          rfl

/-- A segment only depends on the links of its own nodes. -/
theorem Seg.congr {h h' : LinkHeap ν κ} {before after : Option ν} {l : List ν}
    (hseg : h.Seg before l after)
    (hprev : ∀ x ∈ l, h'.prev x = h.prev x)
    (hnext : ∀ x ∈ l, h'.next x = h.next x) :
    h'.Seg before l after := by
  induction l generalizing before with
  | nil => trivial
  | cons x l ih =>
      obtain ⟨hp, hn, hrest⟩ := hseg
      refine ⟨?_, ?_, ?_⟩
      · rw [hprev x (by simp), hp]
      · rw [hnext x (by simp), hn]
      · exact ih hrest (fun y hy => hprev y (by simp [hy]))
          (fun y hy => hnext y (by simp [hy]))

/-- Two lists with the same head that end are the same. -/
theorem Seg.unique {h : LinkHeap ν κ} {before before' : Option ν} {l l' : List ν}
    (hseg : h.Seg before l none) (hseg' : h.Seg before' l' none) (hhead : l.head? = l'.head?) :
    l = l' := by
  induction l generalizing before before' l' with
  | nil => exact (List.head?_eq_none_iff.mp hhead.symm).symm
  | cons x l ih =>
      cases l' with
      | nil => cases hhead
      | cons y l' =>
          obtain rfl : x = y := Option.some.inj hhead
          obtain ⟨-, hnext, hrest⟩ := hseg
          obtain ⟨-, hnext', hrest'⟩ := hseg'
          rw [Option.or_none] at hnext hnext'
          rw [ih hrest hrest' (hnext.symm.trans hnext')]

structure Represents (h : LinkHeap ν κ) (q : κ) (l : List ν) : Prop where
  head_eq : h.head q = l.head?
  tail_eq : h.tail q = l.getLast?
  nodup : l.Nodup
  seg : h.Seg none l none

theorem Represents.congr {h h' : LinkHeap ν κ} {q : κ} {l : List ν}
    (hrep : h.Represents q l)
    (hhead : h'.head q = h.head q) (htail : h'.tail q = h.tail q)
    (hprev : ∀ x ∈ l, h'.prev x = h.prev x)
    (hnext : ∀ x ∈ l, h'.next x = h.next x) :
    h'.Represents q l :=
  ⟨hhead.trans hrep.head_eq, htail.trans hrep.tail_eq, hrep.nodup,
    hrep.seg.congr hprev hnext⟩

theorem Represents.head_eq_none {h : LinkHeap ν κ} {q : κ} {l : List ν}
    (hrep : h.Represents q l) : h.head q = none ↔ l = [] := by
  rw [hrep.head_eq, List.head?_eq_none_iff]

/-- The links of a member, read off a decomposition of its list. -/
theorem Represents.links {h : LinkHeap ν κ} {q : κ} {l₁ l₂ : List ν} {x : ν}
    (hrep : h.Represents q (l₁ ++ x :: l₂)) :
    h.prev x = l₁.getLast? ∧ h.next x = l₂.head? := by
  have hseg := (h.seg_append none none l₁ (x :: l₂)).mp hrep.seg
  simpa using And.intro hseg.2.1 hseg.2.2.1

/-- No node is in two lists of the family. -/
def Apart (L : κ → List ν) : Prop :=
  ∀ ⦃q q' : κ⦄ ⦃x : ν⦄, x ∈ L q → x ∈ L q' → q = q'

theorem Apart.update [DecidableEq κ] {L : κ → List ν} (hL : Apart L) {q : κ}
    {l : List ν} (hl : ∀ x ∈ l, x ∈ L q ∨ ∀ p, x ∉ L p) :
    Apart (Function.update L q l) := by
  have key : ∀ {p : κ} {x : ν}, x ∈ l → x ∈ L p → q = p := by
    intro p x hx hxp
    rcases hl x hx with h | h
    · exact hL h hxp
    · exact absurd hxp (h p)
  intro p p' x hx hx'
  by_cases hp : p = q <;> by_cases hp' : p' = q
  · rw [hp, hp']
  · subst hp
    rw [Function.update_self] at hx
    rw [Function.update_of_ne hp'] at hx'
    exact key hx hx'
  · subst hp'
    rw [Function.update_self] at hx'
    rw [Function.update_of_ne hp] at hx
    exact (key hx' hx).symm
  · rw [Function.update_of_ne hp] at hx
    rw [Function.update_of_ne hp'] at hx'
    exact hL hx hx'

/-- All headers hold the lists of a family, and the lists are apart. -/
structure Holds (h : LinkHeap ν κ) (L : κ → List ν) : Prop where
  represents : ∀ q, h.Represents q (L q)
  apart : Apart L

theorem Holds.unique {h : LinkHeap ν κ} {L L' : κ → List ν} (hh : h.Holds L) (hh' : h.Holds L') :
    L = L' :=
  funext fun q => (hh.represents q).seg.unique (hh'.represents q).seg
    ((hh.represents q).head_eq.symm.trans (hh'.represents q).head_eq)

/--
`h.Replaces h' q l l'`: the header `q` holds `l'` in place of `l`, the other
headers are unchanged, and so are the links of the nodes of neither list.
-/
structure Replaces (h h' : LinkHeap ν κ) (q : κ) (l l' : List ν) : Prop where
  represents : h'.Represents q l'
  head_eq : ∀ p, p ≠ q → h'.head p = h.head p
  tail_eq : ∀ p, p ≠ q → h'.tail p = h.tail p
  prev_eq : ∀ x, x ∉ l → x ∉ l' → h'.prev x = h.prev x
  next_eq : ∀ x, x ∉ l → x ∉ l' → h'.next x = h.next x

/-- A list of another header, apart from both, is still held. -/
theorem Replaces.other {h h' : LinkHeap ν κ} {q p : κ} {l l' m : List ν}
    (hreplaces : h.Replaces h' q l l') (hp : p ≠ q) (hrep : h.Represents p m)
    (hold : ∀ x ∈ m, x ∉ l) (hnew : ∀ x ∈ m, x ∉ l') : h'.Represents p m :=
  hrep.congr (hreplaces.head_eq p hp) (hreplaces.tail_eq p hp)
    (fun x hx => hreplaces.prev_eq x (hold x hx) (hnew x hx))
    (fun x hx => hreplaces.next_eq x (hold x hx) (hnew x hx))

theorem Holds.replace [DecidableEq κ] {h h' : LinkHeap ν κ} {L : κ → List ν} (hh : h.Holds L)
    {q : κ} {l : List ν} (hreplaces : h.Replaces h' q (L q) l)
    (hl : ∀ x ∈ l, x ∈ L q ∨ ∀ p, x ∉ L p) : h'.Holds (Function.update L q l) := by
  refine ⟨fun p => ?_, hh.apart.update hl⟩
  by_cases hp : p = q
  · subst hp
    rw [Function.update_self]
    exact hreplaces.represents
  · rw [Function.update_of_ne hp]
    have hold : ∀ x ∈ L p, x ∉ L q := fun x hx hxq => hp (hh.apart hx hxq)
    apply hreplaces.other hp (hh.represents p) hold
    intro x hx hxl
    rcases hl x hxl with h₁ | h₁
    · exact hold x hx h₁
    · exact h₁ p hx

/-! ## Linking a node in and out -/

/-- Giving a segment another end. -/
theorem Seg.relinkNext [DecidableEq ν] {h h' : LinkHeap ν κ} {before after after' : Option ν}
    {l : List ν} (hseg : h.Seg before l after) (hnodup : l.Nodup)
    (hprev : ∀ x ∈ l, h'.prev x = h.prev x)
    (hnext : ∀ x ∈ l, h'.next x = if l.getLast? = some x then after' else h.next x) :
    h'.Seg before l after' := by
  induction l generalizing before with
  | nil => trivial
  | cons x l ih =>
      obtain ⟨hp, hn, hrest⟩ := hseg
      obtain ⟨hx, hnodup⟩ := List.nodup_cons.mp hnodup
      refine ⟨(hprev x (by simp)).trans hp, ?_, ?_⟩
      · have hn' := hnext x (by simp)
        cases l with
        | nil => simpa using hn'
        | cons y l =>
            have hlast : (y :: l).getLast? ≠ some x := fun h => hx (List.mem_of_getLast? h)
            rw [List.getLast?_cons_cons, if_neg hlast, hn] at hn'
            exact hn'
      · apply ih hrest hnodup (fun y hy => hprev y (by simp [hy]))
        intro y hy
        have hn' := hnext y (by simp [hy])
        cases l with
        | nil => cases hy
        | cons z l => rwa [List.getLast?_cons_cons] at hn'

/-- Giving a segment another beginning. -/
theorem Seg.relinkPrev [DecidableEq ν] {h h' : LinkHeap ν κ} {before before' after : Option ν}
    {l : List ν} (hseg : h.Seg before l after) (hnodup : l.Nodup)
    (hprev : ∀ x ∈ l, h'.prev x = if l.head? = some x then before' else h.prev x)
    (hnext : ∀ x ∈ l, h'.next x = h.next x) : h'.Seg before' l after := by
  cases l with
  | nil => trivial
  | cons x l =>
      obtain ⟨-, hn, hrest⟩ := hseg
      have hx := (List.nodup_cons.mp hnodup).1
      refine ⟨by simpa using hprev x (by simp), (hnext x (by simp)).trans hn, ?_⟩
      apply hrest.congr
      · intro y hy
        have hne : ¬ x = y := by
          rintro rfl
          exact hx hy
        simpa [hne] using hprev y (by simp [hy])
      · exact fun y hy => hnext y (by simp [hy])

section

variable [DecidableEq ν] {h h' : LinkHeap ν κ} {q : κ} {l₁ l₂ : List ν} {x : ν}

/-- Linking `x` in between `l₁` and `l₂`. -/
theorem Represents.linked (hrep : h.Represents q (l₁ ++ l₂)) (hx : x ∉ l₁ ++ l₂)
    (hhead : h'.head q = (l₁ ++ x :: l₂).head?) (htail : h'.tail q = (l₁ ++ x :: l₂).getLast?)
    (hother : ∀ p, p ≠ q → h'.head p = h.head p ∧ h'.tail p = h.tail p)
    (hxlinks : h'.prev x = l₁.getLast? ∧ h'.next x = l₂.head?)
    (hprev : ∀ y, y ≠ x → h'.prev y = if l₂.head? = some y then some x else h.prev y)
    (hnext : ∀ y, y ≠ x → h'.next y = if l₁.getLast? = some y then some x else h.next y) :
    h.Replaces h' q (l₁ ++ l₂) (l₁ ++ x :: l₂) := by
  obtain ⟨hnodup₁, hnodup₂, hcross⟩ := List.nodup_append.mp hrep.nodup
  obtain ⟨hseg₁, hseg₂⟩ := (h.seg_append none none l₁ l₂).mp hrep.seg
  rw [List.mem_append, not_or] at hx
  have hne : ∀ {y}, y ∈ l₁ ∨ y ∈ l₂ → y ≠ x := by
    rintro y hy rfl
    exact hy.elim hx.1 hx.2
  have hfirst : ∀ {y}, y ∉ l₂ → l₂.head? ≠ some y := fun hy h => hy (List.mem_of_head? h)
  have hlast : ∀ {y}, y ∉ l₁ → l₁.getLast? ≠ some y := fun hy h => hy (List.mem_of_getLast? h)
  refine ⟨⟨hhead, htail, ?_, ?_⟩, fun p hp => (hother p hp).1, fun p hp => (hother p hp).2,
    ?_, ?_⟩
  · refine List.nodup_middle.mpr (List.nodup_cons.mpr ⟨?_, hrep.nodup⟩)
    rwa [List.mem_append, not_or]
  · rw [seg_append, seg_cons]
    refine ⟨hseg₁.relinkNext hnodup₁ ?_ ?_, by simpa using hxlinks.1, by simpa using hxlinks.2,
      hseg₂.relinkPrev hnodup₂ ?_ ?_⟩
    · intro y hy
      rw [hprev y (hne (.inl hy)), if_neg (hfirst fun h => hcross y hy y h rfl)]
    · exact fun y hy => hnext y (hne (.inl hy))
    · exact fun y hy => hprev y (hne (.inr hy))
    · intro y hy
      rw [hnext y (hne (.inr hy)), if_neg (hlast fun h => hcross y h y hy rfl)]
  · intro y hy hy'
    simp only [List.mem_append, List.mem_cons, not_or] at hy hy'
    rw [hprev y hy'.2.1, if_neg (hfirst hy.2)]
  · intro y hy hy'
    simp only [List.mem_append, List.mem_cons, not_or] at hy hy'
    rw [hnext y hy'.2.1, if_neg (hlast hy.1)]

/-- Linking `x` out from between `l₁` and `l₂`. -/
theorem Represents.unlinked (hrep : h.Represents q (l₁ ++ x :: l₂))
    (hhead : h'.head q = (l₁ ++ l₂).head?) (htail : h'.tail q = (l₁ ++ l₂).getLast?)
    (hother : ∀ p, p ≠ q → h'.head p = h.head p ∧ h'.tail p = h.tail p)
    (hprev : ∀ y, y ≠ x → h'.prev y = if l₂.head? = some y then l₁.getLast? else h.prev y)
    (hnext : ∀ y, y ≠ x → h'.next y = if l₁.getLast? = some y then l₂.head? else h.next y) :
    h.Replaces h' q (l₁ ++ x :: l₂) (l₁ ++ l₂) := by
  obtain ⟨hx, hnodup⟩ := List.nodup_cons.mp (List.nodup_middle.mp hrep.nodup)
  obtain ⟨hnodup₁, hnodup₂, hcross⟩ := List.nodup_append.mp hnodup
  obtain ⟨hseg₁, -, -, hseg₂⟩ := (h.seg_append none none l₁ (x :: l₂)).mp hrep.seg
  rw [List.mem_append, not_or] at hx
  have hne : ∀ {y}, y ∈ l₁ ∨ y ∈ l₂ → y ≠ x := by
    rintro y hy rfl
    exact hy.elim hx.1 hx.2
  have hfirst : ∀ {y}, y ∉ l₂ → l₂.head? ≠ some y := fun hy h => hy (List.mem_of_head? h)
  have hlast : ∀ {y}, y ∉ l₁ → l₁.getLast? ≠ some y := fun hy h => hy (List.mem_of_getLast? h)
  refine ⟨⟨hhead, htail, hnodup, ?_⟩, fun p hp => (hother p hp).1, fun p hp => (hother p hp).2,
    ?_, ?_⟩
  · rw [seg_append]
    refine ⟨hseg₁.relinkNext hnodup₁ ?_ ?_, hseg₂.relinkPrev hnodup₂ ?_ ?_⟩
    · intro y hy
      rw [hprev y (hne (.inl hy)), if_neg (hfirst fun h => hcross y hy y h rfl)]
    · simpa using fun y hy => hnext y (hne (.inl hy))
    · simpa using fun y hy => hprev y (hne (.inr hy))
    · intro y hy
      rw [hnext y (hne (.inr hy)), if_neg (hlast fun h => hcross y h y hy rfl)]
  · intro y hy hy'
    simp only [List.mem_append, List.mem_cons, not_or] at hy hy'
    rw [hprev y hy.2.1, if_neg (hfirst hy.2.2)]
  · intro y hy hy'
    simp only [List.mem_append, List.mem_cons, not_or] at hy hy'
    rw [hnext y hy.2.1, if_neg (hlast hy.1)]

end

/-- Fold over the nodes reached by `next` links, at most `fuel` of them. -/
def walk {α : Type w} (h : LinkHeap ν κ) (f : α → ν → α) :
    Nat → Option ν → α → Option α
  | _, none, a => some a
  | 0, some _, _ => none
  | fuel + 1, some x, a => walk h f fuel (h.next x) (f a x)

theorem walk_eq_foldl {α : Type w} (h : LinkHeap ν κ) (f : α → ν → α)
    {before : Option ν} {l : List ν} (hseg : h.Seg before l none)
    {fuel : Nat} (hfuel : l.length ≤ fuel) (a : α) :
    h.walk f fuel l.head? a = some (l.foldl f a) := by
  induction l generalizing before fuel a with
  | nil => cases fuel <;> rfl
  | cons x l ih =>
      obtain ⟨-, hnext, hrest⟩ := hseg
      cases fuel with
      | zero => simp at hfuel
      | succ fuel =>
          have hlen : l.length ≤ fuel := by simpa using hfuel
          have hnext' : h.next x = l.head? := by simpa using hnext
          simp only [List.head?_cons, walk, hnext', List.foldl_cons]
          exact ih hrest hlen (f a x)

theorem walk_eq_some {α : Type w} (h : LinkHeap ν κ) {f : α → ν → α} {before : Option ν}
    {l : List ν} (hseg : h.Seg before l none) {fuel : Nat} {a b : α}
    (hwalk : h.walk f fuel l.head? a = some b) : b = l.foldl f a := by
  induction l generalizing before fuel a with
  | nil =>
      cases fuel <;> exact (Option.some.inj hwalk).symm
  | cons x l ih =>
      obtain ⟨-, hnext, hrest⟩ := hseg
      cases fuel with
      | zero => cases hwalk
      | succ fuel =>
          have hnext' : h.next x = l.head? := by simpa using hnext
          simp only [List.head?_cons, walk, hnext'] at hwalk
          exact ih hrest hwalk

/-- A walk depends on the list only. -/
theorem walk_congr {α : Type w} {h h' : LinkHeap ν κ} (f : α → ν → α)
    {before before' : Option ν} {l : List ν} (hseg : h.Seg before l none)
    (hseg' : h'.Seg before' l none) (fuel : Nat) (a : α) :
    h.walk f fuel l.head? a = h'.walk f fuel l.head? a := by
  induction l generalizing before before' fuel a with
  | nil => cases fuel <;> rfl
  | cons x l ih =>
      obtain ⟨-, hnext, hrest⟩ := hseg
      obtain ⟨-, hnext', hrest'⟩ := hseg'
      cases fuel with
      | zero => rfl
      | succ fuel =>
          rw [Option.or_none] at hnext hnext'
          simp only [List.head?_cons, walk, hnext, hnext']
          exact ih hrest hrest' fuel (f a x)

theorem walk_invariant {α : Type w} (h : LinkHeap ν κ) {f : α → ν → α} {P : α → Prop}
    (hstep : ∀ a x, P a → P (f a x)) {fuel : Nat} {start : Option ν} {a b : α} (ha : P a)
    (hwalk : h.walk f fuel start a = some b) : P b := by
  induction fuel generalizing start a with
  | zero =>
      cases start with
      | none => exact Option.some.inj hwalk ▸ ha
      | some x => cases hwalk
  | succ fuel ih =>
      cases start with
      | none => exact Option.some.inj hwalk ▸ ha
      | some x => exact ih (hstep a x ha) hwalk

end LinkHeap

end UcasOs.Foundation
