import Mathlib.Tactic.Basic

/-!
# Postconditions for computations that may stop

A computation in `Except ε` either returns or stops with an error.  `Meets`
says which errors are tolerated and what holds of a returned value; sequential
programs are then verified one bind at a time.
-/

namespace UcasOs.Foundation

universe u v

variable {ε : Type u} {α β : Type v}

/-- Every tolerated error passes, and a returned value satisfies `post`. -/
def Meets (tolerated : ε → Prop) (post : α → Prop) : Except ε α → Prop
  | .ok a => post a
  | .error e => tolerated e

variable {tolerated : ε → Prop} {post : α → Prop}

@[simp] theorem meets_ok (a : α) :
    Meets tolerated post (.ok a : Except ε α) ↔ post a := Iff.rfl

@[simp] theorem meets_pure (a : α) :
    Meets tolerated post (pure a : Except ε α) ↔ post a := Iff.rfl

@[simp] theorem meets_error (e : ε) :
    Meets tolerated post (.error e : Except ε α) ↔ tolerated e := Iff.rfl

@[simp] theorem ok_bind (a : α) (f : α → Except ε β) :
    ((.ok a : Except ε α) >>= f) = f a := rfl

@[simp] theorem error_bind (e : ε) (f : α → Except ε β) :
    ((.error e : Except ε α) >>= f) = .error e := rfl

theorem Meets.mono {post' : α → Prop} {x : Except ε α}
    (h : Meets tolerated post x) (himp : ∀ a, post a → post' a) :
    Meets tolerated post' x := by
  cases x with
  | ok a => exact himp a h
  | error e => exact h

theorem Meets.bind {post' : β → Prop} {x : Except ε α} {f : α → Except ε β}
    (h : Meets tolerated post x)
    (hf : ∀ a, post a → Meets tolerated post' (f a)) :
    Meets tolerated post' (x >>= f) := by
  cases x with
  | ok a => exact hf a h
  | error e => exact h

theorem Meets.and {tolerated' : ε → Prop} {post' : α → Prop} {x : Except ε α}
    (h : Meets tolerated post x) (h' : Meets tolerated' post' x) :
    Meets tolerated (fun a => post a ∧ post' a) x := by
  cases x with
  | ok a => exact ⟨h, h'⟩
  | error e => exact h

theorem Meets.of_ok {x : Except ε α} {a : α} (h : Meets tolerated post x)
    (hx : x = .ok a) : post a := by
  subst hx
  exact h

/-- A computation that no error is tolerated of returns. -/
theorem Meets.returns {x : Except ε α} (h : Meets (fun _ => False) post x) :
    ∃ a, x = .ok a ∧ post a := by
  cases x with
  | ok a => exact ⟨a, rfl, h⟩
  | error e => exact h.elim

/-- A bind that returned did so through an intermediate value. -/
theorem bind_eq_ok {x : Except ε α} {f : α → Except ε β} {b : β} :
    (x >>= f) = .ok b ↔ ∃ a, x = .ok a ∧ f a = .ok b := by
  cases x with
  | ok a =>
      constructor
      · intro h
        exact ⟨a, rfl, h⟩
      · rintro ⟨a', ha', h⟩
        cases ha'
        exact h
  | error e =>
      constructor
      · intro h
        cases h
      · rintro ⟨a', ha', -⟩
        cases ha'

/-- Whatever the first computation returns, the second returns something related to it. -/
def Follows {γ : Type v} (R : α → γ → Prop) (x : Except ε α) (y : Except ε γ) : Prop :=
  ∀ a, x = .ok a → ∃ c, y = .ok c ∧ R a c

theorem Follows.ok {γ : Type v} {R : α → γ → Prop} {a : α} {c : γ} (h : R a c) :
    Follows R (.ok a : Except ε α) (.ok c) := by
  intro a' ha'
  cases ha'
  exact ⟨c, rfl, h⟩

theorem Follows.bind {γ δ : Type v} {R : α → γ → Prop} {R' : β → δ → Prop} {x : Except ε α}
    {y : Except ε γ} {f : α → Except ε β} {g : γ → Except ε δ} (h : Follows R x y)
    (hf : ∀ a c, x = .ok a → y = .ok c → R a c → Follows R' (f a) (g c)) :
    Follows R' (x >>= f) (y >>= g) := by
  intro b hb
  obtain ⟨a, ha, hfa⟩ := bind_eq_ok.mp hb
  obtain ⟨c, hc, hR⟩ := h a ha
  obtain ⟨d, hd, hR'⟩ := hf a c ha hc hR b hfa
  exact ⟨d, bind_eq_ok.mpr ⟨c, hc, hd⟩, hR'⟩

@[simp] theorem map_ok (f : α → β) (a : α) : (.ok a : Except ε α).map f = .ok (f a) := rfl

@[simp] theorem map_error (f : α → β) (e : ε) : (.error e : Except ε α).map f = .error e := rfl

theorem map_bind {γ : Type v} (f : α → β) (x : Except ε α) (g : β → Except ε γ) :
    (x.map f >>= g) = x >>= fun a => g (f a) := by
  cases x <;> rfl

theorem bind_map {γ : Type v} (x : Except ε α) (g : α → Except ε β) (f : β → γ) :
    (x >>= g).map f = x >>= fun a => (g a).map f := by
  cases x <;> rfl

theorem eq_ok_getD {x : Except ε α} (hok : x.isOk = true) (a : α) :
    x = .ok (x.toOption.getD a) := by
  cases x with
  | ok b => rfl
  | error e => cases hok

theorem eq_ok_of_toOption {x : Except ε α} {a : α} (h : x.toOption = some a) : x = .ok a := by
  cases x with
  | ok b => exact congrArg _ (Option.some.inj h)
  | error e => cases h

/-! ## Loops over a range -/

/-- A loop whose turns all return, each establishing the next instance of `P`, returns. -/
theorem foldlM_range {f : α → Nat → Option α} {P : Nat → α → Prop} {n : Nat} {a : α}
    (hfirst : P 0 a) (hturn : ∀ k a, k < n → P k a → ∃ b, f a k = some b ∧ P (k + 1) b) :
    ∃ b, (List.range n).foldlM f a = some b ∧ P n b := by
  induction n with
  | zero => exact ⟨a, rfl, hfirst⟩
  | succ n ih =>
      obtain ⟨b, hloop, hb⟩ := ih fun k a hk => hturn k a (by omega)
      obtain ⟨c, hlast, hc⟩ := hturn n b (by omega) hb
      refine ⟨c, ?_, hc⟩
      rw [List.range_succ, List.foldlM_append, hloop]
      simpa using hlast

/-! ## Loops over a list -/

section

variable {ι γ : Type v} {f : α → ι → Option α} {g : γ → ι → γ} {R : α → γ → Prop} {P : α → Prop}
variable {l : List ι} {a b : α} {c : γ}

/-- A loop that returns follows a loop that always does. -/
theorem foldlM_simulates (hturn : ∀ a c i b, R a c → f a i = some b → R b (g c i)) (h : R a c)
    (hrun : l.foldlM f a = some b) : R b (l.foldl g c) := by
  induction l generalizing a c with
  | nil =>
      cases hrun
      exact h
  | cons i rest ih =>
      rw [List.foldlM_cons] at hrun
      obtain ⟨a', hfirst, hrest⟩ := Option.bind_eq_some_iff.mp hrun
      exact ih (hturn a c i a' h hfirst) hrest

theorem foldlM_keeps (hturn : ∀ a i b, P a → f a i = some b → P b) (h : P a)
    (hrun : l.foldlM f a = some b) : P b :=
  foldlM_simulates (R := fun a (_ : PUnit) => P a) (g := fun c _ => c) (c := ⟨⟩)
    (fun a _ i b => hturn a i b) h hrun

/-- A loop whose turns all return, in the same relation to the other loop, returns. -/
theorem foldlM_returns (hturn : ∀ a c, ∀ i ∈ l, R a c → ∃ b, f a i = some b ∧ R b (g c i))
    (h : R a c) : ∃ b, l.foldlM f a = some b ∧ R b (l.foldl g c) := by
  induction l generalizing a c with
  | nil => exact ⟨a, rfl, h⟩
  | cons i rest ih =>
      obtain ⟨a', hfirst, h'⟩ := hturn a c i (List.mem_cons_self ..) h
      obtain ⟨b, hrest, hb⟩ := ih (fun a c i hi => hturn a c i (List.mem_cons_of_mem _ hi)) h'
      refine ⟨b, ?_, hb⟩
      rw [List.foldlM_cons, hfirst]
      exact hrest

theorem foldlM_returns_keeping (hturn : ∀ a, ∀ i ∈ l, P a → ∃ b, f a i = some b ∧ P b)
    (h : P a) : ∃ b, l.foldlM f a = some b ∧ P b :=
  foldlM_returns (R := fun a (_ : PUnit) => P a) (g := fun c _ => c) (c := ⟨⟩)
    (fun a _ i => hturn a i) h

end

end UcasOs.Foundation
