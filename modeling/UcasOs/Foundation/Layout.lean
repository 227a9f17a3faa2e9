import Mathlib.Logic.Equiv.Fin.Basic
import Mathlib.Logic.Equiv.Basic
import Mathlib.Data.Fin.Tuple.Basic
import Mathlib.Tactic.NormNum

/-!
# Records laid out in bytes

A layout of a type in `n` bytes is an equivalence with the byte strings of
that length: every value has one image and every image is some value, so a
record can be read from whatever bytes are there.  Records and arrays get
their layouts from those of their parts.  A `Store` is a byte-addressed medium
that is read and written by such records.
-/

namespace UcasOs.Foundation

abbrev Bytes (n : Nat) := Fin n → UInt8

namespace Layout

universe u

variable {α β : Type u} {m n : Nat}

def byte : UInt8 ≃ Bytes 1 := (Equiv.funUnique (Fin 1) UInt8).symm

/-- The four little-endian bytes of a word. -/
def word : UInt32 ≃ Bytes 4 where
  toFun w := fun i => UInt8.ofNat (w.toNat / 256 ^ i.val)
  invFun b := UInt32.ofNat
    ((b 0).toNat + 256 * ((b 1).toNat + 256 * ((b 2).toNat + 256 * (b 3).toNat)))
  left_inv w := by
    apply UInt32.toNat_inj.mp
    have hw := w.toNat_lt
    simp only [UInt32.toNat_ofNat', UInt8.toNat_ofNat']
    norm_num
    omega
  right_inv b := by
    funext i
    apply UInt8.toNat_inj.mp
    have h0 := (b 0).toNat_lt
    have h1 := (b 1).toNat_lt
    have h2 := (b 2).toNat_lt
    have h3 := (b 3).toNat_lt
    simp only [UInt32.toNat_ofNat', UInt8.toNat_ofNat']
    match i with
    | 0 => norm_num
    | 1 => norm_num; omega
    | 2 => norm_num; omega
    | 3 => norm_num; omega

/-- One record after the other. -/
def seq (e : α ≃ Bytes m) (f : β ≃ Bytes n) : α × β ≃ Bytes (m + n) :=
  (e.prodCongr f).trans (Fin.appendEquiv m n)

/-- `n` records of the same size. -/
def array (n : Nat) (e : α ≃ Bytes m) : (Fin n → α) ≃ Bytes (n * m) :=
  (Equiv.piCongrRight fun _ => e).trans
    ((Equiv.curry (Fin n) (Fin m) UInt8).symm.trans
      (finProdFinEquiv.arrowCongr (Equiv.refl UInt8)))

theorem array_apply (e : α ≃ Bytes m) (v : Fin n → α) (b : Fin (n * m)) :
    array n e v b = e (v b.divNat) b.modNat := rfl

end Layout

abbrev Store := Nat → UInt8

namespace Store

universe u

variable {α β : Type u} {m n : Nat}

def read (e : α ≃ Bytes n) (d : Store) (a : Nat) : α :=
  e.symm fun i => d (a + i)

def write (e : α ≃ Bytes n) (v : α) (a : Nat) (d : Store) : Store := fun x =>
  if h : a ≤ x ∧ x - a < n then e v ⟨x - a, h.2⟩ else d x

theorem write_outside (e : α ≃ Bytes n) (v : α) (d : Store) {a x : Nat}
    (h : x < a ∨ a + n ≤ x) : write e v a d x = d x := by
  unfold write
  rw [dif_neg]
  omega

@[simp] theorem read_write_self (e : α ≃ Bytes n) (v : α) (a : Nat) (d : Store) :
    read e (write e v a d) a = v := by
  rw [read, Equiv.symm_apply_eq]
  funext i
  simp [write]

theorem write_read (e : α ≃ Bytes n) (a : Nat) (d : Store) : write e (read e d a) a d = d := by
  funext x
  unfold write
  split
  case isTrue h =>
      rw [read, Equiv.apply_symm_apply, Nat.add_sub_cancel' h.1]
  case isFalse => rfl

theorem read_write_disjoint (e : α ≃ Bytes n) (f : β ≃ Bytes m) (v : β) (d : Store) {a b : Nat}
    (h : a + n ≤ b ∨ b + m ≤ a) : read e (write f v b d) a = read e d a := by
  unfold read
  congr 1
  funext i
  exact write_outside f v d (by omega)

end Store

end UcasOs.Foundation
