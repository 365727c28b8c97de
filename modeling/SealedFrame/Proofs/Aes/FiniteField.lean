import SealedFrame.Aes.Substitution
import SealedFrame.Proofs.Aes.Polynomial

namespace SealedFrame.Aes.Field

open Polynomial

/-! The bytes are a field. Their reciprocals are read off the substitution table: undoing the affine
map on an entry gives an element that times the index is one. That the 254th power is the same
element is then a fact about every field with 256 elements. -/

theorem forall_byte {holds : UInt8 → Prop} (check : ∀ index < 256, holds (UInt8.ofNat index))
    (byte : UInt8) : holds byte := by
  have found := check byte.toNat byte.toNat_lt
  rwa [UInt8.ofNat_toNat] at found

/-- Undoes the affine map. -/
def affineInverse (byte : UInt8) : UInt8 :=
  UInt8.ofNat ((List.range 8).foldl (fun sum bit =>
    let parity := (List.range 3).foldl (fun parity offset =>
      parity ^^ byte.toNat.testBit ((bit + [2, 5, 7].getD offset 0) % 8)) false
    if parity ^^ (0x05 : Nat).testBit bit then sum + 2 ^ bit else sum) 0)

def reciprocal (byte : UInt8) : UInt8 :=
  affineInverse (Aes.substitute byte)

theorem affine_reciprocal (byte : UInt8) : affine (reciprocal byte) = Aes.substitute byte := by
  revert byte
  apply forall_byte
  decide +kernel

theorem mul_reciprocal {byte : UInt8} (nonzero : byte ≠ 0) : mul byte (reciprocal byte) = 1 := by
  revert byte
  apply forall_byte
  decide +kernel

/-- A byte under the operations of the field. -/
@[ext] structure Element where
  byte : UInt8
  deriving DecidableEq

namespace Element

instance : Zero Element := ⟨⟨0⟩⟩

instance : One Element := ⟨⟨1⟩⟩

instance : Add Element := ⟨fun left right => ⟨left.byte ^^^ right.byte⟩⟩

instance : Mul Element := ⟨fun left right => ⟨mul left.byte right.byte⟩⟩

instance : Neg Element := ⟨id⟩

instance : Inv Element := ⟨fun element => ⟨reciprocal element.byte⟩⟩

@[simp] theorem byte_zero : (0 : Element).byte = 0 := rfl

@[simp] theorem byte_one : (1 : Element).byte = 1 := rfl

@[simp] theorem byte_add (left right : Element) :
    (left + right).byte = left.byte ^^^ right.byte := rfl

@[simp] theorem byte_mul (left right : Element) :
    (left * right).byte = mul left.byte right.byte := rfl

theorem eq_of_toPolynomial {left right : Element}
    (same : toPolynomial left.byte = toPolynomial right.byte) : left = right :=
  Element.ext (toPolynomial_injective same)

/-- A factor may be reduced before the product is. -/
theorem mod_mul (polynomial : (ZMod 2)[X]) (element : Element) :
    ((polynomial %ₘ modulusPolynomial) * toPolynomial element.byte) %ₘ modulusPolynomial =
      (polynomial * toPolynomial element.byte) %ₘ modulusPolynomial := by
  rw [mul_modByMonic polynomial, toPolynomial_mod]

theorem mul_commutes (left right : Element) : left * right = right * left := by
  apply eq_of_toPolynomial
  rw [byte_mul, byte_mul, toPolynomial_mul, toPolynomial_mul, mul_comm]

theorem mul_associates (left middle right : Element) :
    left * middle * right = left * (middle * right) := by
  apply eq_of_toPolynomial
  rw [mul_commutes left (middle * right)]
  simp only [byte_mul, toPolynomial_mul, mod_mul]
  rw [mul_comm (toPolynomial left.byte), mul_right_comm]

theorem add_distributes (left middle right : Element) :
    (left + middle) * right = left * right + middle * right := by
  apply eq_of_toPolynomial
  simp only [byte_mul, byte_add, toPolynomial_mul, toPolynomial_xor, add_mul, add_modByMonic]

theorem one_neutral (element : Element) : 1 * element = element := by
  apply eq_of_toPolynomial
  rw [byte_mul, toPolynomial_mul, byte_one, toPolynomial_one, one_mul, toPolynomial_mod]

theorem zero_absorbs (element : Element) : 0 * element = 0 := by
  apply eq_of_toPolynomial
  simp [toPolynomial_mul]

instance : Field Element where
  add_assoc left middle right := Element.ext (UInt8.xor_assoc _ _ _)
  zero_add element := Element.ext UInt8.zero_xor
  add_zero element := Element.ext UInt8.xor_zero
  add_comm left right := Element.ext (UInt8.xor_comm _ _)
  neg_add_cancel element := Element.ext UInt8.xor_self
  mul_assoc := mul_associates
  one_mul := one_neutral
  mul_one element := (mul_commutes element 1).trans (one_neutral element)
  zero_mul := zero_absorbs
  mul_zero element := (mul_commutes element 0).trans (zero_absorbs element)
  mul_comm := mul_commutes
  right_distrib := add_distributes
  left_distrib left middle right := by
    rw [mul_commutes left, mul_commutes left, mul_commutes left, add_distributes]
  exists_pair_ne := ⟨0, 1, by decide⟩
  mul_inv_cancel element nonzero :=
    Element.ext (mul_reciprocal fun zero => nonzero (Element.ext zero))
  inv_zero := by decide
  nsmul := nsmulRec
  zsmul := zsmulRec
  nnqsmul := _
  nnqsmul_def := fun _ _ => rfl
  qsmul := _
  qsmul_def := fun _ _ => rfl

def equivFin : Element ≃ Fin 256 where
  toFun element := element.byte.toFin
  invFun index := ⟨UInt8.ofFin index⟩
  left_inv _ := rfl
  right_inv _ := rfl

instance : Fintype Element := Fintype.ofEquiv (Fin 256) equivFin.symm

theorem card_eq : Fintype.card Element = 256 :=
  (Fintype.card_congr equivFin).trans (Fintype.card_fin 256)

theorem byte_pow (element : Element) (exponent : Nat) :
    (element ^ exponent).byte = power element.byte exponent := by
  induction exponent with
  | zero => rw [pow_zero, byte_one, power]
  | succ exponent induction => rw [pow_succ, byte_mul, induction, power]

/-- The group of units has 255 elements, so the power before the last is the inverse. -/
theorem pow_eq_inv {element : Element} (nonzero : element ≠ 0) : element ^ 254 = element⁻¹ := by
  have last : element ^ 255 = 1 := by
    have order := FiniteField.pow_card_sub_one_eq_one element nonzero
    rwa [card_eq] at order
  exact eq_inv_of_mul_eq_one_left ((pow_succ element 254).symm.trans last)

end Element

/-! Inversion by a power, and the table. -/

@[simp] theorem inverse_zero : inverse 0 = 0 := by
  have zero : (0 : Element) ^ 254 = 0 := zero_pow (by decide)
  rw [inverse, ← Element.byte_zero, ← Element.byte_pow, zero]

theorem inverse_eq_reciprocal (byte : UInt8) : inverse byte = reciprocal byte := by
  by_cases zero : byte = 0
  · subst zero
    rw [inverse_zero]
    decide
  · have nonzero : (⟨byte⟩ : Element) ≠ 0 := fun same => zero (congrArg Element.byte same)
    have inverted := congrArg Element.byte (Element.pow_eq_inv nonzero)
    rw [Element.byte_pow] at inverted
    exact inverted

theorem mul_inverse (byte : UInt8) : mul byte (inverse byte) = if byte = 0 then 0 else 1 := by
  by_cases zero : byte = 0
  · rw [if_pos zero, zero]
    exact congrArg Element.byte (Element.zero_absorbs ⟨inverse 0⟩)
  · rw [if_neg zero, inverse_eq_reciprocal, mul_reciprocal zero]

/-- The table holds the inverse of every byte under the affine map. -/
theorem substitute_eq (byte : UInt8) : Aes.substitute byte = substitute byte := by
  rw [substitute, inverse_eq_reciprocal, affine_reciprocal]

end SealedFrame.Aes.Field
