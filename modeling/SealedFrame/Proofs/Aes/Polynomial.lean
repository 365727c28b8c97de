import Mathlib
import SealedFrame.Aes.Field

namespace SealedFrame.Aes.Field

open Polynomial

/-! The product of bytes as the product of polynomials over the field with two elements, modulo a
polynomial of degree eight: the shifted copies of the product add up, and each step of the
reduction takes away a multiple of the modulus. -/

/-- The polynomial with the bits of a number as coefficients. -/
noncomputable def ofBits (bits : Nat) : (ZMod 2)[X] :=
  ∑ degree ∈ Finset.range bits, if bits.testBit degree then X ^ degree else 0

theorem coeff_ofBits (bits degree : Nat) :
    (ofBits bits).coeff degree = if bits.testBit degree then 1 else 0 := by
  have term (other : Nat) : (if bits.testBit other then (X : (ZMod 2)[X]) ^ other else 0).coeff
      degree = if other = degree then if bits.testBit degree then 1 else 0 else 0 := by
    by_cases same : other = degree
    · subst same
      split
      · simp
      · simp
    · rw [if_neg same]
      split
      · rw [coeff_X_pow, if_neg (Ne.symm same)]
      · rw [coeff_zero]
  rw [ofBits, finsetSum_coeff]
  simp only [term, Finset.sum_ite_eq', Finset.mem_range]
  split
  · rfl
  · rename_i large
    have clear : bits.testBit degree = false :=
      Nat.testBit_lt_two_pow (Nat.lt_of_le_of_lt (Nat.not_lt.1 large) Nat.lt_two_pow_self)
    rw [clear]
    rfl

theorem ofBits_xor (left right : Nat) : ofBits (left ^^^ right) = ofBits left + ofBits right := by
  ext degree
  rw [coeff_add, coeff_ofBits, coeff_ofBits, coeff_ofBits, Nat.testBit_xor]
  cases left.testBit degree <;> cases right.testBit degree <;> rfl

theorem ofBits_shiftLeft (bits degree : Nat) :
    ofBits (bits <<< degree) = ofBits bits * X ^ degree := by
  ext place
  rw [coeff_ofBits, coeff_mul_X_pow', coeff_ofBits, Nat.testBit_shiftLeft]
  by_cases reached : degree ≤ place
  · simp [reached]
  · simp [reached]

theorem degree_ofBits_lt {bits width : Nat} (small : bits < 2 ^ width) :
    (ofBits bits).degree < width := by
  rw [degree_lt_iff_coeff_zero]
  intro place large
  rw [coeff_ofBits, Nat.testBit_lt_two_pow
    (Nat.lt_of_lt_of_le small (Nat.pow_le_pow_right (by decide) large))]
  rfl

theorem ofBits_injective : Function.Injective ofBits := by
  intro left right same
  apply Nat.eq_of_testBit_eq
  intro degree
  have coefficient := congrArg (fun polynomial => polynomial.coeff degree) same
  simp only [coeff_ofBits] at coefficient
  generalize left.testBit degree = first at coefficient ⊢
  generalize right.testBit degree = second at coefficient ⊢
  revert first second
  decide

@[simp] theorem ofBits_zero : ofBits 0 = 0 := rfl

@[simp] theorem ofBits_one : ofBits 1 = 1 := by
  simp [ofBits]

/-! The product. -/

theorem ofBits_mod_two_pow_succ (bits width : Nat) :
    ofBits (bits % 2 ^ (width + 1)) =
      ofBits (bits % 2 ^ width) + if bits.testBit width then X ^ width else 0 := by
  have apart (chosen : Bool) (place : Nat) :
      (if chosen then (X : (ZMod 2)[X]) ^ width else 0).coeff place =
        if place = width ∧ chosen then 1 else 0 := by
    cases chosen <;> simp [coeff_X_pow]
  ext place
  rw [coeff_add, apart, coeff_ofBits, coeff_ofBits, Nat.testBit_mod_two_pow,
    Nat.testBit_mod_two_pow]
  rcases Nat.lt_trichotomy place width with below | same | above
  · simp [below, Nat.lt_succ_of_lt below, Nat.ne_of_lt below]
  · subst same
    simp
  · simp [Nat.not_lt.2 (Nat.succ_le_of_lt above), Nat.not_lt_of_gt above, Nat.ne_of_gt above]

/-- The product with the lowest bits of the right factor alone. -/
def productLow (left right width : Nat) : Nat :=
  (List.range width).foldl (fun sum degree =>
    if right.testBit degree then sum ^^^ (left <<< degree) else sum) 0

theorem productLow_succ (left right width : Nat) :
    productLow left right (width + 1) =
      if right.testBit width then productLow left right width ^^^ (left <<< width)
      else productLow left right width := by
  rw [productLow, List.range_succ, List.foldl_append]
  rfl

theorem ofBits_productLow (left right width : Nat) :
    ofBits (productLow left right width) = ofBits left * ofBits (right % 2 ^ width) := by
  induction width with
  | zero =>
      rw [Nat.pow_zero, Nat.mod_one, ofBits_zero, mul_zero]
      rfl
  | succ width induction =>
      rw [productLow_succ, ofBits_mod_two_pow_succ, mul_add, ← induction]
      split
      · rw [ofBits_xor, ofBits_shiftLeft]
      · rw [mul_zero, add_zero]

theorem productLow_lt {left : Nat} (small : left < 2 ^ 8) (right width : Nat) :
    productLow left right width < 2 ^ (width + 7) := by
  induction width with
  | zero => exact Nat.two_pow_pos 7
  | succ width induction =>
      have wider := Nat.lt_of_lt_of_le induction
        (Nat.pow_le_pow_right (by decide) (Nat.le_succ (width + 7)))
      have shifted : left <<< width < 2 ^ (width + 8) := by
        rw [Nat.shiftLeft_eq, Nat.pow_add, Nat.mul_comm]
        exact Nat.mul_lt_mul_of_pos_left small (Nat.two_pow_pos width)
      rw [productLow_succ, Nat.add_right_comm]
      split
      · exact Nat.xor_lt_two_pow wider shifted
      · exact wider

theorem product_eq_productLow (left right : Nat) :
    product left right = productLow left right 8 := rfl

theorem ofBits_product (left : Nat) {right : Nat} (small : right < 256) :
    ofBits (product left right) = ofBits left * ofBits right := by
  have whole : right % 2 ^ 8 = right := Nat.mod_eq_of_lt small
  rw [product_eq_productLow, ofBits_productLow, whole]

theorem product_lt {left : Nat} (small : left < 256) (right : Nat) :
    product left right < 2 ^ 15 :=
  productLow_lt small right 8

/-! The remainder. -/

noncomputable def modulusPolynomial : (ZMod 2)[X] :=
  X ^ 8 + X ^ 4 + X ^ 3 + X + 1

theorem ofBits_modulus : ofBits modulus = modulusPolynomial := by
  have bits_eq : modulus =
      (1 <<< 8) ^^^ (1 <<< 4) ^^^ (1 <<< 3) ^^^ (1 <<< 1) ^^^ 1 := by decide
  rw [bits_eq, modulusPolynomial]
  simp only [ofBits_xor, ofBits_shiftLeft, ofBits_one, one_mul, pow_one]

theorem degree_modulusPolynomial : modulusPolynomial.degree = 8 := by
  rw [modulusPolynomial]
  compute_degree!

theorem monic_modulusPolynomial : modulusPolynomial.Monic := by
  rw [modulusPolynomial]
  monicity!

/-- One step of the reduction: the term of degree eight above `degree` is cancelled. -/
def cancel (degree rest : Nat) : Nat :=
  if rest.testBit (degree + 8) then rest ^^^ (modulus <<< degree) else rest

theorem cancel_lt {degree bits : Nat} (small : bits < 2 ^ (degree + 9)) :
    cancel degree bits < 2 ^ (degree + 8) := by
  have leading : modulus.testBit 8 = true := by decide
  have modulus_small : modulus < 2 ^ 9 := by decide
  apply Nat.lt_pow_two_of_testBit
  intro place large
  rw [cancel]
  rcases Nat.eq_or_lt_of_le large with same | above
  · subst same
    split
    · rename_i present
      rw [Nat.testBit_xor, present, Nat.testBit_shiftLeft]
      simp [leading]
    · rename_i absent
      simpa using absent
  · have clear : bits.testBit place = false := Nat.testBit_lt_two_pow
      (Nat.lt_of_lt_of_le small (Nat.pow_le_pow_right (by decide) above))
    have modulus_clear : modulus.testBit (place - degree) = false := Nat.testBit_lt_two_pow
      (Nat.lt_of_lt_of_le modulus_small (Nat.pow_le_pow_right (by decide) (by omega)))
    split
    · rw [Nat.testBit_xor, clear, Nat.testBit_shiftLeft, modulus_clear]
      simp
    · exact clear

theorem exists_ofBits_cancel (degree bits : Nat) :
    ∃ quotient, ofBits (cancel degree bits) = ofBits bits + modulusPolynomial * quotient := by
  rw [cancel]
  split
  · exact ⟨X ^ degree, by rw [ofBits_xor, ofBits_shiftLeft, ofBits_modulus]⟩
  · exact ⟨0, by rw [mul_zero, add_zero]⟩

theorem foldr_cancel_lt {count bits : Nat} (small : bits < 2 ^ (count + 8)) :
    (List.range count).foldr cancel bits < 2 ^ 8 := by
  induction count generalizing bits with
  | zero => simpa using small
  | succ count induction =>
      rw [List.range_succ, List.foldr_append]
      exact induction (cancel_lt (by rwa [Nat.add_right_comm] at small))

theorem exists_ofBits_foldr_cancel (count bits : Nat) :
    ∃ quotient, ofBits ((List.range count).foldr cancel bits) =
      ofBits bits + modulusPolynomial * quotient := by
  induction count generalizing bits with
  | zero => exact ⟨0, by simp⟩
  | succ count induction =>
      obtain ⟨first, first_eq⟩ := exists_ofBits_cancel count bits
      obtain ⟨rest, rest_eq⟩ := induction (cancel count bits)
      refine ⟨first + rest, ?_⟩
      rw [List.range_succ, List.foldr_append, mul_add, ← add_assoc, ← first_eq]
      exact rest_eq

theorem reduce_eq_foldr_cancel (bits : Nat) :
    reduce bits = (List.range 7).foldr cancel bits := rfl

theorem reduce_lt {bits : Nat} (small : bits < 2 ^ 15) : reduce bits < 256 :=
  foldr_cancel_lt small

theorem ofBits_reduce {bits : Nat} (small : bits < 2 ^ 15) :
    ofBits (reduce bits) = ofBits bits %ₘ modulusPolynomial := by
  obtain ⟨quotient, reduced⟩ := exists_ofBits_foldr_cancel 7 bits
  rw [← reduce_eq_foldr_cancel] at reduced
  have short : (ofBits (reduce bits)).degree < modulusPolynomial.degree := by
    rw [degree_modulusPolynomial]
    exact degree_ofBits_lt (show reduce bits < 2 ^ 8 from reduce_lt small)
  have divided : ofBits (reduce bits) + modulusPolynomial * -quotient = ofBits bits := by
    rw [reduced]
    ring
  exact (div_modByMonic_unique (-quotient) _ monic_modulusPolynomial ⟨divided, short⟩).2.symm

/-! Bytes. -/

noncomputable def toPolynomial (byte : UInt8) : (ZMod 2)[X] :=
  ofBits byte.toNat

theorem toPolynomial_injective : Function.Injective toPolynomial :=
  fun _ _ same => UInt8.toNat_inj.1 (ofBits_injective same)

theorem toPolynomial_xor (left right : UInt8) :
    toPolynomial (left ^^^ right) = toPolynomial left + toPolynomial right := by
  rw [toPolynomial, UInt8.toNat_xor, ofBits_xor]
  rfl

theorem degree_toPolynomial_lt (byte : UInt8) :
    (toPolynomial byte).degree < modulusPolynomial.degree := by
  rw [degree_modulusPolynomial]
  exact degree_ofBits_lt (show byte.toNat < 2 ^ 8 from byte.toNat_lt)

theorem toPolynomial_mul (left right : UInt8) :
    toPolynomial (mul left right) =
      (toPolynomial left * toPolynomial right) %ₘ modulusPolynomial := by
  have small := product_lt left.toNat_lt right.toNat
  have kept : (mul left right).toNat = reduce (product left.toNat right.toNat) := by
    rw [mul, UInt8.toNat_ofNat']
    exact Nat.mod_eq_of_lt (reduce_lt small)
  rw [toPolynomial, kept, ofBits_reduce small, ofBits_product _ right.toNat_lt]
  rfl

example : mul 0x57 0x83 = 0xc1 := by decide +kernel

@[simp] theorem toPolynomial_zero : toPolynomial 0 = 0 := ofBits_zero

@[simp] theorem toPolynomial_one : toPolynomial 1 = 1 := ofBits_one

theorem toPolynomial_mod (byte : UInt8) :
    toPolynomial byte %ₘ modulusPolynomial = toPolynomial byte :=
  (modByMonic_eq_self_iff monic_modulusPolynomial).2 (degree_toPolynomial_lt byte)

end SealedFrame.Aes.Field
