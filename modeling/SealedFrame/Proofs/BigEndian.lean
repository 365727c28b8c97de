import Mathlib.Algebra.Group.Nat.Defs
import SealedFrame.BigEndian

namespace SealedFrame

/-! Reading undoes writing up to the width, and writing undoes reading. -/

theorem ofBigEndian_append_singleton (bytes : Bytes) (byte : UInt8) :
    ofBigEndian (bytes ++ [byte]) = ofBigEndian bytes * 256 + byte.toNat := by
  simp [ofBigEndian]

theorem ofBigEndian_bigEndian (width value : Nat) :
    ofBigEndian (bigEndian width value) = value % 256 ^ width := by
  induction width generalizing value with
  | zero => simp [bigEndian, ofBigEndian, Nat.mod_one]
  | succ width induction =>
      have digit : (UInt8.ofNat value).toNat = value % 256 := UInt8.toNat_ofNat'
      rw [bigEndian, ofBigEndian_append_singleton, induction, digit,
        Nat.pow_succ, Nat.mul_comm (256 ^ width), Nat.mod_mul]
      omega

theorem bigEndian_mod (width value : Nat) :
    bigEndian width (value % 256 ^ width) = bigEndian width value := by
  induction width generalizing value with
  | zero => rfl
  | succ width induction =>
      have quotient : value % 256 ^ (width + 1) / 256 = value / 256 % 256 ^ width := by
        rw [Nat.pow_succ, Nat.mul_comm (256 ^ width), Nat.mod_mul_right_div_self]
      have digit : UInt8.ofNat (value % 256 ^ (width + 1)) = UInt8.ofNat value := by
        apply UInt8.toNat_inj.1
        simp only [UInt8.toNat_ofNat']
        exact Nat.mod_mod_of_dvd value ⟨256 ^ width, by rw [Nat.pow_succ, Nat.mul_comm]⟩
      rw [bigEndian, quotient, induction, digit, bigEndian]

theorem bigEndian_ofBigEndian {width : Nat} {bytes : Bytes} (length : bytes.length = width) :
    bigEndian width (ofBigEndian bytes) = bytes := by
  induction width generalizing bytes with
  | zero => rw [List.length_eq_zero_iff.1 length]; rfl
  | succ width induction =>
      rcases List.eq_nil_or_concat bytes with empty | ⟨leading, last, rfl⟩
      · simp [empty] at length
      · have leading_length : leading.length = width := by simpa using length
        have bound := last.toNat_lt
        have digit : UInt8.ofNat (ofBigEndian leading * 256 + last.toNat) = last := by
          apply UInt8.toNat_inj.1
          simp only [UInt8.toNat_ofNat']
          omega
        rw [List.concat_eq_append, bigEndian, ofBigEndian_append_singleton, digit,
          show (ofBigEndian leading * 256 + last.toNat) / 256 = ofBigEndian leading by omega,
          induction leading_length]

/-- Numbers that fit into the width are told apart by their digits. -/
theorem bigEndian_inj {width first second : Nat} (fits : first < 256 ^ width)
    (other_fits : second < 256 ^ width) :
    bigEndian width first = bigEndian width second ↔ first = second := by
  constructor
  · intro same
    have values := congrArg ofBigEndian same
    rwa [ofBigEndian_bigEndian, ofBigEndian_bigEndian, Nat.mod_eq_of_lt fits,
      Nat.mod_eq_of_lt other_fits] at values
  · intro same
    rw [same]

end SealedFrame
