import SealedFrame.Hex
import SealedFrame.Proofs.Written

namespace SealedFrame.Hex

/-! Where a text stops to be digits, and why what is written always is a text. -/

def isPair (digits : Bytes) (index : Nat) : Bool :=
  ((digits.drop (2 * index)).take 2).all fun code => (digitValue? code).isSome

/-- The index of the first pair that is not two digits. -/
def firstBadPair (digits : Bytes) : Nat :=
  (List.range (digits.length / 2)).findIdx fun index => !isPair digits index

theorem firstBadPair_cons_cons (high low : UInt8) (rest : Bytes) :
    firstBadPair (high :: low :: rest) =
      if (digitValue? high).isSome && (digitValue? low).isSome then firstBadPair rest + 1
      else 0 := by
  have count : (high :: low :: rest).length / 2 = rest.length / 2 + 1 := by
    rw [List.length_cons, List.length_cons]
    omega
  have front : isPair (high :: low :: rest) 0 =
      ((digitValue? high).isSome && (digitValue? low).isSome) := by
    simp [isPair]
  have behind : ((fun index => !isPair (high :: low :: rest) index) ∘ Nat.succ) =
      fun index => !isPair rest index := by
    funext index
    rfl
  rw [firstBadPair, count, List.range_succ_eq_map, List.findIdx_cons, List.findIdx_map, behind,
    front, firstBadPair]
  cases (digitValue? high).isSome && (digitValue? low).isSome <;> rfl

theorem firstBadPair_le (digits : Bytes) : firstBadPair digits ≤ digits.length / 2 := by
  have bound := @List.findIdx_le_length _ (fun index => !isPair digits index)
    (List.range (digits.length / 2))
  rwa [List.length_range] at bound

/-! Digits are ASCII, so each of them is its own code. -/

theorem utf8Encode_digitsOf (byte : UInt8) :
    ((digitsOf byte).map Char.ofUInt8).flatMap String.utf8EncodeChar = digitsOf byte := by
  have check : ∀ bits : BitVec 8,
      ((digitsOf ⟨bits⟩).map Char.ofUInt8).flatMap String.utf8EncodeChar = digitsOf ⟨bits⟩ := by
    decide +kernel
  exact check byte.toBitVec

theorem toByteArray_encode (bytes : Bytes) :
    (encode bytes).toByteArray = (bytes.flatMap digitsOf).toByteArray := by
  have codes : ((bytes.flatMap digitsOf).map Char.ofUInt8).flatMap String.utf8EncodeChar =
      bytes.flatMap digitsOf := by
    induction bytes with
    | nil => rfl
    | cons byte rest induction =>
        rw [List.flatMap_cons, List.map_append, List.flatMap_append, utf8Encode_digitsOf,
          induction]
  rw [encode, String.toByteArray_ofList, List.utf8Encode, codes]

theorem fromUTF8?_digits (bytes : Bytes) :
    String.fromUTF8? (bytes.flatMap digitsOf).toByteArray = some (encode bytes) := by
  rw [← toByteArray_encode, String.fromUTF8?, dif_pos (encode bytes).isValidUTF8]
  rfl

@[simp] theorem length_flatMap_digitsOf (bytes : Bytes) :
    (bytes.flatMap digitsOf).length = 2 * bytes.length := by
  simp [List.length_flatMap, List.map_const', Nat.mul_comm]

theorem take_overwriteFront_digits (bytes buffer : Bytes) :
    (buffer.overwriteFront (bytes.flatMap digitsOf)).take (2 * bytes.length) =
      bytes.flatMap digitsOf := by
  rw [← length_flatMap_digitsOf, Bytes.take_overwriteFront]

/-- Writing fails for want of room only. -/
theorem encodeInto_eq (bytes buffer : Bytes) :
    encodeInto bytes buffer =
      if buffer.length < 2 * bytes.length then .reject .bufferTooSmall buffer
      else .accept (encode bytes) (buffer.overwriteFront (bytes.flatMap digitsOf)) := by
  simp only [encodeInto, take_overwriteFront_digits, fromUTF8?_digits]

end SealedFrame.Hex
