import SealedFrame.Aes
import SealedFrame.Ccm
import SealedFrame.Proofs.Ccm.Formatting
import SealedFrame.Proofs.Ccm.Keystream

namespace SealedFrame.Ccm

/-! Sealing against the standard: the sealed text is the one of the formatted string and the
numbered key blocks, and it fills exactly the front of the buffer. -/

@[simp] theorem length_sealed (cipher : Block → Block) (nonce : Nonce)
    (associated payload : Bytes) :
    (sealed cipher nonce associated payload).length = payload.length + tagSize := by
  rw [sealed, List.length_append, length_applyKeystream, Vector.length_toList, tagSize]

theorem toList_tag (cipher : Block → Block) (nonce : Nonce) (associated payload : Bytes) :
    (tag cipher nonce associated payload).toList =
      ((Standard.chain cipher (Standard.formatted nonce associated payload)).xor
        (Standard.keyBlock cipher nonce 0)).toList.take 8 := by
  rw [tag, Octets.toList_first, mac_eq_chain_formatted, ← cipher_counterBlock]
  rfl

theorem sealed_eq_encrypt (cipher : Block → Block) (nonce : Nonce)
    (associated payload : Bytes) :
    sealed cipher nonce associated payload =
      Standard.encrypt cipher nonce associated payload := by
  rw [sealed, applyKeystream_eq_mapIdx, toList_tag]
  rfl

theorem lengthError?_eq_none {associated : Bytes} {payloadLength : Nat}
    (payload_fits : payloadLength ≤ maxPayload)
    (associated_fits : associated.length ≤ maxAssociated) :
    lengthError? associated payloadLength = none := by
  rw [lengthError?, if_neg (Nat.not_lt.2 payload_fits), if_neg (Nat.not_lt.2 associated_fits)]

theorem lengths_fit_of_lengthError? {associated : Bytes} {payloadLength : Nat}
    (passed : lengthError? associated payloadLength = none) :
    payloadLength ≤ maxPayload ∧ associated.length ≤ maxAssociated := by
  unfold lengthError? at passed
  split at passed
  · cases passed
  · rename_i payload_fits
    split at passed
    · cases passed
    · rename_i associated_fits
      exact ⟨Nat.not_lt.1 payload_fits, Nat.not_lt.1 associated_fits⟩

theorem encryptInto_of_fits (cipher : Block → Block) (nonce : Nonce)
    {associated payload buffer : Bytes} (payload_fits : payload.length ≤ maxPayload)
    (associated_fits : associated.length ≤ maxAssociated)
    (room : payload.length + tagSize ≤ buffer.length) :
    encryptInto cipher nonce associated payload buffer =
      .accept (payload.length + tagSize)
        (buffer.overwriteFront (sealed cipher nonce associated payload)) := by
  simp only [encryptInto, lengthError?_eq_none payload_fits associated_fits]
  exact if_neg (Nat.not_lt.2 room)

theorem fits_of_answer_encryptInto {cipher : Block → Block} {nonce : Nonce}
    {associated payload buffer : Bytes} {total : Nat}
    (accepted : (encryptInto cipher nonce associated payload buffer).answer = .ok total) :
    payload.length ≤ maxPayload ∧ associated.length ≤ maxAssociated ∧
      payload.length + tagSize ≤ buffer.length ∧ total = payload.length + tagSize := by
  cases checked : lengthError? associated payload.length with
  | some error =>
      simp only [encryptInto, checked] at accepted
      cases accepted
  | none =>
      obtain ⟨payload_fits, associated_fits⟩ := lengths_fit_of_lengthError? checked
      simp only [encryptInto, checked] at accepted
      split at accepted
      · cases accepted
      · rename_i room
        exact ⟨payload_fits, associated_fits, Nat.not_lt.1 room,
          (Except.ok.inj accepted).symm⟩

theorem encryptInto_eq_encrypt (schedule : Aes.Schedule) (nonce : Nonce)
    (associated payload buffer : Bytes) (associated_fits : associated.length ≤ 65279)
    (payload_fits : payload.length ≤ 65535) (room : payload.length + 8 ≤ buffer.length) :
    let written := encryptInto schedule.encrypt nonce associated payload buffer
    let expected := Standard.encrypt schedule.encrypt nonce associated payload
    written.answer = .ok (payload.length + 8) ∧
      expected.length = payload.length + 8 ∧
      written.buffer = expected ++ buffer.drop (payload.length + 8) := by
  intro written expected
  have sealing : written = .accept (payload.length + 8) (buffer.overwriteFront expected) := by
    have accepted :=
      encryptInto_of_fits schedule.encrypt nonce payload_fits associated_fits room
    rw [sealed_eq_encrypt] at accepted
    exact accepted
  have length : expected.length = payload.length + 8 := by
    have sealed_length := length_sealed schedule.encrypt nonce associated payload
    rw [sealed_eq_encrypt] at sealed_length
    exact sealed_length
  refine ⟨congrArg Written.answer sealing, length, ?_⟩
  rw [sealing, Written.buffer_accept, Bytes.overwriteFront, length]

/-- A payload that ends inside its second block, with associated data that ends inside the
first. -/
theorem encryptInto_eq_encrypt_of_twenty_three :
    let schedule := Aes.Schedule.expand (Octets.zeros 16)
    let associated := List.replicate 8 1
    let payload := List.replicate 23 2
    let buffer := List.replicate 40 3
    let written := encryptInto schedule.encrypt (Octets.zeros 13) associated payload buffer
    let expected := Standard.encrypt schedule.encrypt (Octets.zeros 13) associated payload
    written.answer = .ok 31 ∧ expected.length = 31 ∧
      written.buffer = expected ++ List.replicate 9 3 :=
  encryptInto_eq_encrypt (Aes.Schedule.expand (Octets.zeros 16)) (Octets.zeros 13)
    (List.replicate 8 1) (List.replicate 23 2) (List.replicate 40 3)
    (by decide) (by decide) (by decide)

end SealedFrame.Ccm
