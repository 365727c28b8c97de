import SealedFrame.Derivation
import SealedFrame.Proofs.Hex.Grammar
import SealedFrame.Proofs.Envelope.Decision

namespace SealedFrame

/-! What each operation leaves of its caller's buffer. None of them reads it. -/

namespace Ccm

theorem lengthError?_ne_decryptionFailed {associated : Bytes} {length : Nat} {error : Error}
    (found : lengthError? associated length = some error) : error ≠ .decryptionFailed := by
  unfold lengthError? at found
  split at found
  · cases found
    decide
  · split at found
    · cases found
      decide
    · cases found

variable (cipher : Block → Block) (nonce : Nonce)

theorem frontWriter_encryptInto (associated payload : Bytes) :
    FrontWriter (encryptInto cipher nonce associated payload) (payload.length + 8)
      (touched id fun _ => 0) := by
  cases checked : lengthError? associated payload.length with
  | some error =>
      refine .of_reject error rfl fun buffer => ?_
      simp only [encryptInto, checked]
  | none =>
      have length := length_sealed cipher nonce associated payload
      refine .of_effect ⟨.ok (payload.length + 8), sealed cipher nonce associated payload⟩ length
        (Nat.le_of_eq length) rfl fun buffer => ?_
      simp only [encryptInto, checked]
      rfl

theorem frontWriter_decryptInto (associated input : Bytes) :
    FrontWriter (decryptInto cipher nonce associated input) (input.length - 8)
      (touched id fun error => if error = .decryptionFailed then input.length - 8 else 0) := by
  by_cases short : input.length < tagSize
  · have nothing : input.length - 8 = 0 := Nat.sub_eq_zero_of_le (Nat.le_of_lt short)
    refine .of_reject .decryptionFailed ?_ fun buffer => ?_
    · simp only [touched, if_true, nothing]
    · simp only [decryptInto, if_pos short]
  · have long := Nat.not_lt.1 short
    cases checked : lengthError? associated (input.length - tagSize) with
    | some error =>
        refine .of_reject error (if_neg (lengthError?_ne_decryptionFailed checked)) fun buffer => ?_
        simp only [decryptInto, if_neg short, checked]
    | none =>
        obtain ⟨payload_fits, associated_fits⟩ := lengths_fit_of_lengthError? checked
        have cramped : ∀ buffer : Bytes, buffer.length < input.length - 8 →
            decryptInto cipher nonce associated input buffer = .reject .bufferTooSmall buffer := by
          intro buffer small
          simp only [decryptInto, if_neg short, checked]
          exact if_pos small
        by_cases genuine : input = sealed cipher nonce associated (unmasked cipher nonce input)
        · have length := length_unmasked cipher nonce input
          refine ⟨⟨⟨.ok (input.length - 8), unmasked cipher nonce input⟩, length,
            Nat.le_of_eq length, fun buffer room => ?_⟩, .bufferTooSmall, rfl, cramped⟩
          exact decryptInto_of_genuine cipher nonce long payload_fits associated_fits room genuine
        · have length := @Effect.length_front_wipe Nat .decryptionFailed (input.length - 8)
          refine ⟨⟨.wipe .decryptionFailed (input.length - 8), length, Nat.le_of_eq length,
            fun buffer room => ?_⟩, .bufferTooSmall, rfl, cramped⟩
          rw [Effect.onto_wipe]
          exact decryptInto_of_forged cipher nonce long payload_fits associated_fits room genuine

end Ccm

namespace Envelope

variable (key : Key)

theorem frontWriter_sealInto (frame : Bytes) (label : Label) :
    FrontWriter (fun buffer => (sealInto frame label key buffer).value) (29 + frame.length)
      (touched id fun _ => 0) := by
  by_cases long : frame.length > 16384
  · refine .of_reject .innerFrameTooLarge rfl fun buffer => ?_
    rw [value_sealInto_eq, if_pos long]
  · refine .of_effect ⟨.ok (29 + frame.length), image frame label key⟩ length_image
      (Nat.le_of_eq length_image) rfl fun buffer => ?_
    rw [value_sealInto_eq, if_neg long]
    rfl

/-- Screening finds one header and one method, however much room there is beyond the needed. -/
theorem exists_contents_of_unobjected {envelope : Bytes}
    (found : objection? envelope (envelope.length - 29) = none) :
    ∃ (header : Header) (method : Method), ∀ buffer : Bytes,
      envelope.length - 29 ≤ buffer.length →
      (openInto envelope key buffer).value =
        if Authentic envelope key then
          .accept ⟨header, method, envelope.length - 29⟩
            (frameOf envelope key ++ buffer.drop (envelope.length - 29))
        else
          .reject .decryptionFailed (List.replicate (envelope.length - 29) 0 ++
            buffer.drop (envelope.length - 29)) := by
  obtain ⟨screened, passed⟩ := exists_screened found
  have described := describes_of_screen passed
  refine ⟨screened.header, screened.method, fun buffer room => ?_⟩
  have passed_again : screen envelope buffer.length = .ok screened :=
    screen_eq_ok described.long described.parsed described.flags described.fits room
  rw [← value_unlock (describes_of_screen passed_again), openInto_eq_screen, passed_again]

theorem frontWriter_openInto (envelope : Bytes) :
    FrontWriter (fun buffer => (openInto envelope key buffer).value) (envelope.length - 29)
      (touched Opened.length fun error =>
        if error = .decryptionFailed then envelope.length - 29 else 0) := by
  cases found : objection? envelope (envelope.length - 29) with
  | some error =>
      have other : error ≠ .decryptionFailed := by
        rintro rfl
        exact absurd (objection?_mem found) (by decide)
      refine .of_reject error (if_neg other) fun buffer => ?_
      apply openInto_of_objection
      rw [objection?_of_capacity, found, Option.some_or]
  | none =>
      refine ⟨?_, .bufferTooSmall, rfl, fun buffer small => ?_⟩
      · obtain ⟨header, method, decided⟩ := exists_contents_of_unobjected key found
        by_cases authentic : Authentic envelope key
        · have length := length_frameOf envelope key
          refine ⟨⟨.ok ⟨header, method, envelope.length - 29⟩, frameOf envelope key⟩, length,
            Nat.le_of_eq length, fun buffer room => ?_⟩
          rw [decided buffer room, if_pos authentic, Effect.onto, Bytes.overwriteFront, length]
          rfl
        · refine ⟨.wipe .decryptionFailed (envelope.length - 29), Effect.length_front_wipe _ _,
            Nat.le_of_eq (Effect.length_front_wipe _ _), fun buffer room => ?_⟩
          rw [decided buffer room, if_neg authentic, Effect.onto_wipe]
      · apply openInto_of_objection
        rw [objection?_of_capacity, found, Option.none_or, if_pos small]

end Envelope

namespace Hex

theorem frontWriter_decodeInto (text : String) :
    let digits := Bytes.ofText text
    FrontWriter (decodeInto text) (digits.length / 2)
      (touched id fun error =>
        if error = .invalidHex ∧ digits.length % 2 = 0 then firstBadPair digits else 0) := by
  intro digits
  by_cases odd : digits.length % 2 ≠ 0
  · refine .of_reject .invalidHex (if_neg fun bad => odd bad.2) fun buffer => ?_
    exact if_pos odd
  · have even : digits.length % 2 = 0 := Decidable.not_not.1 odd
    by_cases spells : OnlyDigits digits
    · have length := length_spelled digits
      refine .of_effect ⟨.ok (digits.length / 2), spelled digits⟩ length (Nat.le_of_eq length) rfl
        fun buffer => ?_
      rw [decodeInto_of_even even, if_pos spells]
      rfl
    · have length := @Effect.length_front_wipe Nat .invalidHex (firstBadPair digits)
      refine .of_effect (.wipe .invalidHex (firstBadPair digits)) ?_ ?_ rfl fun buffer => ?_
      · exact length.trans (if_pos ⟨rfl, even⟩).symm
      · exact Nat.le_trans (Nat.le_of_eq length) (firstBadPair_le digits)
      · rw [decodeInto_of_even even, if_neg spells]
        rfl

example : (decodeInto "aabbzz00" [1, 2, 3, 4]).buffer = [0, 0, 3, 4] := by decide +kernel

theorem frontWriter_encodeInto (bytes : Bytes) :
    FrontWriter (encodeInto bytes) (2 * bytes.length)
      (touched (fun _ => 2 * bytes.length) fun _ => 0) := by
  have length := length_flatMap_digitsOf bytes
  exact .of_effect ⟨.ok (encode bytes), bytes.flatMap digitsOf⟩ length (Nat.le_of_eq length) rfl
    fun buffer => encodeInto_eq bytes buffer

end Hex

namespace Derivation

theorem frameLaw_keyInto (token serial : String) :
    FrameLaw (keyInto token serial) fun capacity => touched (fun _ => capacity) fun _ => 0 := by
  apply frameLaw_of_onto
  intro capacity
  by_cases large : capacity > maxKeySize
  · refine ⟨.refuse .invalidKeySize, rfl, Nat.zero_le _, ?_⟩
    rintro buffer rfl
    exact if_pos large
  · have length : ((keyMaterial token serial).toList.take capacity).length = capacity := by
      rw [List.length_take, Vector.length_toList]
      exact Nat.min_eq_left (Nat.not_lt.1 large)
    refine ⟨⟨.ok (), (keyMaterial token serial).toList.take capacity⟩, length,
      Nat.le_of_eq length, ?_⟩
    rintro buffer rfl
    exact if_neg large

end Derivation

theorem operations_never_read_buffer (cipher : Block → Block) (nonce : Ccm.Nonce)
    (associated payload input frame envelope bytes : Bytes) (label : Envelope.Label) (key : Key)
    (text token serial : String) :
    let digits := Bytes.ofText text
    FrontLaw (Ccm.encryptInto cipher nonce associated payload) (payload.length + 8)
        (touched id fun _ => 0) ∧
      FrontLaw (Ccm.decryptInto cipher nonce associated input) (input.length - 8)
        (touched id fun error => if error = .decryptionFailed then input.length - 8 else 0) ∧
      FrontLaw (fun buffer => (Envelope.sealInto frame label key buffer).value)
        (29 + frame.length) (touched id fun _ => 0) ∧
      FrontLaw (fun buffer => (Envelope.openInto envelope key buffer).value)
        (envelope.length - 29)
        (touched Envelope.Opened.length fun error =>
          if error = .decryptionFailed then envelope.length - 29 else 0) ∧
      FrontLaw (Hex.decodeInto text) (digits.length / 2)
        (touched id fun error =>
          if error = .invalidHex ∧ digits.length % 2 = 0 then Hex.firstBadPair digits else 0) ∧
      FrontLaw (Hex.encodeInto bytes) (2 * bytes.length)
        (touched (fun _ => 2 * bytes.length) fun _ => 0) ∧
      FrameLaw (Derivation.keyInto token serial) fun capacity =>
        touched (fun _ => capacity) fun _ => 0 :=
  ⟨(Ccm.frontWriter_encryptInto cipher nonce associated payload).frontLaw,
    (Ccm.frontWriter_decryptInto cipher nonce associated input).frontLaw,
    (Envelope.frontWriter_sealInto key frame label).frontLaw,
    (Envelope.frontWriter_openInto key envelope).frontLaw,
    (Hex.frontWriter_decodeInto text).frontLaw,
    (Hex.frontWriter_encodeInto bytes).frontLaw,
    Derivation.frameLaw_keyInto token serial⟩

end SealedFrame
