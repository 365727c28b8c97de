import SealedFrame.Proofs.Ccm.Decryption
import SealedFrame.Proofs.Written

namespace SealedFrame.Ccm

/-! Sealing and opening decided on the lengths, in a fixed order, and opening then on the tag. Only
a wrong tag touches the buffer of a call that fails. -/

/-- The payload of an input that ends in a tag, freed of the key blocks from one on. -/
def Standard.recovered (cipher : Block → Block) (nonce : Octets 13) (input : Bytes) : Bytes :=
  (input.take (input.length - 8)).mapIdx fun index byte =>
    byte ^^^ (keyBlock cipher nonce (index / 16 + 1)).toList.getD (index % 16) 0

/-- The tag that an input ends in is the one of its payload. -/
def Standard.Genuine (cipher : Block → Block) (nonce : Octets 13) (associated input : Bytes) :
    Prop :=
  ((chain cipher (formatted nonce associated (recovered cipher nonce input))).xor
    (keyBlock cipher nonce 0)).toList.take 8 = input.drop (input.length - 8)

instance (cipher : Block → Block) (nonce : Octets 13) (associated input : Bytes) :
    Decidable (Standard.Genuine cipher nonce associated input) :=
  inferInstanceAs (Decidable (_ = _))

variable {cipher : Block → Block} {nonce : Nonce} {associated payload input buffer : Bytes}

theorem unmasked_eq_recovered (cipher : Block → Block) (nonce : Nonce) (input : Bytes) :
    unmasked cipher nonce input = Standard.recovered cipher nonce input :=
  applyKeystream_eq_mapIdx cipher nonce _

@[simp] theorem length_recovered :
    (Standard.recovered cipher nonce input).length = input.length - 8 :=
  (congrArg List.length (unmasked_eq_recovered cipher nonce input)).symm.trans
    (length_unmasked cipher nonce input)

theorem genuine_iff :
    Standard.Genuine cipher nonce associated input ↔
      (tag cipher nonce associated (unmasked cipher nonce input)).toList =
        input.drop (input.length - tagSize) := by
  rw [toList_tag, unmasked_eq_recovered]
  rfl

/-- The two checks that sealing and opening share. -/
theorem guarded_lengths (length : Nat) (checks : List (Bool × Error)) (outcome : Written Nat) :
    Written.guarded ((length > 65535, .innerFrameTooLarge) ::
        (associated.length > 65279, .aadTooLarge) :: checks) buffer outcome =
      match lengthError? associated length with
      | some error => .reject error buffer
      | none => Written.guarded checks buffer outcome := by
  rw [Written.guarded_cons, Written.guarded_cons]
  unfold lengthError? maxPayload maxAssociated
  split
  · rfl
  · split
    · rfl
    · rfl

theorem encryptInto_eq_guarded (cipher : Block → Block) (nonce : Nonce)
    (associated payload buffer : Bytes) :
    encryptInto cipher nonce associated payload buffer =
      .guarded [(payload.length > 65535, .innerFrameTooLarge),
          (associated.length > 65279, .aadTooLarge),
          (buffer.length < payload.length + 8, .bufferTooSmall)] buffer
        (.accept (payload.length + 8) (Standard.encrypt cipher nonce associated payload ++
          buffer.drop (payload.length + 8))) := by
  have written : buffer.overwriteFront (sealed cipher nonce associated payload) =
      Standard.encrypt cipher nonce associated payload ++ buffer.drop (payload.length + 8) := by
    rw [Bytes.overwriteFront, length_sealed, sealed_eq_encrypt]
    rfl
  rw [guarded_lengths, Written.guarded_cons, Written.guarded_nil, ← written]
  rfl

/-- Past the checks, the buffer holds the payload, or zeros in its place. -/
theorem decryptInto_eq_guarded (cipher : Block → Block) (nonce : Nonce)
    (associated input buffer : Bytes) :
    decryptInto cipher nonce associated input buffer =
      .guarded [(input.length < 8, .decryptionFailed),
          (input.length - 8 > 65535, .innerFrameTooLarge),
          (associated.length > 65279, .aadTooLarge),
          (buffer.length < input.length - 8, .bufferTooSmall)] buffer
        (if Standard.Genuine cipher nonce associated input then
          .accept (input.length - 8)
            (Standard.recovered cipher nonce input ++ buffer.drop (input.length - 8))
        else .reject .decryptionFailed
          (List.replicate (input.length - 8) 0 ++ buffer.drop (input.length - 8))) := by
  have released : buffer.overwriteFront (unmasked cipher nonce input) =
      Standard.recovered cipher nonce input ++ buffer.drop (input.length - 8) := by
    rw [unmasked_eq_recovered, Bytes.overwriteFront, length_recovered]
  have wiped : (buffer.overwriteFront (unmasked cipher nonce input)).wipeFront
      (input.length - 8) = List.replicate (input.length - 8) 0 ++
        buffer.drop (input.length - 8) :=
    wipeFront_filled cipher nonce input buffer
  rw [Written.guarded_cons, guarded_lengths, Written.guarded_cons, Written.guarded_nil]
  simp only [genuine_iff, ← released, ← wiped]
  rfl

theorem decided_in_order (schedule : Aes.Schedule) (nonce : Nonce)
    (associated payload input buffer : Bytes) :
    let cipher := schedule.encrypt
    let length := input.length - 8
    let released := Standard.recovered cipher nonce input
    let text := Standard.encrypt cipher nonce associated payload
    encryptInto cipher nonce associated payload buffer =
        .guarded [(payload.length > 65535, .innerFrameTooLarge),
            (associated.length > 65279, .aadTooLarge),
            (buffer.length < payload.length + 8, .bufferTooSmall)] buffer
          (.accept (payload.length + 8) (text ++ buffer.drop (payload.length + 8))) ∧
      decryptInto cipher nonce associated input buffer =
        .guarded [(input.length < 8, .decryptionFailed),
            (length > 65535, .innerFrameTooLarge),
            (associated.length > 65279, .aadTooLarge),
            (buffer.length < length, .bufferTooSmall)] buffer
          (if Standard.Genuine cipher nonce associated input then
            .accept length (released ++ buffer.drop length)
          else .reject .decryptionFailed (List.replicate length 0 ++ buffer.drop length)) ∧
      text.length = payload.length + 8 ∧ released.length = length := by
  intro cipher length released text
  refine ⟨encryptInto_eq_guarded cipher nonce associated payload buffer,
    decryptInto_eq_guarded cipher nonce associated input buffer, ?_, length_recovered⟩
  exact (congrArg List.length (sealed_eq_encrypt cipher nonce associated payload)).symm.trans
    (length_sealed cipher nonce associated payload)

end SealedFrame.Ccm
