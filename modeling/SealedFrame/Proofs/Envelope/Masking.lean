import SealedFrame.Proofs.Envelope.Image

namespace SealedFrame.Envelope

/-! What a masked frame depends on. The mask comes from the key, the method, the counter and half of
the device hash, so two frames under the same four meet the same bytes of it. -/

/-- What stands in an envelope between its header and its tag. -/
def maskedFrame (envelope : Bytes) : Bytes :=
  (envelope.drop 21).take (envelope.length - 29)

/-- The byte that byte number `index` of a frame is masked with, made of all that enters it. -/
def frameMask (key : Key) (method : Method) (counter : UInt32) (device : Octets 4)
    (index : Nat) : UInt8 :=
  let nonce : Ccm.Nonce := Octets.ofBytes
    (method.id :: (List.replicate 4 0 ++ device.toList ++ bigEndian 4 counter.toNat)) (by simp)
  Ccm.maskByte (Aes.Schedule.expand key.octets).encrypt nonce index

variable {frame : Bytes} {label otherLabel : Label} {key : Key} {index : Nat}

theorem maskByte_sealedHeader (label : Label) (key : Key) (index : Nat) :
    Ccm.maskByte (cipher key) label.sealedHeader.nonce index =
      frameMask key label.method label.counter (label.deviceHash.first 4) index := rfl

theorem maskedFrame_image (frame : Bytes) (label : Label) (key : Key) :
    maskedFrame (image frame label key) =
      Ccm.applyKeystream (cipher key) label.sealedHeader.nonce frame := by
  have body : (image frame label key).drop 21 = Ccm.sealed (cipher key) label.sealedHeader.nonce
      label.sealedHeader.toBytes.toList frame := drop_image
  have length := Ccm.length_applyKeystream (cipher key) label.sealedHeader.nonce frame
  rw [maskedFrame, body, length_image, Nat.add_sub_cancel_left, Ccm.sealed, ← length,
    List.take_left]

theorem length_maskedFrame_image : (maskedFrame (image frame label key)).length = frame.length := by
  rw [maskedFrame_image, Ccm.length_applyKeystream]

theorem getD_maskedFrame_image (bound : index < frame.length) :
    (maskedFrame (image frame label key)).getD index 0 = frame.getD index 0 ^^^
      frameMask key label.method label.counter (label.deviceHash.first 4) index := by
  rw [maskedFrame_image, Ccm.getD_applyKeystream _ _ bound, maskByte_sealedHeader]

/-- Labels that agree on what enters the mask have one nonce. -/
theorem nonce_sealedHeader_congr (methods : label.method = otherLabel.method)
    (counters : label.counter = otherLabel.counter)
    (devices : label.deviceHash.first 4 = otherLabel.deviceHash.first 4) :
    label.sealedHeader.nonce = otherLabel.sealedHeader.nonce := by
  apply Header.nonceOf_inj.2
  exact ⟨congrArg Method.id methods, congrArg Vector.toList devices, counters⟩

/-- A mask that two bytes share drops out of their sum. -/
theorem xor_xor_xor_cancel (first second mask : UInt8) :
    (first ^^^ mask) ^^^ (second ^^^ mask) = first ^^^ second := by
  calc
    (first ^^^ mask) ^^^ (second ^^^ mask) = (first ^^^ second) ^^^ (mask ^^^ mask) := by
      ac_rfl
    _ = first ^^^ second := by simp

theorem maskedFrame_xor_maskedFrame (frame other : Bytes) (label otherLabel : Label) (key : Key)
    (buffer otherBuffer : Bytes) (total otherTotal : Nat)
    (accepted : (sealInto frame label key buffer).value.answer = .ok total)
    (other_accepted :
      (sealInto other otherLabel key otherBuffer).value.answer = .ok otherTotal)
    (methods : label.method = otherLabel.method)
    (counters : label.counter = otherLabel.counter)
    (devices : label.deviceHash.first 4 = otherLabel.deviceHash.first 4) :
    let masked := maskedFrame ((sealInto frame label key buffer).value.buffer.take total)
    let otherMasked :=
      maskedFrame ((sealInto other otherLabel key otherBuffer).value.buffer.take otherTotal)
    masked.length = frame.length ∧ otherMasked.length = other.length ∧
      (∀ index : Nat, index < min frame.length other.length →
        masked.getD index 0 ^^^ otherMasked.getD index 0 =
          frame.getD index 0 ^^^ other.getD index 0) ∧
      (∀ index : Nat, index < frame.length →
        masked.getD index 0 = frame.getD index 0 ^^^
          frameMask key label.method label.counter (label.deviceHash.first 4) index) ∧
      ∀ count : Nat, other = frame.take count → otherMasked = masked.take count := by
  intro masked otherMasked
  have masked_eq : masked = maskedFrame (image frame label key) :=
    congrArg maskedFrame (take_buffer_sealInto accepted)
  have otherMasked_eq : otherMasked = maskedFrame (image other otherLabel key) :=
    congrArg maskedFrame (take_buffer_sealInto other_accepted)
  rw [masked_eq, otherMasked_eq]
  refine ⟨length_maskedFrame_image, length_maskedFrame_image, ?_, ?_, ?_⟩
  · intro index bound
    obtain ⟨inside, other_inside⟩ := Nat.lt_min.1 bound
    rw [getD_maskedFrame_image inside, getD_maskedFrame_image other_inside, ← methods,
      ← counters, ← devices, xor_xor_xor_cancel]
  · intro index bound
    exact getD_maskedFrame_image bound
  · rintro count rfl
    rw [maskedFrame_image, maskedFrame_image, Ccm.applyKeystream_take,
      nonce_sealedHeader_congr methods counters devices]

/-- Labels apart in all that stays out of the mask: a frame, a shorter one, and a piece of the
first. -/
theorem maskedFrame_xor_maskedFrame_of_seventeen :
    let frame : Bytes := List.replicate 40 7
    let other : Bytes := List.replicate 17 8
    let label : Label := ⟨.push, 41, Octets.zeros 8, Octets.zeros 8⟩
    let otherLabel : Label := ⟨.push, 41, Vector.replicate 8 1, #v[0, 0, 0, 0, 2, 2, 2, 2]⟩
    let key : Key := ⟨Octets.zeros 16⟩
    let envelope := (sealInto frame label key (List.replicate 70 1)).value.buffer.take 69
    let otherEnvelope :=
      (sealInto other otherLabel key (List.replicate 46 1)).value.buffer.take 46
    let piece :=
      (sealInto (frame.take 17) otherLabel key (List.replicate 50 1)).value.buffer.take 46
    (∀ index < 17, (maskedFrame envelope).getD index 0 ^^^
        (maskedFrame otherEnvelope).getD index 0 = 15) ∧
      maskedFrame piece = (maskedFrame envelope).take 17 := by
  intro frame other label otherLabel key envelope otherEnvelope piece
  have accepted : (sealInto frame label key (List.replicate 70 1)).value.answer = .ok 69 :=
    congrArg Written.answer (value_sealInto label key (by decide) (by decide))
  have other_accepted :
      (sealInto other otherLabel key (List.replicate 46 1)).value.answer = .ok 46 :=
    congrArg Written.answer (value_sealInto otherLabel key (by decide) (by decide))
  have piece_accepted :
      (sealInto (frame.take 17) otherLabel key (List.replicate 50 1)).value.answer = .ok 46 :=
    congrArg Written.answer (value_sealInto otherLabel key (by decide) (by decide))
  obtain ⟨-, -, differ, -⟩ := maskedFrame_xor_maskedFrame frame other label otherLabel key
    _ _ 69 46 accepted other_accepted rfl rfl (by decide)
  obtain ⟨-, -, -, -, cut⟩ := maskedFrame_xor_maskedFrame frame (frame.take 17) label otherLabel
    key _ _ 69 46 accepted piece_accepted rfl rfl (by decide)
  have bytes : ∀ index < 17, frame.getD index 0 ^^^ other.getD index 0 = 15 := by
    decide
  refine ⟨fun index bound => ?_, cut 17 rfl⟩
  exact (differ index (Nat.lt_min.2 ⟨Nat.lt_trans bound (by decide), bound⟩)).trans
    (bytes index bound)

end SealedFrame.Envelope
