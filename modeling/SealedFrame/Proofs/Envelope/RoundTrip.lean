import SealedFrame.Proofs.Envelope.Image

namespace SealedFrame.Envelope

/-! What is sealed can be told from plain text, routed without the key, and opened with it. -/

theorem isEnvelope_image (frame : Bytes) (label : Label) (key : Key) :
    isEnvelope (image frame label key) = true := by
  have first : label.method.id ≠ Flags.reserved := by
    cases label.method <;> decide
  change (label.method.id != Flags.reserved) = true
  exact bne_iff_ne.2 first

theorem parseHeader_image (frame : Bytes) (label : Label) (key : Key) :
    parseHeader (image frame label key) = .silent (.ok label.sealedHeader) := by
  have decoded : Flags.decode label.sealedHeader.flags = .ok ⟨.aes128Ccm, 0, label.method⟩ :=
    Flags.decode_id label.method
  simp only [parseHeader, ofBytes_image, decoded]

theorem openInto_sealInto (frame : Bytes) (label : Label) (key : Key) (target plain : Bytes)
    (short : frame.length ≤ 16384) (room : 29 + frame.length ≤ target.length)
    (plain_room : frame.length ≤ plain.length) :
    let written := (sealInto frame label key target).value
    let envelope := written.buffer.take (29 + frame.length)
    let header : Header :=
      ⟨label.method.id, label.counter, label.authHash, label.deviceHash⟩
    let opened := (openInto envelope key plain).value
    written.answer = .ok (29 + frame.length) ∧
      isEnvelope envelope = true ∧
      (parseHeader envelope).value = .ok header ∧
      opened.answer = .ok ⟨header, label.method, frame.length⟩ ∧
      opened.buffer.take frame.length = frame := by
  intro written envelope header opened
  have sealing : written =
      .accept (29 + frame.length) (target.overwriteFront (image frame label key)) :=
    value_sealInto label key short room
  have envelope_eq : envelope = image frame label key := by
    change written.buffer.take (29 + frame.length) = _
    rw [sealing, Written.buffer_accept, ← length_image, Bytes.take_overwriteFront]
  have opening : opened = .accept ⟨header, label.method, frame.length⟩
      (plain.overwriteFront frame) := by
    change (openInto envelope key plain).value = _
    rw [envelope_eq]
    exact value_openInto_image label key short plain_room
  refine ⟨?_, ?_, ?_, ?_, ?_⟩
  · rw [sealing, Written.answer_accept]
  · rw [envelope_eq]
    exact isEnvelope_image frame label key
  · rw [envelope_eq, parseHeader_image]
    rfl
  · rw [opening, Written.answer_accept]
  · rw [opening, Written.buffer_accept, Bytes.take_overwriteFront]

/-- A frame that ends inside its second block, between buffers longer than it needs. -/
theorem openInto_sealInto_ack :
    let frame : Bytes := List.replicate 17 7
    let label : Label := ⟨.ack, 0xffffffff, Octets.zeros 8, Octets.zeros 8⟩
    let key : Key := ⟨Octets.zeros 16⟩
    let header : Header := ⟨3, 0xffffffff, Octets.zeros 8, Octets.zeros 8⟩
    let written := (sealInto frame label key (List.replicate 50 1)).value
    let envelope := written.buffer.take 46
    let opened := (openInto envelope key (List.replicate 20 2)).value
    written.answer = .ok 46 ∧ isEnvelope envelope = true ∧
      (parseHeader envelope).value = .ok header ∧
      opened.answer = .ok ⟨header, .ack, 17⟩ ∧ opened.buffer.take 17 = frame :=
  openInto_sealInto (List.replicate 17 7) ⟨.ack, 0xffffffff, Octets.zeros 8, Octets.zeros 8⟩
    ⟨Octets.zeros 16⟩ (List.replicate 50 1) (List.replicate 20 2)
    (by decide) (by decide) (by decide)

end SealedFrame.Envelope
