import SealedFrame.Proofs.Envelope.Image
import SealedFrame.Proofs.Written

namespace SealedFrame.Envelope

/-! Sealing either refuses one of the two sizes before anything is written, or writes the whole
envelope. The checks made of its parts never refuse what those two let through. -/

theorem drop_image_eq_encrypt (frame : Bytes) (label : Label) (key : Key) :
    (image frame label key).drop Header.size =
      Ccm.Standard.encrypt (cipher key) label.sealedHeader.nonce
        label.sealedHeader.toBytes.toList frame :=
  drop_image.trans (Ccm.sealed_eq_encrypt (cipher key) label.sealedHeader.nonce _ frame)

theorem value_sealInto_eq_guarded (frame : Bytes) (label : Label) (key : Key) (buffer : Bytes) :
    (sealInto frame label key buffer).value =
      .guarded [(frame.length > 16384, .innerFrameTooLarge),
          (buffer.length < 29 + frame.length, .bufferTooSmall)] buffer
        (.accept (29 + frame.length) (buffer.overwriteFront (image frame label key))) := by
  rw [value_sealInto_eq, Written.guarded_cons, Written.guarded_cons, Written.guarded_nil]

theorem sealInto_atomic (frame : Bytes) (label : Label) (key : Key) (buffer : Bytes) :
    let cipher := (Aes.Schedule.expand key.octets).encrypt
    let header : Header :=
      ⟨label.method.id, label.counter, label.authHash, label.deviceHash⟩
    let nonce := Header.nonceOf label.method.id label.deviceHash label.counter
    let head := header.toBytes.toList
    let body := Ccm.Standard.encrypt cipher nonce head frame
    let total := 29 + frame.length
    (sealInto frame label key buffer).value =
        .guarded [(frame.length > 16384, .innerFrameTooLarge),
            (buffer.length < total, .bufferTooSmall)] buffer
          (.accept total (head ++ body ++ buffer.drop total)) ∧
      head.length = 21 ∧ body.length = frame.length + 8 ∧
      label.flags.encode = .ok label.method.id ∧
      (frame.length ≤ 16384 → total ≤ buffer.length →
        Ccm.encryptInto cipher nonce head frame ((buffer.take total).drop 21) =
          .accept (frame.length + 8) body) := by
  intro cipher header nonce head body total
  have body_eq : (image frame label key).drop Header.size = body :=
    drop_image_eq_encrypt frame label key
  have envelope_eq : image frame label key = head ++ body := by
    rw [← List.take_append_drop Header.size (image frame label key), take_image, body_eq]
    rfl
  refine ⟨?_, Vector.length_toList, ?_, Flags.encode_aes128Ccm label.method, ?_⟩
  · have decided := value_sealInto_eq_guarded frame label key buffer
    rwa [Bytes.overwriteFront, length_image, envelope_eq] at decided
  · rw [← body_eq, drop_image, Ccm.length_sealed, Ccm.tagSize]
  · intro short room
    have placed := encryptInto_place label key short
      (Nat.le_trans (Nat.le_of_eq (lengthFor_eq frame.length)) room)
    rwa [body_eq, lengthFor_eq] at placed

/-- A frame that leaves four bytes of its buffer alone. -/
theorem sealInto_atomic_of_seventeen :
    let frame : Bytes := List.replicate 17 7
    let key : Key := ⟨Octets.zeros 16⟩
    let cipher := (Aes.Schedule.expand key.octets).encrypt
    let label : Label := ⟨.ping, 42, Octets.zeros 8, Octets.zeros 8⟩
    let nonce := Header.nonceOf 2 (Octets.zeros 8) 42
    let head := (2 :: bigEndian 4 42) ++ List.replicate 16 0
    let body := Ccm.Standard.encrypt cipher nonce head frame
    (sealInto frame label key (List.replicate 50 1)).value =
        .accept 46 (head ++ body ++ List.replicate 4 1) ∧
      body.length = 25 ∧
      Ccm.encryptInto cipher nonce head frame (List.replicate 25 1) = .accept 25 body := by
  intro frame key cipher label nonce head body
  obtain ⟨written, -, length, -, inner⟩ := sealInto_atomic frame label key (List.replicate 50 1)
  exact ⟨written, length, inner (by decide) (by decide)⟩

end SealedFrame.Envelope
