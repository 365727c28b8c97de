import SealedFrame.Proofs.Ccm.Decryption
import SealedFrame.Proofs.Envelope.Screening

namespace SealedFrame.Envelope

/-! The envelope that belongs to a frame, a label and a key. Sealing writes it, opening accepts
nothing else. -/

def Label.sealedHeader (label : Label) : Header :=
  label.header label.method.id

def image (frame : Bytes) (label : Label) (key : Key) : Bytes :=
  label.sealedHeader.toBytes.toList ++
    Ccm.sealed (cipher key) label.sealedHeader.nonce label.sealedHeader.toBytes.toList frame

variable {frame : Bytes} {label : Label} {key : Key}

@[simp] theorem lengthFor_eq (length : Nat) : lengthFor length = 29 + length := by
  simp only [lengthFor, Header.size, Ccm.tagSize]
  omega

@[simp] theorem minLength_eq : minLength = 29 := rfl

@[simp] theorem length_image : (image frame label key).length = 29 + frame.length := by
  rw [image, List.length_append, Vector.length_toList, Ccm.length_sealed, Ccm.tagSize]
  omega

@[simp] theorem take_image :
    (image frame label key).take Header.size = label.sealedHeader.toBytes.toList := by
  have length : label.sealedHeader.toBytes.toList.length = Header.size := Vector.length_toList
  rw [image, ← length, List.take_left]

@[simp] theorem drop_image :
    (image frame label key).drop Header.size =
      Ccm.sealed (cipher key) label.sealedHeader.nonce label.sealedHeader.toBytes.toList
        frame := by
  have length : label.sealedHeader.toBytes.toList.length = Header.size := Vector.length_toList
  rw [image, ← length, List.drop_left]

@[simp] theorem ofBytes_image :
    Header.ofBytes (image frame label key) = .ok label.sealedHeader :=
  Header.ofBytes_toBytes_append label.sealedHeader _

/-- The lengths that an envelope hands to the cipher mode are always short enough for it. -/
theorem header_fits (header : Header) : header.toBytes.toList.length ≤ Ccm.maxAssociated := by
  rw [Vector.length_toList]
  decide

theorem frame_fits {length : Nat} (short : length ≤ maxFrame) : length ≤ Ccm.maxPayload :=
  Nat.le_trans short (by decide)

/-- The body fills the place behind the header to its end, so nothing of it is left over. -/
theorem encryptInto_place {frame buffer : Bytes} (label : Label) (key : Key)
    (short : frame.length ≤ maxFrame)
    (room : lengthFor frame.length ≤ buffer.length) :
    Ccm.encryptInto (cipher key) label.sealedHeader.nonce label.sealedHeader.toBytes.toList frame
        ((buffer.take (lengthFor frame.length)).drop Header.size) =
      .accept (frame.length + Ccm.tagSize) ((image frame label key).drop Header.size) := by
  have place : ((buffer.take (lengthFor frame.length)).drop Header.size).length =
      frame.length + Ccm.tagSize := by
    rw [List.length_drop, List.length_take, Nat.min_eq_left room, lengthFor]
    omega
  have full := Nat.le_of_eq (place.trans (Ccm.length_sealed (cipher key)
    label.sealedHeader.nonce label.sealedHeader.toBytes.toList frame).symm)
  rw [Ccm.encryptInto_of_fits (cipher key) label.sealedHeader.nonce (frame_fits short)
    (header_fits label.sealedHeader) (Nat.le_of_eq place.symm), Bytes.overwriteFront,
    List.drop_eq_nil_of_le full, List.append_nil, drop_image]

theorem sealInto_of_fits {frame buffer : Bytes} (label : Label) (key : Key)
    (short : frame.length ≤ maxFrame)
    (room : lengthFor frame.length ≤ buffer.length) :
    sealInto frame label key buffer =
      .report (.sealedEnvelope label.counter (lengthFor frame.length) label.method)
        (.accept (lengthFor frame.length) (buffer.overwriteFront (image frame label key))) := by
  have encoded : label.flags.encode = .ok label.method.id :=
    Flags.encode_aes128Ccm label.method
  have body := encryptInto_place label key short room
  have whole : label.sealedHeader.toBytes.toList ++ (image frame label key).drop Header.size ++
      buffer.drop (lengthFor frame.length) =
        buffer.overwriteFront (image frame label key) := by
    rw [← take_image, List.take_append_drop, Bytes.overwriteFront, length_image, lengthFor_eq]
  have header_eq : label.header label.method.id = label.sealedHeader := rfl
  have cipher_eq : (Aes.Schedule.expand key.octets).encrypt = cipher key := rfl
  simp only [sealInto, if_neg (Nat.not_lt.2 short), if_neg (Nat.not_lt.2 room), encoded,
    header_eq, cipher_eq, body, Written.answer_accept, Written.buffer_accept, whole]

theorem value_sealInto {frame buffer : Bytes} (label : Label) (key : Key)
    (short : frame.length ≤ 16384) (room : 29 + frame.length ≤ buffer.length) :
    (sealInto frame label key buffer).value =
      .accept (29 + frame.length) (buffer.overwriteFront (image frame label key)) := by
  rw [← lengthFor_eq] at room ⊢
  rw [sealInto_of_fits label key short room]
  rfl

/-- All that sealing can do: refuse one of the two sizes and leave the buffer, or write the
envelope. -/
theorem sealInto_eq (frame : Bytes) (label : Label) (key : Key) (buffer : Bytes) :
    sealInto frame label key buffer =
      if frame.length > 16384 then
        .report (.frameTooLarge frame.length) (.reject .innerFrameTooLarge buffer)
      else if buffer.length < 29 + frame.length then
        .report (.sealBufferTooSmall (29 + frame.length) buffer.length)
          (.reject .bufferTooSmall buffer)
      else
        .report (.sealedEnvelope label.counter (29 + frame.length) label.method)
          (.accept (29 + frame.length) (buffer.overwriteFront (image frame label key))) := by
  rw [← lengthFor_eq]
  by_cases long : frame.length > 16384
  · have refused : frame.length > maxFrame := long
    rw [sealInto, if_pos long, if_pos refused]
  · have short : ¬frame.length > maxFrame := long
    rw [if_neg long]
    by_cases small : buffer.length < lengthFor frame.length
    · rw [sealInto, if_neg short, if_pos small, if_pos small]
    · rw [if_neg small]
      exact sealInto_of_fits label key (Nat.not_lt.1 short) (Nat.not_lt.1 small)

theorem value_sealInto_eq (frame : Bytes) (label : Label) (key : Key) (buffer : Bytes) :
    (sealInto frame label key buffer).value =
      if frame.length > 16384 then .reject .innerFrameTooLarge buffer
      else if buffer.length < 29 + frame.length then .reject .bufferTooSmall buffer
      else .accept (29 + frame.length) (buffer.overwriteFront (image frame label key)) := by
  rw [sealInto_eq]
  split
  · rfl
  · split
    · rfl
    · rfl

theorem fits_of_answer_sealInto {frame buffer : Bytes} {label : Label} {key : Key} {total : Nat}
    (accepted : (sealInto frame label key buffer).value.answer = .ok total) :
    frame.length ≤ 16384 ∧ 29 + frame.length ≤ buffer.length ∧ total = 29 + frame.length := by
  rw [value_sealInto_eq] at accepted
  split at accepted
  · cases accepted
  · rename_i short
    split at accepted
    · cases accepted
    · rename_i room
      exact ⟨Nat.not_lt.1 short, Nat.not_lt.1 room, (Except.ok.inj accepted).symm⟩

theorem take_buffer_sealInto {frame buffer : Bytes} {label : Label} {key : Key} {total : Nat}
    (accepted : (sealInto frame label key buffer).value.answer = .ok total) :
    (sealInto frame label key buffer).value.buffer.take total = image frame label key := by
  obtain ⟨short, room, rfl⟩ := fits_of_answer_sealInto accepted
  rw [value_sealInto label key short room, Written.buffer_accept, ← length_image,
    Bytes.take_overwriteFront]

theorem openInto_image {frame buffer : Bytes} (label : Label) (key : Key)
    (short : frame.length ≤ maxFrame)
    (room : frame.length ≤ buffer.length) :
    openInto (image frame label key) key buffer =
      .report (.openedEnvelope label.counter frame.length label.method)
        (.accept ⟨label.sealedHeader, label.method, frame.length⟩
          (buffer.overwriteFront frame)) := by
  have length : (image frame label key).length - minLength = frame.length := by
    rw [length_image, minLength_eq, Nat.add_sub_cancel_left]
  have screened : screen (image frame label key) buffer.length =
      .ok ⟨label.sealedHeader, label.method⟩ :=
    screen_eq_ok (by simp) ofBytes_image rfl (by rw [length]; exact short)
      (by rw [length]; exact room)
  have decrypted := Ccm.decryptInto_sealed (cipher key) label.sealedHeader.nonce
    (frame_fits short) (header_fits label.sealedHeader) room
  simp only [openInto_eq_screen, screened, unlock, take_image, drop_image, decrypted,
    Written.answer_accept, Written.buffer_accept]
  rfl

theorem value_openInto_image {frame buffer : Bytes} (label : Label) (key : Key)
    (short : frame.length ≤ 16384) (room : frame.length ≤ buffer.length) :
    (openInto (image frame label key) key buffer).value =
      .accept ⟨label.sealedHeader, label.method, frame.length⟩
        (buffer.overwriteFront frame) := by
  rw [openInto_image label key short room]
  rfl

/-- What a receiver learns of the sender's label. -/
def Opened.toLabel (opened : Opened) : Label :=
  ⟨opened.method, opened.header.counter, opened.header.authHash, opened.header.deviceHash⟩

/-- An envelope that opens is the image of what comes out of it. -/
theorem eq_image_of_openInto {envelope buffer : Bytes} {opened : Opened}
    (accepted : (openInto envelope key buffer).value.answer = .ok opened) :
    let frame := (openInto envelope key buffer).value.buffer.take opened.length
    envelope = image frame opened.toLabel key ∧ frame.length = opened.length ∧
      opened.header = opened.toLabel.sealedHeader ∧ frame.length ≤ maxFrame := by
  obtain ⟨described, decrypted, written⟩ := describes_of_answer_openInto accepted
  have header_eq : opened.header = opened.toLabel.sealedHeader := by
    have flags : opened.header.flags = opened.method.id := described.flags
    calc
      opened.header = ⟨opened.header.flags, opened.header.counter, opened.header.authHash,
          opened.header.deviceHash⟩ := rfl
      _ = opened.toLabel.sealedHeader := by
        rw [flags]
        rfl
  have front : envelope.take Header.size = opened.header.toBytes.toList :=
    (Header.toBytes_of_ofBytes described.parsed).symm
  obtain ⟨length, body⟩ := Ccm.eq_sealed_of_answer_decryptInto _ _ decrypted
  intro frame
  have frame_eq : (Ccm.decryptInto (cipher key) opened.header.nonce
      (envelope.take Header.size) (envelope.drop Header.size) buffer).buffer.take
        opened.length = frame := by
    rw [← written]
  rw [frame_eq] at body length
  have envelope_eq : envelope = image frame opened.toLabel key := by
    rw [image, ← header_eq, ← front, ← body, List.take_append_drop]
  refine ⟨envelope_eq, length, header_eq, ?_⟩
  have fits : envelope.length - minLength ≤ maxFrame := described.fits
  rw [envelope_eq, length_image, minLength_eq, Nat.add_sub_cancel_left] at fits
  exact fits

end SealedFrame.Envelope
