import SealedFrame.Proofs.Envelope.Image

namespace SealedFrame.Envelope

/-! Each frame has one envelope for a label and a key: what opens is written again, byte by byte,
by sealing what came out, and no header and masked frame open with two tags. -/

theorem getElem_toBytes_zero (header : Header) : header.toBytes[0] = header.flags := rfl

/-- Once the header and the sizes are in order, the tag decides. -/
theorem answer_openInto_tagged {header : Header} {method : Method} {masked : Bytes}
    (flags : header.flags = method.id) (short : masked.length ≤ maxFrame) (tag : Ccm.Tag)
    (key : Key) (buffer : Bytes) :
    (openInto (header.toBytes.toList ++ masked ++ tag.toList) key buffer).value.answer =
      if buffer.length < masked.length then .error .bufferTooSmall
      else if tag = Ccm.tag (cipher key) header.nonce header.toBytes.toList
          (Ccm.applyKeystream (cipher key) header.nonce masked) then
        .ok ⟨header, method, masked.length⟩
      else .error .decryptionFailed := by
  have front_length : header.toBytes.toList.length = Header.size := Vector.length_toList
  have envelope_eq : header.toBytes.toList ++ masked ++ tag.toList =
      header.toBytes.toList ++ (masked ++ tag.toList) := List.append_assoc _ _ _
  have parsed := Header.ofBytes_toBytes_append header (masked ++ tag.toList)
  have whole : (header.toBytes.toList ++ (masked ++ tag.toList)).length =
      29 + masked.length := by
    rw [List.length_append, List.length_append, front_length, Vector.length_toList, Header.size]
    omega
  have length : (header.toBytes.toList ++ (masked ++ tag.toList)).length - minLength =
      masked.length := by
    rw [whole, minLength_eq, Nat.add_sub_cancel_left]
  have head : (header.toBytes.toList ++ (masked ++ tag.toList)).take Header.size =
      header.toBytes.toList := by
    rw [← front_length, List.take_left]
  have body : (header.toBytes.toList ++ (masked ++ tag.toList)).drop Header.size =
      masked ++ tag.toList := by
    rw [← front_length, List.drop_left]
  rw [envelope_eq, openInto_eq_screen,
    screen_of_flags (by rw [whole, minLength_eq]; omega) parsed flags]
  simp only [length, if_neg (Nat.not_lt.2 short)]
  by_cases room : buffer.length < masked.length
  · simp only [if_pos room]
    rfl
  · have decided := Ccm.answer_decryptInto_append (cipher key) header.nonce tag
      (frame_fits short) (header_fits header) (Nat.not_lt.1 room)
    by_cases genuine : tag = Ccm.tag (cipher key) header.nonce header.toBytes.toList
        (Ccm.applyKeystream (cipher key) header.nonce masked)
    · rw [if_pos genuine] at decided
      simp only [if_neg room, if_pos genuine, unlock, head, body, decided]
      rfl
    · rw [if_neg genuine] at decided
      simp only [if_neg room, if_neg genuine, unlock, head, body, decided]
      rfl

theorem exists_genuine_tag {header : Header} {method : Method} {masked buffer : Bytes}
    (flags : header.flags = method.id) (short : masked.length ≤ maxFrame)
    (room : masked.length ≤ buffer.length) (key : Key) :
    ∃ genuine : Ccm.Tag, ∀ tag : Ccm.Tag,
      (∃ opened : Opened,
        (openInto (header.toBytes.toList ++ masked ++ tag.toList) key buffer).value.answer =
          .ok opened) ↔ tag = genuine := by
  refine ⟨Ccm.tag (cipher key) header.nonce header.toBytes.toList
    (Ccm.applyKeystream (cipher key) header.nonce masked), fun tag => ⟨?_, ?_⟩⟩
  · rintro ⟨opened, accepted⟩
    rw [answer_openInto_tagged flags short, if_neg (Nat.not_lt.2 room)] at accepted
    split at accepted
    · assumption
    · cases accepted
  · intro genuine
    refine ⟨⟨header, method, masked.length⟩, ?_⟩
    rw [answer_openInto_tagged flags short, if_neg (Nat.not_lt.2 room), if_pos genuine]

/-- With another tag an envelope that opens is refused, whatever buffer it is opened into. -/
theorem answer_openInto_of_tag_ne {header : Header} {masked buffer : Bytes}
    {tag changed : Ccm.Tag} {key : Key} {opened : Opened}
    (accepted : (openInto (header.toBytes.toList ++ masked ++ tag.toList) key
      buffer).value.answer = .ok opened) (different : changed ≠ tag) (other : Bytes) :
    (openInto (header.toBytes.toList ++ masked ++ changed.toList) key other).value.answer =
      .error (if other.length < masked.length then .bufferTooSmall
        else .decryptionFailed) := by
  obtain ⟨described, -, -⟩ := describes_of_answer_openInto accepted
  have header_eq : opened.header = header := by
    have parsed := described.parsed
    rw [List.append_assoc, Header.ofBytes_toBytes_append] at parsed
    exact (Except.ok.inj parsed).symm
  have flags : header.flags = opened.method.id := by
    rw [← header_eq]
    exact described.flags
  have short : masked.length ≤ maxFrame := by
    have fits := described.fits
    rw [List.length_append, List.length_append, Vector.length_toList, Vector.length_toList,
      minLength_eq] at fits
    omega
  have genuine : tag = Ccm.tag (cipher key) header.nonce header.toBytes.toList
      (Ccm.applyKeystream (cipher key) header.nonce masked) := by
    rw [answer_openInto_tagged flags short] at accepted
    split at accepted
    · cases accepted
    · split at accepted
      · assumption
      · cases accepted
  rw [genuine] at different
  rw [answer_openInto_tagged flags short, if_neg different]
  split
  · rfl
  · rfl

theorem sealInto_openInto (key : Key) :
    (∀ (envelope buffer : Bytes) (opened : Opened),
      (openInto envelope key buffer).value.answer = .ok opened →
      let frame := (openInto envelope key buffer).value.buffer.take opened.length
      let label : Label := ⟨opened.method, opened.header.counter, opened.header.authHash,
        opened.header.deviceHash⟩
      frame.length = opened.length ∧
        envelope.length = opened.length + 29 ∧
        opened.length ≤ 16384 ∧
        opened.header.flags = opened.method.id ∧
        ∀ target : Bytes, envelope.length ≤ target.length →
          let written := (sealInto frame label key target).value
          written.answer = .ok envelope.length ∧
            written.buffer = envelope ++ target.drop envelope.length) ∧
    (∀ (head : Octets 21) (method : Method) (masked buffer : Bytes),
      head[0] = method.id → masked.length ≤ 16384 → masked.length ≤ buffer.length →
      ∃ genuine : Octets 8, ∀ tag : Octets 8,
        (∃ opened : Opened,
          (openInto (head.toList ++ masked ++ tag.toList) key buffer).value.answer =
            .ok opened) ↔ tag = genuine) ∧
    (∀ (head : Octets 21) (masked buffer other : Bytes) (tag changed : Octets 8)
        (opened : Opened),
      (openInto (head.toList ++ masked ++ tag.toList) key buffer).value.answer = .ok opened →
      changed ≠ tag →
      (openInto (head.toList ++ masked ++ changed.toList) key other).value.answer =
        .error (if other.length < masked.length then .bufferTooSmall
          else .decryptionFailed)) := by
  refine ⟨?_, ?_, ?_⟩
  · intro envelope buffer opened accepted frame label
    obtain ⟨envelope_eq, length, header_eq, short⟩ := eq_image_of_openInto accepted
    have whole : envelope.length = 29 + opened.length := by
      rw [envelope_eq, length_image, length]
    refine ⟨length, whole.trans (Nat.add_comm _ _), by rw [← length]; exact short,
      congrArg Header.flags header_eq, ?_⟩
    intro target room written
    have sealing : written =
        .accept (29 + frame.length) (target.overwriteFront (image frame label key)) :=
      value_sealInto label key short (by rw [length, ← whole]; exact room)
    rw [length, ← whole] at sealing
    refine ⟨congrArg Written.answer sealing, ?_⟩
    rw [sealing, Written.buffer_accept, Bytes.overwriteFront]
    exact congrArg (fun front => front ++ target.drop front.length) envelope_eq.symm
  · intro head method masked buffer flagged short room
    obtain ⟨header, rfl⟩ := Header.exists_toBytes_eq head
    exact exists_genuine_tag ((getElem_toBytes_zero header).symm.trans flagged) short room key
  · intro head masked buffer other tag changed opened accepted different
    obtain ⟨header, rfl⟩ := Header.exists_toBytes_eq head
    exact answer_openInto_of_tag_ne accepted different other

/-- An envelope that opens is sealed again, and a masked frame opens with one tag only. -/
theorem sealInto_openInto_ping :
    let key : Key := ⟨Octets.zeros 16⟩
    let envelope := image (List.replicate 17 7)
      ⟨.ping, 42, Octets.zeros 8, Octets.zeros 8⟩ key
    let opened : Opened := ⟨⟨2, 42, Octets.zeros 8, Octets.zeros 8⟩, .ping, 17⟩
    let head := Octets.zeros 21
    let masked : Bytes := List.replicate 5 3
    (openInto envelope key (List.replicate 20 1)).value.answer = .ok opened ∧
      envelope.length = 46 ∧
      (sealInto ((openInto envelope key (List.replicate 20 1)).value.buffer.take
        opened.length) ⟨opened.method, opened.header.counter, opened.header.authHash,
        opened.header.deviceHash⟩ key (List.replicate 50 2)).value.answer =
          .ok envelope.length ∧
      ∃ tag : Octets 8, ∀ changed : Octets 8, changed ≠ tag →
        (openInto (head.toList ++ masked ++ changed.toList) key
          (List.replicate 5 1)).value.answer = .error .decryptionFailed := by
  intro key envelope opened head masked
  have accepted : (openInto envelope key (List.replicate 20 1)).value.answer = .ok opened :=
    congrArg Written.answer (value_openInto_image
      ⟨.ping, 42, Octets.zeros 8, Octets.zeros 8⟩ key (by decide) (by decide))
  obtain ⟨resealing, unique, refusing⟩ := sealInto_openInto key
  obtain ⟨-, whole, -, -, resealed⟩ :=
    resealing envelope (List.replicate 20 1) opened accepted
  have room : envelope.length ≤ (List.replicate 50 (2 : UInt8)).length := by
    rw [whole]
    decide
  refine ⟨accepted, whole, (resealed (List.replicate 50 2) room).1, ?_⟩
  obtain ⟨tag, genuine⟩ :=
    unique head .push masked (List.replicate 5 1) rfl (by decide) (by decide)
  obtain ⟨opened, genuine⟩ := (genuine tag).2 rfl
  exact ⟨tag, fun changed different =>
    refusing head masked (List.replicate 5 1) (List.replicate 5 1) tag changed opened
      genuine different⟩

end SealedFrame.Envelope
