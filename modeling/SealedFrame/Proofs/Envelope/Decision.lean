import SealedFrame.Proofs.Aes.Cipher
import SealedFrame.Proofs.Ccm.Decision
import SealedFrame.Proofs.Envelope.Canonicity

namespace SealedFrame.Envelope

/-! Opening decided on the bytes of the envelope: the first objection in a fixed order, then the
tag. The buffer changes only once the tag is looked at. -/

/-- The first objection to an envelope that can be raised without the key. -/
def objection? (envelope : Bytes) (capacity : Nat) : Option Error :=
  let flags := (envelope.headD 0).toNat
  let length := envelope.length - 29
  if envelope.length < 29 then some .envelopeTooShort
  else if flags = 0x41 then some .reservedFlagsValue
  else if flags / 32 > 4 then some .unsupportedCipher
  else if flags % 8 > 3 then some .invalidMethod
  else if flags / 8 % 4 ≠ 0 then some .unsupportedVersion
  else if flags / 32 ≠ 0 then some .unsupportedCipher
  else if length > 16384 then some .innerFrameTooLarge
  else if capacity < length then some .bufferTooSmall
  else none

/-- The nonce, cut out of the envelope: flags, zeros, half of the device hash, counter. -/
def nonceAt (envelope : Bytes) : Ccm.Nonce :=
  Octets.padded 13 (envelope.take 1 ++ List.replicate 4 0 ++ (envelope.drop 13).take 4 ++
    (envelope.drop 1).take 4)

/-- What stands between header and tag, unmasked as the standards of the cipher and the mode have
it. -/
def frameOf (envelope : Bytes) (key : Key) : Bytes :=
  Ccm.Standard.recovered (Aes.Standard.encrypt key.octets) (nonceAt envelope) (envelope.drop 21)

/-- The tag that the envelope ends in is the one that the standards give to its header and its
unmasked frame. -/
def Authentic (envelope : Bytes) (key : Key) : Prop :=
  Ccm.Standard.Genuine (Aes.Standard.encrypt key.octets) (nonceAt envelope) (envelope.take 21)
    (envelope.drop 21)

instance (envelope : Bytes) (key : Key) : Decidable (Authentic envelope key) :=
  inferInstanceAs (Decidable (_ = _))

@[simp] theorem length_frameOf (envelope : Bytes) (key : Key) :
    (frameOf envelope key).length = envelope.length - 29 := by
  rw [frameOf, Ccm.length_recovered, List.length_drop, Nat.sub_sub]

/-! The objections are those of the screening. -/

theorem objection?_eq_screen (envelope : Bytes) (capacity : Nat) :
    objection? envelope capacity =
      match screen envelope capacity with
      | .error refusal => some refusal.error
      | .ok _ => none := by
  by_cases short : envelope.length < 29
  · have too_short : envelope.length < minLength := short
    simp only [objection?, screen, if_pos short, if_pos too_short]
  · have long : ¬envelope.length < minLength := short
    have header_long : ¬envelope.length < Header.size := by
      rw [Header.size]
      omega
    simp only [objection?, screen, if_neg short, if_neg long, Header.ofBytes,
      if_neg header_long]
    generalize envelope.headD 0 = byte
    by_cases reserved : byte.toNat = 0x41
    · have byte_eq : byte = Flags.reserved := UInt8.toNat_inj.1 reserved
      rw [if_pos reserved, byte_eq]
      rfl
    · have plain : byte ≠ Flags.reserved := fun byte_eq => reserved (congrArg UInt8.toNat byte_eq)
      rw [if_neg reserved]
      by_cases suite_unknown : byte.toNat / 32 > 4
      · simp only [if_pos suite_unknown, Flags.decode_of_unknown_suite plain suite_unknown]
      · rw [if_neg suite_unknown]
        have suite_known := Nat.not_lt.1 suite_unknown
        by_cases method_unknown : byte.toNat % 8 > 3
        · simp only [if_pos method_unknown,
            Flags.decode_of_unknown_method plain suite_known method_unknown]
        · rw [if_neg method_unknown]
          obtain ⟨flags, decoded, suite_eq, version_eq, -⟩ :=
            Flags.decode_of_fields plain suite_known (Nat.not_lt.1 method_unknown)
          have version_iff : flags.version ≠ version ↔ byte.toNat / 8 % 4 ≠ 0 := by
            rw [← version_eq]
            exact not_congr UInt8.toNat_inj.symm
          have suite_iff : (!flags.suite.supported) = true ↔ byte.toNat / 32 ≠ 0 := by
            rw [← suite_eq, Suite.supported_eq]
            simp
          simp only [decoded, version_iff, suite_iff]
          -- The remaining checks stand in the same order on both sides.
          split
          · rfl
          · split
            · rfl
            · split
              · rename_i long
                simp only [if_pos (show envelope.length - minLength > maxFrame from long)]
              · rename_i fits
                simp only [if_neg (show ¬envelope.length - minLength > maxFrame from fits)]
                split
                · rename_i small
                  simp only [if_pos (show capacity < envelope.length - minLength from small)]
                · rename_i room
                  simp only [if_neg (show ¬capacity < envelope.length - minLength from room)]

theorem objection?_mem {envelope : Bytes} {capacity : Nat} {error : Error}
    (found : objection? envelope capacity = some error) :
    error ∈ [.envelopeTooShort, .reservedFlagsValue, .unsupportedCipher, .invalidMethod,
      .unsupportedVersion, .innerFrameTooLarge, .bufferTooSmall] := by
  dsimp only [objection?] at found
  repeat' split at found
  all_goals cases found
  all_goals decide

/-- The room of the buffer is looked at last. -/
theorem objection?_of_capacity (envelope : Bytes) (capacity : Nat) :
    objection? envelope capacity =
      (objection? envelope (envelope.length - 29)).or
        (if capacity < envelope.length - 29 then some .bufferTooSmall else none) := by
  have inward := apply_ite fun earlier : Option Error =>
    earlier.or (if capacity < envelope.length - 29 then some .bufferTooSmall else none)
  simp only [objection?, Nat.lt_irrefl, if_false, inward, Option.some_or, Option.none_or]

/-! The bytes of the envelope against its header. -/

variable {envelope buffer : Bytes} {key : Key} {header : Header}

theorem nonceAt_eq (parsed : Header.ofBytes envelope = .ok header) :
    nonceAt envelope = header.nonce := by
  have front := Header.toBytes_of_ofBytes parsed
  have envelope_eq : envelope = header.toBytes.toList ++ envelope.drop Header.size := by
    rw [front, List.take_append_drop]
  have bytes_eq : envelope.take 1 ++ List.replicate 4 0 ++ (envelope.drop 13).take 4 ++
      (envelope.drop 1).take 4 = header.nonce.toList := by
    rw [envelope_eq]
    simp [Header.toList_toBytes, Header.nonce, Header.nonceOf, Header.counterSize,
      List.drop_append, List.take_append]
  rw [nonceAt, bytes_eq, Octets.padded_toList]

theorem cipher_eq_standard (key : Key) : cipher key = Aes.Standard.encrypt key.octets :=
  funext (Aes.Standard.encrypt_expand key.octets)

/-! The two stages of opening. -/

theorem openInto_of_objection {error : Error}
    (found : objection? envelope buffer.length = some error) (key : Key) :
    (openInto envelope key buffer).value = .reject error buffer := by
  rw [objection?_eq_screen] at found
  rw [openInto_eq_screen]
  cases passed : screen envelope buffer.length with
  | error refusal =>
      rw [passed] at found
      cases found
      rfl
  | ok screened =>
      rw [passed] at found
      cases found

theorem exists_screened {capacity : Nat} (found : objection? envelope capacity = none) :
    ∃ screened : Screened, screen envelope capacity = .ok screened := by
  rw [objection?_eq_screen] at found
  cases passed : screen envelope capacity with
  | error refusal =>
      rw [passed] at found
      cases found
  | ok screened => exact ⟨screened, rfl⟩

/-- Behind a screened header no length is refused, and the tag decides. -/
theorem decryptInto_of_describes {screened : Screened}
    (described : screened.Describes envelope buffer.length) (key : Key) :
    Ccm.decryptInto (cipher key) screened.header.nonce (envelope.take Header.size)
        (envelope.drop Header.size) buffer =
      if Authentic envelope key then
        .accept (envelope.length - 29) (frameOf envelope key ++ buffer.drop (envelope.length - 29))
      else
        .reject .decryptionFailed (List.replicate (envelope.length - 29) 0 ++
          buffer.drop (envelope.length - 29)) := by
  have long : 29 ≤ envelope.length := described.long
  have length : (envelope.drop Header.size).length - 8 = envelope.length - 29 := by
    rw [List.length_drop, Nat.sub_sub]
    rfl
  have tag_fits : ¬(envelope.drop Header.size).length < 8 := by
    rw [List.length_drop, Header.size]
    omega
  have payload_fits : ¬envelope.length - 29 > 65535 :=
    Nat.not_lt.2 (frame_fits described.fits)
  have associated_fits : ¬(envelope.take Header.size).length > 65279 := by
    rw [← Header.toBytes_of_ofBytes described.parsed]
    exact Nat.not_lt.2 (header_fits screened.header)
  have room : ¬buffer.length < envelope.length - 29 := Nat.not_lt.2 described.room
  rw [Ccm.decryptInto_eq_guarded, length, Written.guarded_cons_of_not tag_fits,
    Written.guarded_cons_of_not payload_fits, Written.guarded_cons_of_not associated_fits,
    Written.guarded_cons_of_not room, Written.guarded_nil, cipher_eq_standard,
    ← nonceAt_eq described.parsed]
  rfl

/-- Without an objection the tag decides: the frame is released, or the place it stood in is
wiped. -/
theorem unlock_eq {screened : Screened}
    (described : screened.Describes envelope buffer.length) (key : Key) :
    unlock screened envelope key buffer =
      if Authentic envelope key then
        .report (.openedEnvelope screened.header.counter (envelope.length - 29) screened.method)
          (.accept ⟨screened.header, screened.method, envelope.length - 29⟩
            (frameOf envelope key ++ buffer.drop (envelope.length - 29)))
      else
        .report (.authenticationFailed screened.header.counter)
          (.reject .decryptionFailed (List.replicate (envelope.length - 29) 0 ++
            buffer.drop (envelope.length - 29))) := by
  rw [unlock, decryptInto_of_describes described key]
  by_cases authentic : Authentic envelope key
  · simp only [if_pos authentic]
    rfl
  · simp only [if_neg authentic]
    rfl

theorem value_unlock {screened : Screened}
    (described : screened.Describes envelope buffer.length) (key : Key) :
    (unlock screened envelope key buffer).value =
      if Authentic envelope key then
        .accept ⟨screened.header, screened.method, envelope.length - 29⟩
          (frameOf envelope key ++ buffer.drop (envelope.length - 29))
      else
        .reject .decryptionFailed (List.replicate (envelope.length - 29) 0 ++
          buffer.drop (envelope.length - 29)) := by
  rw [unlock_eq described key]
  split
  · rfl
  · rfl

/-- All that opening can do: object and leave the buffer, release the frame, or wipe its place. -/
theorem openInto_cases (envelope : Bytes) (key : Key) (buffer : Bytes) :
    (∃ error : Error, objection? envelope buffer.length = some error ∧
        (openInto envelope key buffer).value = .reject error buffer) ∨
      (objection? envelope buffer.length = none ∧ Authentic envelope key ∧
        ∃ (header : Header) (method : Method),
          Header.ofBytes envelope = .ok header ∧ header.flags = method.id ∧
          (openInto envelope key buffer).value =
            .accept ⟨header, method, envelope.length - 29⟩
              (frameOf envelope key ++ buffer.drop (envelope.length - 29))) ∨
      (objection? envelope buffer.length = none ∧ ¬Authentic envelope key ∧
        (openInto envelope key buffer).value =
          .reject .decryptionFailed (List.replicate (envelope.length - 29) 0 ++
            buffer.drop (envelope.length - 29))) := by
  cases found : objection? envelope buffer.length with
  | some error => exact .inl ⟨error, rfl, openInto_of_objection found key⟩
  | none =>
      obtain ⟨screened, passed⟩ := exists_screened found
      have described := describes_of_screen passed
      have unlocked : (openInto envelope key buffer).value =
          (unlock screened envelope key buffer).value := by
        simp only [openInto_eq_screen, passed]
      have decided := unlocked.trans (value_unlock described key)
      by_cases authentic : Authentic envelope key
      · rw [if_pos authentic] at decided
        exact .inr (.inl ⟨rfl, authentic, screened.header, screened.method, described.parsed,
          described.flags, decided⟩)
      · rw [if_neg authentic] at decided
        exact .inr (.inr ⟨rfl, authentic, decided⟩)

/-- A refused tag leaves zeros in place of the frame, whatever the envelope and the key. -/
theorem buffer_of_decryptionFailed
    (failed : (openInto envelope key buffer).value.answer = .error .decryptionFailed) :
    (openInto envelope key buffer).value.buffer =
      List.replicate (envelope.length - 29) 0 ++ buffer.drop (envelope.length - 29) := by
  obtain ⟨error, found, refused⟩ | ⟨-, -, header, method, -, -, opened⟩ | ⟨-, -, wiped⟩ :=
    openInto_cases envelope key buffer
  · rw [refused, Written.answer_reject] at failed
    cases failed
    exact absurd (objection?_mem found) (by decide)
  · rw [opened] at failed
    cases failed
  · rw [wiped, Written.buffer_reject]

theorem objection?_of_answer_openInto {error : Error}
    (failed : (openInto envelope key buffer).value.answer = .error error) :
    objection? envelope buffer.length = some error ∨ error = .decryptionFailed := by
  obtain ⟨objection, found, refused⟩ | ⟨-, -, header, method, -, -, opened⟩ | ⟨-, -, wiped⟩ :=
    openInto_cases envelope key buffer
  · rw [refused, Written.answer_reject] at failed
    cases failed
    exact .inl found
  · rw [opened] at failed
    cases failed
  · rw [wiped, Written.answer_reject] at failed
    cases failed
    exact .inr rfl

theorem mem_of_answer_openInto {error : Error}
    (failed : (openInto envelope key buffer).value.answer = .error error) :
    error ∈ [.envelopeTooShort, .reservedFlagsValue, .unsupportedCipher, .invalidMethod,
      .unsupportedVersion, .innerFrameTooLarge, .bufferTooSmall, .decryptionFailed] := by
  rcases objection?_of_answer_openInto failed with found | rfl
  · exact List.mem_append_left [.decryptionFailed] (objection?_mem found)
  · decide

theorem openInto_decision (envelope : Bytes) (key : Key) (buffer : Bytes) :
    let length := envelope.length - 29
    let written := (openInto envelope key buffer).value
    (match objection? envelope buffer.length with
      | some error => written = .reject error buffer
      | none =>
          if Authentic envelope key then
            ∃ (header : Header) (method : Method),
              Header.ofBytes envelope = .ok header ∧ header.flags = method.id ∧
              written = .accept ⟨header, method, length⟩
                (frameOf envelope key ++ buffer.drop length)
          else
            written = .reject .decryptionFailed
              (List.replicate length 0 ++ buffer.drop length)) ∧
      (frameOf envelope key).length = length ∧
      (∀ error : Error, written.answer = .error error →
        error ∈ [.envelopeTooShort, .reservedFlagsValue, .unsupportedCipher, .invalidMethod,
          .unsupportedVersion, .innerFrameTooLarge, .bufferTooSmall, .decryptionFailed]) ∧
      ∀ (other : Bytes) (otherKey : Key), other.length = envelope.length →
        written.answer = .error .decryptionFailed →
        (openInto other otherKey buffer).value.answer = .error .decryptionFailed →
        (openInto other otherKey buffer).value.buffer = written.buffer := by
  intro length written
  refine ⟨?_, length_frameOf envelope key, fun error => mem_of_answer_openInto, ?_⟩
  · obtain ⟨error, found, refused⟩ | ⟨found, authentic, opened⟩ | ⟨found, forged, wiped⟩ :=
      openInto_cases envelope key buffer
    · simp only [found]
      exact refused
    · simp only [found, if_pos authentic]
      exact opened
    · simp only [found, if_neg forged]
      exact wiped
  · intro other otherKey same failed otherFailed
    rw [buffer_of_decryptionFailed otherFailed, same]
    exact (buffer_of_decryptionFailed failed).symm

/-- Behind a header and a masked frame there is always a tag that is refused. -/
theorem exists_forged {header : Header} {method : Method} (flags : header.flags = method.id)
    (masked buffer : Bytes) (short : masked.length ≤ maxFrame)
    (room : masked.length ≤ buffer.length) (key : Key) :
    ∃ tag : Ccm.Tag,
      (openInto (header.toBytes.toList ++ masked ++ tag.toList) key buffer).value.answer =
        .error .decryptionFailed := by
  have other : ∀ genuine : Ccm.Tag, ∃ tag : Ccm.Tag, tag ≠ genuine := by
    intro genuine
    by_cases zero : genuine = Octets.zeros 8
    · exact ⟨Vector.replicate 8 1, by rw [zero]; decide⟩
    · exact ⟨Octets.zeros 8, Ne.symm zero⟩
  obtain ⟨tag, different⟩ := other (Ccm.tag (cipher key) header.nonce header.toBytes.toList
    (Ccm.applyKeystream (cipher key) header.nonce masked))
  refine ⟨tag, ?_⟩
  rw [answer_openInto_tagged flags short, if_neg (Nat.not_lt.2 room), if_neg different]

/-- Two forged envelopes under two keys leave one and the same buffer. -/
theorem openInto_decision_forged :
    let header : Header := ⟨2, 7, Octets.zeros 8, Octets.zeros 8⟩
    let buffer : Bytes := List.replicate 6 9
    ∃ tag otherTag : Octets 8,
      let written := (openInto (header.toBytes.toList ++ List.replicate 4 1 ++ tag.toList)
        ⟨Octets.zeros 16⟩ buffer).value
      let otherWritten := (openInto
        (header.toBytes.toList ++ List.replicate 4 3 ++ otherTag.toList)
        ⟨Vector.replicate 16 5⟩ buffer).value
      written.answer = .error .decryptionFailed ∧
        otherWritten.answer = .error .decryptionFailed ∧
        otherWritten.buffer = written.buffer := by
  intro header buffer
  have flags : header.flags = Method.ping.id := rfl
  obtain ⟨tag, failed⟩ := exists_forged flags (List.replicate 4 1) buffer (by decide)
    (by decide) ⟨Octets.zeros 16⟩
  obtain ⟨otherTag, otherFailed⟩ := exists_forged flags (List.replicate 4 3) buffer (by decide)
    (by decide) ⟨Vector.replicate 16 5⟩
  have same : (header.toBytes.toList ++ List.replicate 4 3 ++ otherTag.toList).length =
      (header.toBytes.toList ++ List.replicate 4 1 ++ tag.toList).length := by
    simp only [List.length_append, List.length_replicate, Vector.length_toList]
  obtain ⟨-, -, -, alike⟩ := openInto_decision
    (header.toBytes.toList ++ List.replicate 4 1 ++ tag.toList) ⟨Octets.zeros 16⟩ buffer
  exact ⟨tag, otherTag, failed, otherFailed,
    alike _ ⟨Vector.replicate 16 5⟩ same failed otherFailed⟩

end SealedFrame.Envelope
