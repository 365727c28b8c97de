import SealedFrame.Proofs.Envelope.Decision

namespace SealedFrame.Envelope

/-! Routing against opening. Both read the same header and put the same questions to its flags; the
version, the suite and the sizes are asked for by opening alone, and only after that. -/

variable {envelope other buffer : Bytes} {key : Key} {header : Header} {error : Error}

/-! What routing answers. -/

theorem value_parseHeader (envelope : Bytes) :
    (parseHeader envelope).value =
      match Header.ofBytes envelope with
      | .error error => .error error
      | .ok header =>
          match Flags.decode header.flags with
          | .error error => .error error
          | .ok _ => .ok header := by
  rw [parseHeader]
  cases parsed : Header.ofBytes envelope with
  | error refusal => rfl
  | ok header =>
      cases decoded : Flags.decode header.flags with
      | error refusal => simp only [decoded, Traced.value_report]
      | ok flags => simp only [decoded, Traced.value_silent]

theorem exists_flags_of_parseHeader (routed : (parseHeader envelope).value = .ok header) :
    Header.ofBytes envelope = .ok header ∧
      ∃ flags : Flags, Flags.decode header.flags = .ok flags := by
  rw [value_parseHeader] at routed
  split at routed
  · cases routed
  · rename_i read parsed
    split at routed
    · cases routed
    · rename_i flags decoded
      cases routed
      exact ⟨parsed, flags, decoded⟩

theorem value_parseHeader_of_flags {flags : Flags} (parsed : Header.ofBytes envelope = .ok header)
    (decoded : Flags.decode header.flags = .ok flags) :
    (parseHeader envelope).value = .ok header := by
  simp only [value_parseHeader, parsed, decoded]

/-- A message is refused for its length, or for the flags that it starts with. -/
theorem refused_of_parseHeader (refused : (parseHeader envelope).value = .error error) :
    (envelope.length < Header.size ∧ error = .envelopeTooShort) ∨
      ∃ header : Header, Header.ofBytes envelope = .ok header ∧
        Flags.decode header.flags = .error error := by
  rw [value_parseHeader] at refused
  split at refused
  · rename_i unread
    cases refused
    exact .inl ((Header.ofBytes_eq_error_iff envelope error).1 unread)
  · rename_i header parsed
    split at refused
    · rename_i unread
      cases refused
      exact .inr ⟨header, parsed, unread⟩
    · cases refused

theorem mem_of_parseHeader (refused : (parseHeader envelope).value = .error error) :
    error ∈ [.envelopeTooShort, .reservedFlagsValue, .unsupportedCipher, .invalidMethod] := by
  obtain ⟨-, rfl⟩ | ⟨header, -, unread⟩ := refused_of_parseHeader refused
  · decide
  · exact List.mem_cons_of_mem _ (Flags.mem_of_decode unread)

/-- What is routed as an envelope is told from plain text. -/
theorem isEnvelope_of_parseHeader (routed : (parseHeader envelope).value = .ok header) :
    isEnvelope envelope = true := by
  obtain ⟨parsed, flags, decoded⟩ := exists_flags_of_parseHeader routed
  obtain ⟨rest, rfl⟩ := Header.eq_flags_cons_of_ofBytes parsed
  exact bne_iff_ne.2 (Flags.ne_reserved_of_decode decoded)

/-! Opening starts with what routing asks. -/

theorem parseHeader_of_openInto {opened : Opened}
    (accepted : (openInto envelope key buffer).value.answer = .ok opened) :
    (parseHeader envelope).value = .ok opened.header := by
  have described := (describes_of_answer_openInto accepted).1
  have decoded : Flags.decode opened.header.flags = .ok ⟨.aes128Ccm, 0, opened.method⟩ := by
    rw [described.flags]
    exact Flags.decode_id opened.method
  exact value_parseHeader_of_flags described.parsed decoded

theorem openInto_of_short (short : envelope.length < 29) (key : Key) (buffer : Bytes) :
    (openInto envelope key buffer).value = .reject .envelopeTooShort buffer := by
  have found : objection? envelope buffer.length = some .envelopeTooShort := if_pos short
  exact openInto_of_objection found key

theorem openInto_of_parseHeader (long : 29 ≤ envelope.length)
    (refused : (parseHeader envelope).value = .error error) (key : Key) (buffer : Bytes) :
    (openInto envelope key buffer).value = .reject error buffer := by
  obtain ⟨short, -⟩ | ⟨header, parsed, unread⟩ := refused_of_parseHeader refused
  · rw [Header.size] at short
    omega
  · have opens : ¬envelope.length < minLength := Nat.not_lt.2 long
    simp only [openInto_eq_screen, screen, if_neg opens, parsed, unread, Traced.value_report]

/-- What opening finds wrong beyond the questions of routing, it finds in a routed envelope. -/
theorem exists_parseHeader_of_openInto
    (later : error ∈
      [.innerFrameTooLarge, .bufferTooSmall, .unsupportedVersion, .decryptionFailed])
    (failed : (openInto envelope key buffer).value.answer = .error error) :
    ∃ header : Header, (parseHeader envelope).value = .ok header := by
  have apart : ∀ earlier ∈
      [Error.envelopeTooShort, .reservedFlagsValue, .unsupportedCipher, .invalidMethod],
      earlier ∉ [.innerFrameTooLarge, .bufferTooSmall, .unsupportedVersion,
        .decryptionFailed] := by
    decide
  cases routed : (parseHeader envelope).value with
  | ok header => exact ⟨header, rfl⟩
  | error refusal =>
      rcases Nat.lt_or_ge envelope.length 29 with short | long
      · rw [openInto_of_short short, Written.answer_reject] at failed
        cases failed
        exact absurd later (by decide)
      · rw [openInto_of_parseHeader long routed, Written.answer_reject] at failed
        cases failed
        exact absurd later (apart _ (mem_of_parseHeader routed))

/-! The body has no part in routing. -/

theorem value_parseHeader_congr (reaches : 21 ≤ envelope.length ↔ 21 ≤ other.length)
    (front : 21 ≤ envelope.length → envelope.take 21 = other.take 21) :
    (parseHeader other).value = (parseHeader envelope).value := by
  have parsed : Header.ofBytes other = Header.ofBytes envelope := by
    by_cases long : 21 ≤ envelope.length
    · exact (Header.ofBytes_congr (front long)).symm
    · have short : envelope.length < Header.size := Nat.not_le.1 long
      have other_short : other.length < Header.size := Nat.not_le.1 (mt reaches.2 long)
      rw [Header.ofBytes, if_pos other_short, Header.ofBytes, if_pos short]
  rw [value_parseHeader, value_parseHeader, parsed]

theorem isEnvelope_append (head : Octets 21) (body : Bytes) :
    isEnvelope (head.toList ++ body) = isEnvelope head.toList := by
  obtain ⟨header, rfl⟩ := Header.exists_toBytes_eq head
  rfl

theorem value_parseHeader_append (head : Octets 21) (body : Bytes) :
    (parseHeader (head.toList ++ body)).value = (parseHeader head.toList).value := by
  have length : head.toList.length = 21 := Vector.length_toList
  apply value_parseHeader_congr
  · rw [List.length_append]
    omega
  · intro _
    exact (List.take_append_of_le_length (Nat.le_of_eq length.symm)).symm

theorem routes_as_it_opens (envelope : Bytes) (key : Key) (buffer : Bytes) :
    let routed := (parseHeader envelope).value
    let call := (openInto envelope key buffer).value
    (∀ opened : Opened, call.answer = .ok opened →
        routed = .ok opened.header ∧ isEnvelope envelope = true) ∧
      (∀ error : Error, 29 ≤ envelope.length → routed = .error error →
        call = .reject error buffer) ∧
      (∀ error : Error,
        error ∈ [.innerFrameTooLarge, .bufferTooSmall, .unsupportedVersion, .decryptionFailed] →
        call.answer = .error error → ∃ header : Header, routed = .ok header) ∧
      (∀ header : Header, routed = .ok header → isEnvelope envelope = true) ∧
      (∀ other : Bytes, (21 ≤ envelope.length ↔ 21 ≤ other.length) →
        (21 ≤ envelope.length → envelope.take 21 = other.take 21) →
        (parseHeader other).value = routed) ∧
      ∀ (head : Octets 21) (body : Bytes),
        (parseHeader (head.toList ++ body)).value = (parseHeader head.toList).value ∧
          isEnvelope (head.toList ++ body) = isEnvelope head.toList := by
  intro routed call
  refine ⟨?_, ?_, ?_, ?_, ?_, ?_⟩
  · intro opened accepted
    have read : routed = .ok opened.header := parseHeader_of_openInto accepted
    exact ⟨read, isEnvelope_of_parseHeader read⟩
  · intro error long refused
    exact openInto_of_parseHeader long refused key buffer
  · intro error later failed
    exact exists_parseHeader_of_openInto later failed
  · intro header read
    exact isEnvelope_of_parseHeader read
  · intro other reaches front
    exact value_parseHeader_congr reaches front
  · intro head body
    exact ⟨value_parseHeader_append head body, isEnvelope_append head body⟩

/-- An envelope that opens, one with the reserved flags, and one of another version: what each is
routed as, and what its opening says. -/
theorem routes_as_it_opens_of_three :
    let key : Key := ⟨Octets.zeros 16⟩
    let label : Label := ⟨.ping, 9, Octets.zeros 8, Octets.zeros 8⟩
    let genuine := image [1, 2, 3] label key
    let reserved : Bytes := 0x41 :: List.replicate 28 0
    let versioned : Bytes := 0x08 :: List.replicate 28 0
    (parseHeader genuine).value = .ok label.sealedHeader ∧ isEnvelope genuine = true ∧
      (openInto reserved key [5]).value = .reject .reservedFlagsValue [5] ∧
      (∃ header : Header, (parseHeader versioned).value = .ok header) ∧
      (parseHeader (0x08 :: List.replicate 40 0)).value = (parseHeader versioned).value := by
  intro key label genuine reserved versioned
  have accepted : (openInto genuine key [0, 0, 0]).value.answer =
      .ok ⟨label.sealedHeader, .ping, 3⟩ := by
    rw [value_openInto_image label key (by decide) (by decide)]
    rfl
  have failed : (openInto versioned key [5]).value.answer = .error .unsupportedVersion := by
    have found : objection? versioned 1 = some .unsupportedVersion := by decide
    rw [openInto_of_objection found, Written.answer_reject]
  obtain ⟨opens, -⟩ := routes_as_it_opens genuine key [0, 0, 0]
  obtain ⟨-, refuses, -⟩ := routes_as_it_opens reserved key [5]
  obtain ⟨-, -, reads, -, alike, -⟩ := routes_as_it_opens versioned key [5]
  obtain ⟨read, told⟩ := opens _ accepted
  exact ⟨read, told, refuses .reservedFlagsValue (by decide) rfl,
    reads .unsupportedVersion (by decide) failed, alike _ (by decide) fun _ => rfl⟩

end SealedFrame.Envelope
