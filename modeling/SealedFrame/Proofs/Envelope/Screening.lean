import SealedFrame.Envelope.Open
import SealedFrame.Proofs.Envelope.HeaderCodec

namespace SealedFrame.Envelope

/-! Opening in two stages: the checks that need no key, and the tag. The first stage sees only the
envelope and the size of the buffer, and writes nothing. -/

/-- Why an envelope is refused, and what is reported of it. -/
structure Refusal where
  event : Event
  error : Error

structure Screened where
  header : Header
  method : Method

def screen (envelope : Bytes) (capacity : Nat) : Except Refusal Screened :=
  if envelope.length < minLength then
    .error ⟨.tooShortToOpen envelope.length, .envelopeTooShort⟩
  else
    match Header.ofBytes envelope with
    | .error error => .error ⟨.shorterThanHeader envelope.length, error⟩
    | .ok header =>
        match Flags.decode header.flags with
        | .error error => .error ⟨.invalidFlags header.flags error, error⟩
        | .ok flags =>
            let length := envelope.length - minLength
            if flags.version ≠ version then
              .error ⟨.unsupportedVersion flags.version, .unsupportedVersion⟩
            else if !flags.suite.supported then
              .error ⟨.suiteNotImplemented flags.suite.id, .unsupportedCipher⟩
            else if length > maxFrame then
              .error ⟨.oversizedFrame length, .innerFrameTooLarge⟩
            else if capacity < length then
              .error ⟨.openBufferTooSmall length capacity, .bufferTooSmall⟩
            else .ok ⟨header, flags.method⟩

def cipher (key : Key) : Block → Block :=
  (Aes.Schedule.expand key.octets).encrypt

def unlock (screened : Screened) (envelope : Bytes) (key : Key) (buffer : Bytes) :
    Traced (Written Opened) :=
  let written := Ccm.decryptInto (cipher key) screened.header.nonce
    (envelope.take Header.size) (envelope.drop Header.size) buffer
  match written.answer with
  | .error error =>
      .report (.authenticationFailed screened.header.counter) (.reject error written.buffer)
  | .ok count =>
      .report (.openedEnvelope screened.header.counter count screened.method)
        (.accept ⟨screened.header, screened.method, count⟩ written.buffer)

theorem openInto_eq_screen (envelope : Bytes) (key : Key) (buffer : Bytes) :
    openInto envelope key buffer =
      match screen envelope buffer.length with
      | .error refusal => .report refusal.event (.reject refusal.error buffer)
      | .ok screened => unlock screened envelope key buffer := by
  have length : (envelope.drop Header.size).length - Ccm.tagSize =
      envelope.length - minLength := by
    rw [List.length_drop, Nat.sub_sub]
    rfl
  unfold openInto screen
  by_cases short : envelope.length < minLength
  · rw [if_pos short, if_pos short]
  · rw [if_neg short, if_neg short]
    cases parsed : Header.ofBytes envelope with
    | error error =>
        simp only [parseHeader, parsed, Traced.value_report, Traced.events_report]
        rfl
    | ok header =>
        cases decoded : Flags.decode header.flags with
        | error error =>
            simp only [parseHeader, parsed, decoded, Traced.value_report, Traced.events_report]
            rfl
        | ok flags =>
            simp only [parseHeader, parsed, decoded, Traced.value_silent, length]
            -- The remaining checks stand in the same order on both sides.
            split
            · rfl
            · split
              · rfl
              · split
                · rfl
                · split
                  · rfl
                  · rfl

/-- For a header with the flags of a method, only the two sizes are left to check. -/
theorem screen_of_flags {envelope : Bytes} {header : Header} {method : Method}
    (long : minLength ≤ envelope.length) (parsed : Header.ofBytes envelope = .ok header)
    (flags : header.flags = method.id) (capacity : Nat) :
    screen envelope capacity =
      let length := envelope.length - minLength
      if length > maxFrame then .error ⟨.oversizedFrame length, .innerFrameTooLarge⟩
      else if capacity < length then
        .error ⟨.openBufferTooSmall length capacity, .bufferTooSmall⟩
      else .ok ⟨header, method⟩ := by
  have decoded : Flags.decode header.flags = .ok ⟨.aes128Ccm, 0, method⟩ := by
    rw [flags, Flags.decode_id]
  rw [screen, if_neg (Nat.not_lt.2 long)]
  simp only [parsed, decoded]
  rfl

theorem screen_eq_ok {envelope : Bytes} {header : Header} {method : Method} {capacity : Nat}
    (long : minLength ≤ envelope.length) (parsed : Header.ofBytes envelope = .ok header)
    (flags : header.flags = method.id) (fits : envelope.length - minLength ≤ maxFrame)
    (room : envelope.length - minLength ≤ capacity) :
    screen envelope capacity = .ok ⟨header, method⟩ := by
  rw [screen_of_flags long parsed flags]
  simp only [if_neg (Nat.not_lt.2 fits), if_neg (Nat.not_lt.2 room)]

/-- What a screened envelope is known to be. -/
structure Screened.Describes (screened : Screened) (envelope : Bytes) (capacity : Nat) :
    Prop where
  long : minLength ≤ envelope.length
  parsed : Header.ofBytes envelope = .ok screened.header
  flags : screened.header.flags = screened.method.id
  fits : envelope.length - minLength ≤ maxFrame
  room : envelope.length - minLength ≤ capacity

theorem describes_of_screen {envelope : Bytes} {capacity : Nat} {screened : Screened}
    (passed : screen envelope capacity = .ok screened) :
    screened.Describes envelope capacity := by
  unfold screen at passed
  split at passed
  · cases passed
  · rename_i long
    split at passed
    · cases passed
    · rename_i header parsed
      split at passed
      · cases passed
      · rename_i flags decoded
        dsimp only at passed
        split at passed
        · cases passed
        · rename_i version_ok
          split at passed
          · cases passed
          · rename_i supported
            split at passed
            · cases passed
            · rename_i fits
              split at passed
              · cases passed
              · rename_i room
                cases passed
                exact {
                  long := Nat.not_lt.1 long
                  parsed := parsed
                  flags := Flags.eq_id_of_decode decoded (Decidable.not_not.1 version_ok)
                    (by simpa using supported)
                  fits := Nat.not_lt.1 fits
                  room := Nat.not_lt.1 room }

theorem describes_of_answer_openInto {envelope buffer : Bytes} {key : Key} {opened : Opened}
    (accepted : (openInto envelope key buffer).value.answer = .ok opened) :
    let screened : Screened := ⟨opened.header, opened.method⟩
    let written := Ccm.decryptInto (cipher key) opened.header.nonce
      (envelope.take Header.size) (envelope.drop Header.size) buffer
    screened.Describes envelope buffer.length ∧ written.answer = .ok opened.length ∧
      (openInto envelope key buffer).value.buffer = written.buffer := by
  rw [openInto_eq_screen] at accepted ⊢
  cases passed : screen envelope buffer.length with
  | error refusal =>
      rw [passed] at accepted
      cases accepted
  | ok screened =>
      have described := describes_of_screen passed
      simp only [passed, unlock] at accepted ⊢
      cases answered : (Ccm.decryptInto (cipher key) screened.header.nonce
          (envelope.take Header.size) (envelope.drop Header.size) buffer).answer with
      | error error =>
          rw [answered] at accepted
          cases accepted
      | ok count =>
          rw [answered] at accepted
          cases accepted
          exact ⟨described, answered, rfl⟩

end SealedFrame.Envelope
