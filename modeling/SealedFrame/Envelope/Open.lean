import SealedFrame.Envelope.Seal

/-!
Taking a frame out of its envelope. The header is checked first, the sizes next and the tag last,
so that nothing is written into the buffer for an envelope refused before its tag.
-/

namespace SealedFrame.Envelope

structure Opened where
  header : Header
  method : Method
  length : Nat
  deriving DecidableEq

def openInto (envelope : Bytes) (key : Key) (buffer : Bytes) : Traced (Written Opened) :=
  if envelope.length < minLength then
    .report (.tooShortToOpen envelope.length) (.reject .envelopeTooShort buffer)
  else
    let parsed := parseHeader envelope
    match parsed.value with
    | .error error => ⟨.reject error buffer, parsed.events⟩
    | .ok header =>
        match Flags.decode header.flags with
        | .error error => .silent (.reject error buffer)
        | .ok flags =>
            let sealedFrame := envelope.drop Header.size
            let length := sealedFrame.length - Ccm.tagSize
            if flags.version ≠ version then
              .report (.unsupportedVersion flags.version) (.reject .unsupportedVersion buffer)
            else if !flags.suite.supported then
              .report (.suiteNotImplemented flags.suite.id) (.reject .unsupportedCipher buffer)
            else if length > maxFrame then
              .report (.oversizedFrame length) (.reject .innerFrameTooLarge buffer)
            else if buffer.length < length then
              .report (.openBufferTooSmall length buffer.length) (.reject .bufferTooSmall buffer)
            else
              let written := Ccm.decryptInto (Aes.Schedule.expand key.octets).encrypt
                header.nonce (envelope.take Header.size) sealedFrame buffer
              match written.answer with
              | .error error =>
                  .report (.authenticationFailed header.counter) (.reject error written.buffer)
              | .ok count =>
                  .report (.openedEnvelope header.counter count flags.method)
                    (.accept ⟨header, flags.method, count⟩ written.buffer)

structure Contents where
  header : Header
  method : Method
  frame : Bytes
  deriving DecidableEq

/-- The contents of an envelope, in a buffer just long enough for the frame. -/
def opened (envelope : Bytes) (key : Key) : Traced (Except Error Contents) :=
  (openInto envelope key (List.replicate (envelope.length - minLength) 0)).map fun written =>
    match written.answer with
    | .error error => .error error
    | .ok opened => .ok ⟨opened.header, opened.method, written.buffer.take opened.length⟩

end SealedFrame.Envelope
