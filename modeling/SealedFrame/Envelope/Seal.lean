import SealedFrame.Aes
import SealedFrame.Ccm
import SealedFrame.Key
import SealedFrame.Envelope.Routing

/-!
Putting a frame into an envelope: the header, the masked frame and the tag over both, one after
the other.
-/

namespace SealedFrame.Envelope

/-- The version that envelopes are sealed with and must carry to be opened. -/
def version : UInt8 := 0

def maxFrame : Nat := 16384

def lengthFor (frameLength : Nat) : Nat :=
  Header.size + frameLength + Ccm.tagSize

def minLength : Nat := lengthFor 0

def maxLength : Nat := lengthFor maxFrame

/-- What a sender chooses for the header of an envelope. -/
structure Label where
  method : Method
  counter : UInt32
  authHash : ShortHash
  deviceHash : ShortHash
  deriving DecidableEq

def Label.flags (label : Label) : Flags :=
  ⟨.aes128Ccm, version, label.method⟩

def Label.header (label : Label) (flags : UInt8) : Header :=
  ⟨flags, label.counter, label.authHash, label.deviceHash⟩

/-- Seals a frame into the front of a buffer and answers the length of the envelope. The body is
written behind the place of the header, and the header once the body stands. -/
def sealInto (frame : Bytes) (label : Label) (key : Key) (buffer : Bytes) :
    Traced (Written Nat) :=
  let total := lengthFor frame.length
  if frame.length > maxFrame then
    .report (.frameTooLarge frame.length) (.reject .innerFrameTooLarge buffer)
  else if buffer.length < total then
    .report (.sealBufferTooSmall total buffer.length) (.reject .bufferTooSmall buffer)
  else
    match label.flags.encode with
    | .error error => .silent (.reject error buffer)
    | .ok flags =>
        let header := label.header flags
        let head := buffer.take Header.size
        let rest := buffer.drop total
        let body := Ccm.encryptInto (Aes.Schedule.expand key.octets).encrypt header.nonce
          header.toBytes.toList frame ((buffer.take total).drop Header.size)
        match body.answer with
        | .error error => .silent (.reject error (head ++ body.buffer ++ rest))
        | .ok _ =>
            .report (.sealedEnvelope label.counter total label.method)
              (.accept total (header.toBytes.toList ++ body.buffer ++ rest))

/-- The envelope around a frame. A frame that is too long is refused without a report. -/
def sealed (frame : Bytes) (label : Label) (key : Key) : Traced (Except Error Bytes) :=
  if frame.length > maxFrame then .silent (.error .innerFrameTooLarge)
  else
    (sealInto frame label key (List.replicate (lengthFor frame.length) 0)).map Written.contents

end SealedFrame.Envelope
