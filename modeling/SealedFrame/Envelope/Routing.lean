import SealedFrame.Envelope.Header
import SealedFrame.Envelope.Flags
import SealedFrame.Envelope.Event

/-!
What a receiver can tell of a message before it knows the key.
-/

namespace SealedFrame.Envelope

/-- Tells an envelope from plain text by its first byte. -/
def isEnvelope (message : Bytes) : Bool :=
  match message with
  | [] => false
  | first :: _ => first != Flags.reserved

/-- The header of an envelope whose flags name a known suite and method. Any version passes. -/
def parseHeader (envelope : Bytes) : Traced (Except Error Header) :=
  match Header.ofBytes envelope with
  | .error error => .report (.shorterThanHeader envelope.length) (.error error)
  | .ok header =>
      match Flags.decode header.flags with
      | .error error => .report (.invalidFlags header.flags error) (.error error)
      | .ok _ => .silent (.ok header)

end SealedFrame.Envelope
