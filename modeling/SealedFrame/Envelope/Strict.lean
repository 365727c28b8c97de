import SealedFrame.Aes.Strict
import SealedFrame.Ccm.Strict
import SealedFrame.Envelope.Open

/-!
Envelopes with every range, length and place checked, under the block cipher and the mode that check
theirs.
-/

namespace SealedFrame

open Checked

namespace Header.Strict

def toBytes (header : Header) : Checked (Octets 21) := do
  let flagged ← set (Octets.zeros 21) 0 header.flags
  let counterStart := flagsSize
  let counted ← overwrite flagged counterStart (counterStart + counterSize)
    (bigEndian counterSize header.counter.toNat)
  let authStart := counterStart + counterSize
  let named ← overwrite counted authStart (authStart + hashSize) header.authHash.toList
  let deviceStart := authStart + hashSize
  overwrite named deviceStart (deviceStart + hashSize) header.deviceHash.toList

def ofBytes (bytes : Bytes) : Checked (Except Error Header) :=
  if bytes.length < size then .ok (.error .envelopeTooShort)
  else do
    let flags ← byteAt bytes 0
    let first ← byteAt bytes 1
    let second ← byteAt bytes 2
    let third ← byteAt bytes 3
    let fourth ← byteAt bytes 4
    let auth ← slice bytes 5 13
    let authHash ← overwrite (Octets.zeros 8) 0 hashSize auth
    let device ← slice bytes 13 21
    let deviceHash ← overwrite (Octets.zeros 8) 0 hashSize device
    .ok (.ok {
      flags := flags
      counter := UInt32.ofNat (ofBigEndian [first, second, third, fourth])
      authHash := authHash
      deviceHash := deviceHash })

def nonceOf (flags : UInt8) (deviceHash : ShortHash) (counter : UInt32) :
    Checked (Octets 13) := do
  let flagged ← set (Octets.zeros 13) 0 flags
  let half ← slice deviceHash.toList 0 4
  let named ← overwrite flagged 5 9 half
  overwrite named 9 nonceSize (bigEndian counterSize counter.toNat)

end Header.Strict

namespace Envelope.Strict

def parseHeader (envelope : Bytes) : Checked (Traced (Except Error Header)) := do
  let parsed ← Header.Strict.ofBytes envelope
  match parsed with
  | .error error => .ok (.report (.shorterThanHeader envelope.length) (.error error))
  | .ok header =>
      match Flags.decode header.flags with
      | .error error => .ok (.report (.invalidFlags header.flags error) (.error error))
      | .ok _ => .ok (.silent (.ok header))

/-- Writes the body behind the place of the header, and the header once the body stands. -/
def writeEnvelope (frame : Bytes) (label : Label) (key : Key) (buffer : Bytes) (flags : UInt8) :
    Checked (Traced (Written Nat)) := do
  let total := lengthFor frame.length
  let head ← Header.Strict.toBytes (label.header flags)
  let nonce ← Header.Strict.nonceOf flags label.deviceHash label.counter
  let schedule ← Aes.Strict.expand key.octets
  let place ← slice buffer 0 total
  let (headPlace, bodyPlace) ← split place Header.size
  let body ← Ccm.Strict.encryptInto (Aes.Strict.encrypt schedule) nonce head.toList frame bodyPlace
  match body.answer with
  | .error error => .ok (.silent (.reject error (headPlace ++ body.buffer ++ buffer.drop total)))
  | .ok _ => do
      let written ← replace headPlace head.toList
      .ok (.report (.sealedEnvelope label.counter total label.method)
        (.accept total (written ++ body.buffer ++ buffer.drop total)))

def sealInto (frame : Bytes) (label : Label) (key : Key) (buffer : Bytes) :
    Checked (Traced (Written Nat)) :=
  if frame.length > maxFrame then
    .ok (.report (.frameTooLarge frame.length) (.reject .innerFrameTooLarge buffer))
  else
    let total := lengthFor frame.length
    if buffer.length < total then
      .ok (.report (.sealBufferTooSmall total buffer.length) (.reject .bufferTooSmall buffer))
    else
      match label.flags.encode with
      | .error error => .ok (.silent (.reject error buffer))
      | .ok flags => writeEnvelope frame label key buffer flags

def sealed (frame : Bytes) (label : Label) (key : Key) :
    Checked (Traced (Except Error Bytes)) :=
  if frame.length > maxFrame then .ok (.silent (.error .innerFrameTooLarge))
  else do
    let written ← sealInto frame label key (List.replicate (lengthFor frame.length) 0)
    .ok (written.map Written.contents)

/-- Reads the frame of an envelope whose header has passed. -/
def readFrame (envelope sealedFrame : Bytes) (key : Key) (buffer : Bytes) (header : Header)
    (method : Method) : Checked (Traced (Written Opened)) := do
  let head ← slice envelope 0 Header.size
  let nonce ← Header.Strict.nonceOf header.flags header.deviceHash header.counter
  let schedule ← Aes.Strict.expand key.octets
  let written ← Ccm.Strict.decryptInto (Aes.Strict.encrypt schedule) nonce head sealedFrame buffer
  match written.answer with
  | .error error =>
      .ok (.report (.authenticationFailed header.counter) (.reject error written.buffer))
  | .ok count =>
      .ok (.report (.openedEnvelope header.counter count method)
        (.accept ⟨header, method, count⟩ written.buffer))

def openInto (envelope : Bytes) (key : Key) (buffer : Bytes) :
    Checked (Traced (Written Opened)) :=
  if envelope.length < minLength then
    .ok (.report (.tooShortToOpen envelope.length) (.reject .envelopeTooShort buffer))
  else do
    let parsed ← parseHeader envelope
    match parsed.value with
    | .error error => .ok ⟨.reject error buffer, parsed.events⟩
    | .ok header =>
        match Flags.decode header.flags with
        | .error error => .ok (.silent (.reject error buffer))
        | .ok flags =>
            if flags.version ≠ version then
              .ok (.report (.unsupportedVersion flags.version)
                (.reject .unsupportedVersion buffer))
            else if !flags.suite.supported then
              .ok (.report (.suiteNotImplemented flags.suite.id)
                (.reject .unsupportedCipher buffer))
            else do
              let sealedFrame ← slice envelope Header.size envelope.length
              let length ← subtract sealedFrame.length Ccm.tagSize
              if length > maxFrame then
                .ok (.report (.oversizedFrame length) (.reject .innerFrameTooLarge buffer))
              else if buffer.length < length then
                .ok (.report (.openBufferTooSmall length buffer.length)
                  (.reject .bufferTooSmall buffer))
              else readFrame envelope sealedFrame key buffer header flags.method

def opened (envelope : Bytes) (key : Key) : Checked (Traced (Except Error Contents)) := do
  let written ← openInto envelope key (List.replicate (envelope.length - minLength) 0)
  .ok (written.map fun written =>
    match written.answer with
    | .error error => .error error
    | .ok opened => .ok ⟨opened.header, opened.method, written.buffer.take opened.length⟩)

end Envelope.Strict

end SealedFrame
