import SealedFrame.Ccm.Mac
import SealedFrame.Written

/-!
Authenticated encryption with any block cipher: tags of eight bytes, lengths of two. A sealed
text is the masked payload followed by its tag.
-/

namespace SealedFrame.Ccm

def maxPayload : Nat := 65535

/-- The longest associated data whose length takes two bytes. -/
def maxAssociated : Nat := 0xfeff

def lengthError? (associated : Bytes) (payloadLength : Nat) : Option Error :=
  if payloadLength > maxPayload then some .innerFrameTooLarge
  else if associated.length > maxAssociated then some .aadTooLarge
  else none

def sealed (cipher : Block → Block) (nonce : Nonce) (associated payload : Bytes) : Bytes :=
  applyKeystream cipher nonce payload ++ (tag cipher nonce associated payload).toList

def encryptInto (cipher : Block → Block) (nonce : Nonce) (associated payload buffer : Bytes) :
    Written Nat :=
  match lengthError? associated payload.length with
  | some error => .reject error buffer
  | none =>
      let total := payload.length + tagSize
      if buffer.length < total then .reject .bufferTooSmall buffer
      else .accept total (buffer.overwriteFront (sealed cipher nonce associated payload))

/-- Opens a sealed text into the front of a buffer and answers the length of the payload. The
payload is unmasked before its tag can be checked; where the tag is wrong it is wiped again. -/
def decryptInto (cipher : Block → Block) (nonce : Nonce) (associated input buffer : Bytes) :
    Written Nat :=
  if input.length < tagSize then .reject .decryptionFailed buffer
  else
    let length := input.length - tagSize
    match lengthError? associated length with
    | some error => .reject error buffer
    | none =>
        if buffer.length < length then .reject .bufferTooSmall buffer
        else
          let payload := applyKeystream cipher nonce (input.take length)
          let filled := buffer.overwriteFront payload
          if (tag cipher nonce associated payload).toList = input.drop length then
            .accept length filled
          else .reject .decryptionFailed (filled.wipeFront length)

end SealedFrame.Ccm
