import SealedFrame.Ccm
import SealedFrame.Checked

/-!
The mode with every range, length and number checked, over a block cipher that may itself stop. The
blocks are put together in place, and the text is masked piece by piece.
-/

namespace SealedFrame.Ccm.Strict

open Checked

def lengthSize : Nat := 2

/-- Lengths and block numbers take two bytes. -/
def shortLimit : Nat := 65536

variable (cipher : Block → Checked Block) (nonce : Nonce)

/-- A block of flags, nonce and two closing bytes. -/
def numberedBlock (flags : UInt8) (closing : Bytes) : Checked Block := do
  let flagged ← set (Octets.zeros 16) 0 flags
  let named ← overwrite flagged 1 14 nonce.toList
  let place ← subtract blockSize lengthSize
  overwrite named place blockSize closing

/-! The mask. -/

def counterBlock (index : UInt16) : Checked Block :=
  numberedBlock nonce counterFlags (bigEndian 2 index.toNat)

/-- Masks the pieces of the text into the pieces of the output, until one or the other ends. -/
def maskPieces : UInt16 → List Bytes → List Bytes → Checked (List Bytes)
  | index, piece :: pieces, place :: places => do
      let block ← counterBlock nonce index
      let key ← cipher block
      let next ← narrow shortLimit (index.toNat + 1)
      let masked ← maskPieces (UInt16.ofNat next) pieces places
      .ok (Bytes.fill place (Bytes.xor piece key.toList) :: masked)
  | _, _, places => .ok places

def maskInto (text output : Bytes) : Checked Bytes := do
  let pieces ← maskPieces cipher nonce 1 (Bytes.chunks blockSize text)
    (Bytes.chunks blockSize output)
  .ok pieces.flatten

/-! The code. -/

/-- A short piece leaves the end of the link as it is. -/
def absorb (link : Block) (piece : Bytes) : Checked Block :=
  cipher (link.overwrite 0 (Bytes.xor link.toList piece))

def absorbAssociated (link : Block) (associated : Bytes) : Checked Block := do
  let length ← narrow shortLimit associated.length
  let counted ← overwrite (Octets.zeros 16) 0 2 (bigEndian 2 length)
  let room ← subtract blockSize 2
  let count := min associated.length room
  let front ← slice associated 0 count
  let block ← overwrite counted 2 (2 + count) front
  let link ← absorb cipher link block.toList
  let rest ← slice associated count associated.length
  (Bytes.chunks blockSize rest).foldlM (absorb cipher) link

def mac (associated payload : Bytes) : Checked Block := do
  let flags := if associated.isEmpty then macFlags else macFlags ||| associatedFlag
  let length ← narrow shortLimit payload.length
  let block ← numberedBlock nonce flags (bigEndian 2 length)
  let first ← cipher block
  let link ← (if associated.isEmpty then .ok first else absorbAssociated cipher first associated)
  (Bytes.chunks blockSize payload).foldlM (absorb cipher) link

/-! Sealing and opening. -/

/-- Writes the masked payload and the tag side by side into the first `total` bytes. -/
def writeSealed (associated payload buffer : Bytes) (total : Nat) : Checked (Written Nat) := do
  let code ← mac cipher nonce associated payload
  let place ← slice buffer 0 total
  let (textPlace, tagPlace) ← split place payload.length
  let text ← maskInto cipher nonce payload textPlace
  let block ← counterBlock nonce 0
  let key ← cipher block
  let tag := Bytes.fill tagPlace (Bytes.xor code.toList key.toList)
  .ok (.accept total (text ++ tag ++ buffer.drop total))

def encryptInto (associated payload buffer : Bytes) : Checked (Written Nat) :=
  match lengthError? associated payload.length with
  | some error => .ok (.reject error buffer)
  | none =>
      let total := payload.length + tagSize
      if buffer.length < total then .ok (.reject .bufferTooSmall buffer)
      else writeSealed cipher nonce associated payload buffer total

/-- Unmasks the payload into the first `length` bytes, and wipes them again unless the tag is the
one that was sent. -/
def readSealed (associated input buffer : Bytes) (length : Nat) : Checked (Written Nat) := do
  let (text, sentTag) ← split input length
  let block ← counterBlock nonce 0
  let key ← cipher block
  let received := Bytes.fill (Octets.zeros tagSize).toList (Bytes.xor sentTag key.toList)
  let place ← slice buffer 0 length
  let payload ← maskInto cipher nonce text place
  let code ← mac cipher nonce associated payload
  let expected ← slice code.toList 0 tagSize
  if expected = received then .ok (.accept length (payload ++ buffer.drop length))
  else .ok (.reject .decryptionFailed (List.replicate payload.length 0 ++ buffer.drop length))

def decryptInto (associated input buffer : Bytes) : Checked (Written Nat) :=
  if input.length < tagSize then .ok (.reject .decryptionFailed buffer)
  else do
    let length ← subtract input.length tagSize
    match lengthError? associated length with
    | some error => .ok (.reject error buffer)
    | none =>
        if buffer.length < length then .ok (.reject .bufferTooSmall buffer)
        else readSealed cipher nonce associated input buffer length

end SealedFrame.Ccm.Strict
