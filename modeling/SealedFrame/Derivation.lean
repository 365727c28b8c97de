import SealedFrame.Hmac
import SealedFrame.Key
import SealedFrame.Envelope.Header

/-!
The short hashes that name a token and a device, and the key the two share. A token may be
written with or without its mark in front; the mark is dropped at most once.
-/

namespace SealedFrame.Derivation

def tokenMark : String := "at"

def maxKeySize : Nat := 32

def tokenBytes (token : String) : Bytes :=
  let mark := Bytes.ofText tokenMark
  let bytes := Bytes.ofText token
  if mark.isPrefixOf bytes then bytes.drop mark.length else bytes

def authHash (token : String) : ShortHash :=
  (Sha256.hash (tokenBytes token)).first 8

def deviceHash (serial : String) : ShortHash :=
  (Sha256.hash (Bytes.ofText serial)).first 8

/-- The bytes that keys of every size start with. -/
def keyMaterial (token serial : String) : Digest :=
  Hmac.mac (tokenBytes token) (Bytes.ofText serial)

def keyInto (token serial : String) (buffer : Bytes) : Written Unit :=
  if buffer.length > maxKeySize then .reject .invalidKeySize buffer
  else .accept () (buffer.overwriteFront ((keyMaterial token serial).toList.take buffer.length))

def key (token serial : String) : Key :=
  ⟨(keyMaterial token serial).first 16⟩

end SealedFrame.Derivation
