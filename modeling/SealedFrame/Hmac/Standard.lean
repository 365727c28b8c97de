import SealedFrame.Octets

/-!
The keyed hash as the standard words it, over any hash of byte strings with blocks of
sixty-four bytes.
-/

namespace SealedFrame.Hmac.Standard

def blockKey (hash : Bytes → Octets 32) (key : Bytes) : Bytes :=
  let short := if key.length ≤ 64 then key else (hash key).toList
  short ++ List.replicate (64 - short.length) 0

/-- The outer hash of the masked key and the inner hash of the masked key and the message. -/
def mac (hash : Bytes → Octets 32) (key message : Bytes) :
    Octets 32 :=
  let masked (mask : UInt8) := Bytes.xor (blockKey hash key) (List.replicate 64 mask)
  hash (masked 0x5c ++ (hash (masked 0x36 ++ message)).toList)

end SealedFrame.Hmac.Standard
