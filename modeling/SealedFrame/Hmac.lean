import SealedFrame.Sha256

namespace SealedFrame

structure Hmac where
  inner : Sha256.Hasher
  outer : Sha256.Hasher

namespace Hmac

/-- The key filled up to one block. A key longer than a block is replaced by its hash. -/
def blockKey (key : Bytes) : Octets 64 :=
  if key.length > 64 then Octets.padded 64 (Sha256.hash key).toList
  else Octets.padded 64 key

def pad (key : Bytes) (mask : UInt8) : Bytes :=
  (blockKey key).toList.map (· ^^^ mask)

def innerMask : UInt8 := 0x36

def outerMask : UInt8 := 0x5c

def new (key : Bytes) : Hmac where
  inner := Sha256.Hasher.new.update (pad key innerMask)
  outer := Sha256.Hasher.new.update (pad key outerMask)

def update (hmac : Hmac) (bytes : Bytes) : Hmac :=
  { hmac with inner := hmac.inner.update bytes }

def finalize (hmac : Hmac) : Digest :=
  (hmac.outer.update hmac.inner.finalize.toList).finalize

def erase (hmac : Hmac) : Hmac where
  inner := hmac.inner.erase
  outer := hmac.outer.erase

def mac (key message : Bytes) : Digest :=
  ((new key).update message).finalize

end Hmac

end SealedFrame
