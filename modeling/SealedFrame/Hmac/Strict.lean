import SealedFrame.Hmac
import SealedFrame.Sha256.Strict

/-! The keyed hash over the hash that checks every place. -/

namespace SealedFrame.Hmac.Strict

open Checked

def blockKey (key : Bytes) : Checked (Octets 64) :=
  if key.length > 64 then do
    let digest ← Sha256.Strict.hash key
    overwrite (Octets.zeros 64) 0 Sha256.digestSize digest.toList
  else overwrite (Octets.zeros 64) 0 key.length key

/-- The key under a mask, written over what the pad held before. -/
def pad (before : Octets 64) (blockKey : Octets 64) (mask : UInt8) : Octets 64 :=
  before.overwrite 0 (blockKey.toList.map (· ^^^ mask))

def new (key : Bytes) : Checked Hmac := do
  let blockKey ← blockKey key
  let innerPad := pad (Octets.zeros 64) blockKey innerMask
  let inner ← Sha256.Strict.update Sha256.Hasher.new innerPad.toList
  let outerPad := pad innerPad blockKey outerMask
  let outer ← Sha256.Strict.update Sha256.Hasher.new outerPad.toList
  .ok ⟨inner, outer⟩

def update (hmac : Hmac) (bytes : Bytes) : Checked Hmac := do
  let inner ← Sha256.Strict.update hmac.inner bytes
  .ok { hmac with inner := inner }

def finalize (hmac : Hmac) : Checked Digest := do
  let digest ← Sha256.Strict.finalize hmac.inner
  let outer ← Sha256.Strict.update hmac.outer digest.toList
  Sha256.Strict.finalize outer

def mac (key message : Bytes) : Checked Digest := do
  let keyed ← new key
  let fed ← update keyed message
  finalize fed

end SealedFrame.Hmac.Strict
