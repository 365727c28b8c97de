import SealedFrame.Octets
import SealedFrame.BigEndian
import SealedFrame.Error

/-!
The header in front of every envelope: flags, counter, the two short hashes that name the
sender's token and device. It is sent in the clear and authenticated with the frame.
-/

namespace SealedFrame

/-- The first eight bytes of a hash. -/
abbrev ShortHash := Octets 8

structure Header where
  flags : UInt8
  counter : UInt32
  authHash : ShortHash
  deviceHash : ShortHash
  deriving DecidableEq

namespace Header

def size : Nat := 21

def flagsSize : Nat := 1

def counterSize : Nat := 4

def hashSize : Nat := 8

def nonceSize : Nat := 13

def toBytes (header : Header) : Octets 21 :=
  Octets.ofBytes (header.flags :: (bigEndian counterSize header.counter.toNat ++
    header.authHash.toList ++ header.deviceHash.toList)) (by simp [counterSize])

/-- The header that a byte string starts with. Only its length is checked. -/
def ofBytes (bytes : Bytes) : Except Error Header :=
  if bytes.length < size then .error .envelopeTooShort
  else .ok {
    flags := bytes.headD 0
    counter := UInt32.ofNat (ofBigEndian ((bytes.drop 1).take counterSize))
    authHash := Octets.padded hashSize (bytes.drop 5)
    deviceHash := Octets.padded hashSize (bytes.drop 13) }

/-- The nonce of an envelope: flags, four zero bytes, half of the device hash, counter. -/
def nonceOf (flags : UInt8) (deviceHash : ShortHash) (counter : UInt32) : Octets 13 :=
  Octets.ofBytes (flags :: (List.replicate 4 0 ++ deviceHash.toList.take 4 ++
    bigEndian counterSize counter.toNat)) (by simp [counterSize])

def nonce (header : Header) : Octets 13 :=
  nonceOf header.flags header.deviceHash header.counter

@[simp] theorem toList_toBytes (header : Header) :
    header.toBytes.toList = header.flags :: (bigEndian counterSize header.counter.toNat ++
      header.authHash.toList ++ header.deviceHash.toList) := rfl

theorem ofBytes_eq_error_iff (bytes : Bytes) (error : Error) :
    ofBytes bytes = .error error ↔ bytes.length < size ∧ error = .envelopeTooShort := by
  unfold ofBytes
  split
  · rename_i short
    simp [short, eq_comm]
  · rename_i long
    simp [long]

end Header

end SealedFrame
