import SealedFrame.Octets
import SealedFrame.Hex

namespace SealedFrame

/-- An encryption key of sixteen bytes. Its text never shows them. -/
structure Key where
  octets : Octets 16
  deriving DecidableEq

namespace Key

def size : Nat := 16

instance : ToString Key := ⟨fun _ => "EncryptionKey(..)"⟩

def ofBytes (bytes : Bytes) : Except Error Key :=
  if length : bytes.length = size then .ok ⟨Octets.ofBytes bytes length⟩
  else .error .invalidKeySize

/-- The key spelled by thirty-two hexadecimal digits. -/
def ofHex (text : String) : Except Error Key :=
  if (Bytes.ofText text).length ≠ 2 * size then .error .invalidKeySize
  else
    match (Hex.decodeInto text (Octets.zeros size).toList).contents with
    | .ok bytes => .ok ⟨Octets.padded size bytes⟩
    | .error error => .error error

def erase (_ : Key) : Key :=
  ⟨Octets.zeros size⟩

@[simp] theorem octets_erase (key : Key) : key.erase.octets = Octets.zeros 16 := rfl

end Key

end SealedFrame
