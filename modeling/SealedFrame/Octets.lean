import SealedFrame.Bytes

namespace SealedFrame

abbrev Octets (size : Nat) := Vector UInt8 size

namespace Octets

def ofBytes {size : Nat} (bytes : Bytes) (length : bytes.length = size) : Octets size :=
  ⟨bytes.toArray, by simpa using length⟩

def zeros (size : Nat) : Octets size :=
  Vector.replicate size 0

/-- The first `size` bytes, followed by zeros where the string is shorter. -/
def padded (size : Nat) (bytes : Bytes) : Octets size :=
  let kept := bytes.take size
  ofBytes (kept ++ List.replicate (size - kept.length) 0) (by
    simp only [kept, List.length_append, List.length_take, List.length_replicate]
    omega)

/-- The fixed string with `bytes` written over it from `start` on, clipped at its end. -/
def overwrite {size : Nat} (octets : Octets size) (start : Nat) (bytes : Bytes) :
    Octets size :=
  padded size (octets.toList.take start ++ bytes ++
    octets.toList.drop (start + bytes.length))

def first {size : Nat} (count : Nat) (octets : Octets size)
    (bound : count ≤ size := by omega) : Octets count :=
  ofBytes (octets.toList.take count) (by
    rw [List.length_take, Vector.length_toList]
    omega)

def xor {size : Nat} (left right : Octets size) : Octets size :=
  Vector.zipWith (· ^^^ ·) left right

@[simp] theorem toList_ofBytes {size : Nat} (bytes : Bytes) (length : bytes.length = size) :
    (ofBytes bytes length).toList = bytes := rfl

@[simp] theorem toList_zeros (size : Nat) :
    (zeros size).toList = List.replicate size 0 := by
  simp [zeros]

theorem toList_padded (size : Nat) (bytes : Bytes) :
    (padded size bytes).toList =
      bytes.take size ++ List.replicate (size - bytes.length) 0 := by
  simp only [padded, toList_ofBytes, List.length_take]
  congr 2
  omega

theorem toList_padded_of_length {size : Nat} {bytes : Bytes} (length : bytes.length = size) :
    (padded size bytes).toList = bytes := by
  simp [toList_padded, length, List.take_of_length_le]

@[simp] theorem padded_toList {size : Nat} (octets : Octets size) :
    padded size octets.toList = octets :=
  Vector.toList_inj.1 (toList_padded_of_length Vector.length_toList)

theorem toList_overwrite {size : Nat} (octets : Octets size) {start : Nat} {bytes : Bytes}
    (fits : start + bytes.length ≤ size) :
    (octets.overwrite start bytes).toList =
      octets.toList.take start ++ bytes ++ octets.toList.drop (start + bytes.length) := by
  apply toList_padded_of_length
  simp only [List.length_append, List.length_take, List.length_drop, Vector.length_toList]
  omega

@[simp] theorem toList_first {size : Nat} (count : Nat) (octets : Octets size)
    (bound : count ≤ size) :
    (octets.first count bound).toList = octets.toList.take count := rfl

@[simp] theorem toList_xor {size : Nat} (left right : Octets size) :
    (left.xor right).toList = Bytes.xor left.toList right.toList := by
  simp [xor, Bytes.xor]

end Octets

end SealedFrame
