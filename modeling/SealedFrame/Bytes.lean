namespace SealedFrame

abbrev Bytes := List UInt8

namespace Bytes

def ofText (text : String) : Bytes :=
  text.toUTF8.data.toList

/-- The bytewise exclusive or of two strings, as long as the shorter one. -/
def xor (first second : Bytes) : Bytes :=
  List.zipWith (· ^^^ ·) first second

@[simp] theorem length_xor (first second : Bytes) :
    (xor first second).length = min first.length second.length := by
  simp [xor]

/-- The bytes cut into pieces of `size`, the last one possibly shorter. -/
def chunks (size : Nat) (bytes : Bytes) : List Bytes :=
  pieces ((bytes.length + (size - 1)) / size) bytes
where
  pieces : Nat → Bytes → List Bytes
    | 0, _ => []
    | count + 1, rest => rest.take size :: pieces count (rest.drop size)

theorem chunks_nil {size : Nat} (positive : 0 < size) : chunks size [] = [] := by
  have count : (([] : Bytes).length + (size - 1)) / size = 0 :=
    Nat.div_eq_of_lt (by rw [List.length_nil]; omega)
  simp only [chunks, count, chunks.pieces]

theorem chunks_of_ne_nil {size : Nat} (positive : 0 < size) {bytes : Bytes}
    (nonempty : bytes ≠ []) :
    chunks size bytes = bytes.take size :: chunks size (bytes.drop size) := by
  have length_pos := List.length_pos_iff.2 nonempty
  have count : (bytes.length + (size - 1)) / size =
      ((bytes.drop size).length + (size - 1)) / size + 1 := by
    rw [List.length_drop, ← Nat.add_div_right _ positive]
    by_cases long : size ≤ bytes.length
    · congr 1
      omega
    · rw [show bytes.length - size = 0 by omega,
        Nat.div_eq_of_lt_le (k := 1) (by omega) (by omega),
        Nat.div_eq_of_lt_le (k := 1) (by omega) (by omega)]
  simp only [chunks, count, chunks.pieces]

/-! Overwriting the front of a buffer, which keeps its length. -/

/-- The buffer with its front overwritten by `bytes`, which must fit. -/
def overwriteFront (buffer bytes : Bytes) : Bytes :=
  bytes ++ buffer.drop bytes.length

def wipeFront (buffer : Bytes) (count : Nat) : Bytes :=
  buffer.overwriteFront (List.replicate count 0)

theorem length_overwriteFront {buffer bytes : Bytes} (fits : bytes.length ≤ buffer.length) :
    (buffer.overwriteFront bytes).length = buffer.length := by
  simp only [overwriteFront, List.length_append, List.length_drop]
  omega

@[simp] theorem take_overwriteFront (buffer bytes : Bytes) :
    (buffer.overwriteFront bytes).take bytes.length = bytes := by
  simp [overwriteFront]

@[simp] theorem drop_overwriteFront (buffer bytes : Bytes) :
    (buffer.overwriteFront bytes).drop bytes.length = buffer.drop bytes.length := by
  simp [overwriteFront]

theorem wipeFront_eq (buffer : Bytes) (count : Nat) :
    buffer.wipeFront count = List.replicate count 0 ++ buffer.drop count := by
  rw [wipeFront, overwriteFront, List.length_replicate]

theorem wipeFront_overwriteFront (buffer bytes : Bytes) :
    (buffer.overwriteFront bytes).wipeFront bytes.length =
      List.replicate bytes.length 0 ++ buffer.drop bytes.length := by
  rw [wipeFront_eq, drop_overwriteFront]

end Bytes

end SealedFrame
