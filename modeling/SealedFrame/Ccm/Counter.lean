import SealedFrame.Block
import SealedFrame.BigEndian

/-!
The counter half of the mode: numbered blocks, their encryptions strung together, and the text
masked with them.
-/

namespace SealedFrame.Ccm

/-- The thirteen bytes that must never repeat under one key. -/
abbrev Nonce := Octets 13

def blockSize : Nat := 16

def counterFlags : UInt8 := 0x01

def counterBlock (nonce : Nonce) (index : UInt16) : Block :=
  Octets.ofBytes (counterFlags :: (nonce.toList ++ bigEndian 2 index.toNat)) (by simp)

def counterBlocks (nonce : Nonce) : UInt16 → Nat → List Block
  | _, 0 => []
  | index, count + 1 => counterBlock nonce index :: counterBlocks nonce (index + 1) count

def blockCount (length : Nat) : Nat :=
  (length + (blockSize - 1)) / blockSize

/-- The mask for a text of `length` bytes, a whole number of blocks from number one on. -/
def keystream (cipher : Block → Block) (nonce : Nonce) (length : Nat) : Bytes :=
  (counterBlocks nonce 1 (blockCount length)).flatMap fun block => (cipher block).toList

/-- The text masked, or unmasked: the two are the same. -/
def applyKeystream (cipher : Block → Block) (nonce : Nonce) (text : Bytes) : Bytes :=
  Bytes.xor text (keystream cipher nonce text.length)

@[simp] theorem length_counterBlocks (nonce : Nonce) (index : UInt16) (count : Nat) :
    (counterBlocks nonce index count).length = count := by
  induction count generalizing index with
  | zero => rfl
  | succ count induction => rw [counterBlocks, List.length_cons, induction]

@[simp] theorem length_keystream (cipher : Block → Block) (nonce : Nonce) (length : Nat) :
    (keystream cipher nonce length).length = blockSize * blockCount length := by
  simp [keystream, List.length_flatMap, blockSize, List.map_const', Nat.mul_comm]

@[simp] theorem length_applyKeystream (cipher : Block → Block) (nonce : Nonce) (text : Bytes) :
    (applyKeystream cipher nonce text).length = text.length := by
  rw [applyKeystream, Bytes.length_xor, length_keystream, blockCount, blockSize]
  omega

end SealedFrame.Ccm
