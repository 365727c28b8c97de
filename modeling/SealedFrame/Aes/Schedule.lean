import SealedFrame.Block
import SealedFrame.Aes.Substitution

namespace SealedFrame.Aes

def double (byte : UInt8) : UInt8 :=
  byte <<< 1 ^^^ (byte >>> 7) * 0x1b

/-- Eleven round keys. Their text never shows them. -/
structure Schedule where
  roundKeys : Vector Block 11
  deriving DecidableEq

/-- The constant that enters the round key after the first `index + 1`. -/
def roundConstant : Nat → UInt8
  | 0 => 1
  | index + 1 => double (roundConstant index)

/-- A column turned up by one, substituted, with the constant added to its first byte. -/
def scramble (constant : UInt8) (column : Column) : Column :=
  #v[substitute column[1] ^^^ constant, substitute column[2], substitute column[3],
    substitute column[0]]

def nextRoundKey (constant : UInt8) (key : Block) : Block :=
  let old := key.columns
  let first := old[0].xor (scramble constant old[3])
  let second := old[1].xor first
  let third := old[2].xor second
  let fourth := old[3].xor third
  Block.ofColumns #v[first, second, third, fourth]

def roundKey (key : Block) : Nat → Block
  | 0 => key
  | index + 1 => nextRoundKey (roundConstant index) (roundKey key index)

namespace Schedule

instance : ToString Schedule := ⟨fun _ => "RoundKeys(..)"⟩

def size : Nat := 176

def expand (key : Block) : Schedule :=
  ⟨Vector.ofFn fun index => roundKey key index.val⟩

def toBytes (schedule : Schedule) : Octets 176 :=
  Vector.ofFn fun index => schedule.roundKeys[index.val / 16][index.val % 16]

def erase (_ : Schedule) : Schedule :=
  ⟨Vector.replicate 11 (Octets.zeros 16)⟩

@[simp] theorem roundKeys_expand (key : Block) (index : Fin 11) :
    (expand key).roundKeys[index] = roundKey key index.val := by
  simp [expand]

end Schedule

end SealedFrame.Aes
