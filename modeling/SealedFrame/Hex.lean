import SealedFrame.Written

/-!
Bytes spelled as hexadecimal text, two digits a byte. Writing uses lower case; reading takes
either case. Lengths of texts are counted in the bytes of their UTF-8 code, so a character
outside ASCII is two to four bytes, none of which is a digit.
-/

namespace SealedFrame.Hex

def digit (value : UInt8) : UInt8 :=
  if value < 10 then 48 + value else 87 + value

def digitValue? (code : UInt8) : Option UInt8 :=
  if 48 ≤ code ∧ code ≤ 57 then some (code - 48)
  else if 97 ≤ code ∧ code ≤ 102 then some (code - 87)
  else if 65 ≤ code ∧ code ≤ 70 then some (code - 55)
  else none

def digitsOf (byte : UInt8) : Bytes :=
  [digit (byte >>> 4), digit (byte &&& 15)]

/-- Writes the bytes that digit pairs spell into their places, from `index` on. A pair that is not
two digits wipes the bytes written before it. -/
def writePairs (count : Nat) : Bytes → Nat → Array UInt8 → Written Nat
  | high :: low :: rest, index, buffer =>
      match digitValue? high, digitValue? low with
      | some highValue, some lowValue =>
          let byte := highValue <<< 4 ||| lowValue
          writePairs count rest (index + 1) (buffer.setIfInBounds index byte)
      | _, _ => .reject .invalidHex (Bytes.wipeFront buffer.toList index)
  | _, _, buffer => .accept count buffer.toList

/-- Reads a text into the front of a buffer and answers how many bytes it spells. -/
def decodeInto (text : String) (buffer : Bytes) : Written Nat :=
  let digits := Bytes.ofText text
  let count := digits.length / 2
  if digits.length % 2 ≠ 0 then .reject .invalidHex buffer
  else if buffer.length < count then .reject .bufferTooSmall buffer
  else writePairs count digits 0 buffer.toArray

def encodeInto (bytes buffer : Bytes) : Written String :=
  let digits := bytes.flatMap digitsOf
  if buffer.length < 2 * bytes.length then .reject .bufferTooSmall buffer
  else
    let filled := buffer.overwriteFront digits
    match String.fromUTF8? (filled.take (2 * bytes.length)).toByteArray with
    | some text => .accept text filled
    | none => .reject .bufferTooSmall filled

def decode (text : String) : Except Error Bytes :=
  (decodeInto text (List.replicate ((Bytes.ofText text).length / 2) 0)).contents

def encode (bytes : Bytes) : String :=
  String.ofList ((bytes.flatMap digitsOf).map Char.ofUInt8)

@[simp] theorem length_digitsOf (byte : UInt8) : (digitsOf byte).length = 2 := rfl

end SealedFrame.Hex
