import SealedFrame.Aes
import SealedFrame.Checked

/-!
The block cipher on the bytes of its schedule, with every place checked: the schedule grows by one
word after the other, each from two words that stand in front of it.
-/

namespace SealedFrame.Aes.Strict

open Checked

def rounds : Nat := 10

/-- The substitution of every byte as one string. -/
def table : Bytes :=
  substitutionTable.toList.flatMap Vector.toList

/-- The constants of the round keys after the first. -/
def constants : Bytes :=
  [0x01, 0x02, 0x04, 0x08, 0x10, 0x20, 0x40, 0x80, 0x1b, 0x36]

def substitute (byte : UInt8) : Checked UInt8 :=
  byteAt table byte.toNat

/-! The schedule. -/

/-- The word that ends in front of a round key, turned up by one, substituted, with a constant added
to its first byte. -/
def scramble (index : Nat) (word : Column) : Checked Column := do
  let first ← substitute (word.get 1)
  let second ← substitute (word.get 2)
  let third ← substitute (word.get 3)
  let fourth ← substitute (word.get 0)
  let place ← subtract (index / 4) 1
  let constant ← byteAt constants place
  .ok #v[first ^^^ constant, second, third, fourth]

def word (bytes : Octets 176) (start : Nat) : Checked Column := do
  let first ← get bytes start
  let second ← get bytes (start + 1)
  let third ← get bytes (start + 2)
  let fourth ← get bytes (start + 3)
  .ok #v[first, second, third, fourth]

/-- What a word adds to the one four places before it. -/
def addend (index : Nat) (last : Column) : Checked Column :=
  if index % 4 = 0 then scramble index last else .ok last

/-- Puts one byte of a word into its place. -/
def expandByte (index : Nat) (added : Column) (bytes : Octets 176) (row : Nat) :
    Checked (Octets 176) := do
  let origin ← subtract index 4
  let old ← get bytes (origin * 4 + row)
  let new ← get added row
  set bytes (index * 4 + row) (old ^^^ new)

def expandWord (bytes : Octets 176) (index : Nat) : Checked (Octets 176) := do
  let before ← subtract index 1
  let last ← word bytes (before * 4)
  let added ← addend index last
  (List.range' 0 4).foldlM (expandByte index added) bytes

def expand (key : Block) : Checked (Octets 176) := do
  let bytes ← overwrite (Octets.zeros 176) 0 16 key.toList
  (List.range' 4 (4 * rounds)).foldlM expandWord bytes

/-! Blocks. -/

def addRoundKey (bytes : Octets 176) (round : Nat) (block : Block) : Checked Block := do
  let key ← slice bytes.toList (round * 16) ((round + 1) * 16)
  .ok (block.overwrite 0 (Bytes.xor block.toList key))

def substituteBytes (block : Block) : Checked Block :=
  block.mapM substitute

def exchange (block : Block) (places : Nat × Nat) : Checked Block := do
  let (here, there) := places
  let byte ← get block here
  let other ← get block there
  let changed ← set block here other
  set changed there byte

/-- The second row turned left by one, the third by two, the fourth by three, in place. -/
def shiftRows (block : Block) : Checked Block :=
  [(1, 5), (5, 9), (9, 13), (2, 10), (6, 14), (15, 11), (11, 7), (7, 3)].foldlM exchange block

def mixColumn (column : Bytes) : Checked Bytes := do
  let first ← byteAt column 0
  let second ← byteAt column 1
  let third ← byteAt column 2
  let fourth ← byteAt column 3
  replace column [
    double first ^^^ second ^^^ double second ^^^ third ^^^ fourth,
    first ^^^ double second ^^^ third ^^^ double third ^^^ fourth,
    first ^^^ second ^^^ double third ^^^ fourth ^^^ double fourth,
    first ^^^ double first ^^^ second ^^^ third ^^^ double fourth]

def mixColumns (block : Block) : Checked Block := do
  let columns ← (Bytes.chunks 4 block.toList).mapM mixColumn
  .ok (Octets.padded 16 columns.flatten)

def round (bytes : Octets 176) (block : Block) (number : Nat) : Checked Block := do
  let substituted ← substituteBytes block
  let shifted ← shiftRows substituted
  let mixed ← (if number < rounds then mixColumns shifted else .ok shifted)
  addRoundKey bytes number mixed

def encrypt (bytes : Octets 176) (block : Block) : Checked Block := do
  let whitened ← addRoundKey bytes 0 block
  (List.range' 1 rounds).foldlM (round bytes) whitened

end SealedFrame.Aes.Strict
