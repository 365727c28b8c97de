import SealedFrame.BlockStream
import SealedFrame.Checked

/-!
A message fed in pieces with every range, length and place checked. The step takes a string of bytes
and has to check itself that it is one block.
-/

namespace SealedFrame.BlockStream.Strict

open Checked

variable {State : Type} (step : State → Bytes → Checked State)

/-- What the narrowest type that sizes are counted in can hold. -/
def sizeLimit : Nat := 65536

def pending (stream : BlockStream State) : Checked Nat :=
  narrow sizeLimit (stream.total % 64).toNat

/-- The state after `count` whole blocks of `bytes`, and the bytes that remain. -/
def stepBlocks (state : State) : Nat → Bytes → Checked (State × Bytes)
  | 0, bytes => .ok (state, bytes)
  | count + 1, bytes => do
      let block ← slice bytes 0 blockSize
      let next ← step state block
      let rest ← slice bytes blockSize bytes.length
      stepBlocks next count rest

def absorbAligned (state : State) (buffer : Octets 64) (total : UInt64) (bytes : Bytes) :
    Checked (BlockStream State) := do
  let (state, rest) ← stepBlocks step state (bytes.length / blockSize) bytes
  let buffer ← overwrite buffer 0 rest.length rest
  .ok ⟨state, buffer, total⟩

def absorb (stream : BlockStream State) (bytes : Bytes) : Checked (BlockStream State) := do
  let pending ← pending stream
  let total := stream.total + UInt64.ofNat bytes.length
  if 0 < pending then do
    let missing ← subtract blockSize pending
    if bytes.length < missing then do
      let buffer ← overwrite stream.buffer pending (pending + bytes.length) bytes
      .ok { stream with buffer := buffer, total := total }
    else do
      let front ← slice bytes 0 missing
      let block ← overwrite stream.buffer pending blockSize front
      let state ← step stream.state block.toList
      let rest ← slice bytes missing bytes.length
      absorbAligned step state block total rest
  else absorbAligned step stream.state stream.buffer total bytes

/-- The bytes from `start` up to `stop` set to zero. -/
def clear (buffer : Octets 64) (start stop : Nat) : Checked (Octets 64) := do
  let place ← slice buffer.toList start stop
  overwrite buffer start stop (List.replicate place.length 0)

/-- A block in which the length finds no room is filled up without it and another one begun. -/
def makeRoom (state : State) (buffer : Octets 64) (filled : Nat) :
    Checked (State × Octets 64 × Nat) :=
  if filled > lengthOffset then do
    let block ← clear buffer filled blockSize
    let next ← step state block.toList
    .ok (next, block, 0)
  else .ok (state, buffer, filled)

def finish (stream : BlockStream State) : Checked State := do
  let bits := stream.total * 8
  let pending ← pending stream
  let marked ← set stream.buffer pending 0x80
  let (state, buffer, filled) ← makeRoom step stream.state marked (pending + 1)
  let cleared ← clear buffer filled lengthOffset
  let last ← overwrite cleared lengthOffset blockSize (bigEndian 8 bits.toNat)
  step state last.toList

end SealedFrame.BlockStream.Strict
