import SealedFrame.BlockStream.Strict
import SealedFrame.Sha256

namespace SealedFrame.Sha256.Strict

/-! The hash with every place checked. The schedule is one array of sixty-four words that is filled
from the front, each word from four in front of it. -/

open Checked

/-- Puts a word of the block into its place. -/
def loadWord (words : Vector UInt32 64) (numbered : Bytes × Nat) : Checked (Vector UInt32 64) := do
  let (piece, index) := numbered
  let first ← byteAt piece 0
  let second ← byteAt piece 1
  let third ← byteAt piece 2
  let fourth ← byteAt piece 3
  set words index (UInt32.ofNat (ofBigEndian [first, second, third, fourth]))

def extendWord (words : Vector UInt32 64) (index : Nat) : Checked (Vector UInt32 64) := do
  let sixteenth ← subtract index 16
  let fifteenth ← subtract index 15
  let seventh ← subtract index 7
  let second ← subtract index 2
  let oldest ← get words sixteenth
  let old ← get words fifteenth
  let young ← get words seventh
  let youngest ← get words second
  set words index (oldest + smallSigma0 old + young + smallSigma1 youngest)

def schedule (block : Bytes) : Checked (Vector UInt32 64) := do
  let loaded ← (Bytes.chunks 4 block).zipIdx.foldlM loadWord (Vector.replicate 64 0)
  (List.range' 16 48).foldlM extendWord loaded

def applyRound (words : Vector UInt32 64) (state : State) (index : Nat) : Checked State := do
  let constant ← get roundConstants index
  let word ← get words index
  .ok (round state constant word)

def compress (state : State) (block : Bytes) : Checked State := do
  let whole ← replace (Octets.zeros 64).toList block
  let words ← schedule whole
  let last ← (List.range' 0 64).foldlM (applyRound words) state
  .ok (state.add last)

/-- Writes the words into places of four bytes each. -/
def writeWords : List Bytes → List UInt32 → Checked (List Bytes)
  | place :: places, word :: words => do
      let written ← replace place (bigEndian 4 word.toNat)
      let rest ← writeWords places words
      .ok (written :: rest)
  | places, _ => .ok places

def update (hasher : Hasher) (bytes : Bytes) : Checked Hasher :=
  BlockStream.Strict.absorb compress hasher bytes

def finalize (hasher : Hasher) : Checked Digest := do
  let state ← BlockStream.Strict.finish compress hasher
  let pieces ← writeWords (Bytes.chunks 4 (Octets.zeros 32).toList) state.words
  .ok (Octets.padded 32 pieces.flatten)

def hash (message : Bytes) : Checked Digest := do
  let fed ← update Hasher.new message
  finalize fed

end SealedFrame.Sha256.Strict
