import SealedFrame.Octets
import SealedFrame.BigEndian

/-!
A message fed in pieces to a step that consumes sixty-four bytes at a time, and closed with the
length-carrying last block. The step and its state are parameters: what is fed to the step does
not depend on what the step computes.
-/

namespace SealedFrame

/-- The state after the whole blocks seen so far, the unfinished block at the front of
`buffer`, and the number of bytes seen, modulo 2 ^ 64. -/
structure BlockStream (State : Type) where
  state : State
  buffer : Octets 64
  total : UInt64

namespace BlockStream

variable {State : Type}

def blockSize : Nat := 64

def lengthOffset : Nat := 56

def start (state : State) : BlockStream State :=
  ⟨state, Octets.zeros 64, 0⟩

def pending (stream : BlockStream State) : Nat :=
  (stream.total % 64).toNat

/-- The state after `count` whole blocks of `bytes`, and the bytes that remain. -/
def stepBlocks (step : State → Octets 64 → State) (state : State) :
    Nat → Bytes → State × Bytes
  | 0, bytes => (state, bytes)
  | count + 1, bytes =>
      stepBlocks step (step state (Octets.padded 64 bytes)) count (bytes.drop blockSize)

/-- Runs the whole blocks of `bytes` and keeps the rest at the front of the buffer. -/
def absorbAligned (step : State → Octets 64 → State) (state : State) (buffer : Octets 64)
    (total : UInt64) (bytes : Bytes) : BlockStream State :=
  let (state, rest) := stepBlocks step state (bytes.length / blockSize) bytes
  ⟨state, buffer.overwrite 0 rest, total⟩

def absorb (step : State → Octets 64 → State) (stream : BlockStream State) (bytes : Bytes) :
    BlockStream State :=
  let pending := stream.pending
  let total := stream.total + UInt64.ofNat bytes.length
  if pending = 0 then absorbAligned step stream.state stream.buffer total bytes
  else
    let missing := blockSize - pending
    if bytes.length < missing then
      { stream with buffer := stream.buffer.overwrite pending bytes, total := total }
    else
      let block := stream.buffer.overwrite pending (bytes.take missing)
      absorbAligned step (step stream.state block) block total (bytes.drop missing)

/-- The state after the closing bytes: one bit, zeros, and the length of the message in bits. -/
def finish (step : State → Octets 64 → State) (stream : BlockStream State) : State :=
  let pending := stream.pending
  let closing := 0x80 :: List.replicate (blockSize - (pending + 1)) 0
  let length := bigEndian 8 (stream.total * 8).toNat
  let marked := stream.buffer.overwrite pending closing
  if pending < lengthOffset then
    step stream.state (marked.overwrite lengthOffset length)
  else
    step (step stream.state marked) ((Octets.zeros 64).overwrite lengthOffset length)

theorem pending_lt (stream : BlockStream State) : stream.pending < blockSize := by
  simp only [pending, blockSize, UInt64.toNat_mod]
  exact Nat.mod_lt _ (by decide)

end BlockStream

end SealedFrame
