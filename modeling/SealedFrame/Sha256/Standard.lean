import Mathlib.Algebra.Group.Nat.Defs
import SealedFrame.Octets
import SealedFrame.BigEndian

/-!
The hash as the standard words it: the message padded as a whole, every word of the schedule by
its recurrence, and the constants read off the roots of the primes. Nothing here is streamed or
tabulated; it is what the streaming hasher is held against.
-/

namespace SealedFrame.Sha256.Standard

abbrev Word := BitVec 32

/-! Constants. -/

def isPrime (number : Nat) : Bool :=
  2 ≤ number && (List.range number).all fun divisor => divisor < 2 || number % divisor != 0

def primes : List Nat :=
  (List.range 312).filter isPrime

/-- The greatest number below 2 ^ 40 whose power does not pass `number`. -/
def root (degree number : Nat) : Nat :=
  (List.range 40).foldr (fun bit found =>
    if (found + 2 ^ bit) ^ degree ≤ number then found + 2 ^ bit else found) 0

def fractionOfRoot (degree number : Nat) : Word :=
  BitVec.ofNat 32 (root degree (number * 2 ^ (32 * degree)))

def roundConstant (index : Nat) : Word :=
  fractionOfRoot 3 (primes.getD index 0)

/-! Functions on words. -/

def choose (x y z : Word) : Word :=
  (x &&& y) ^^^ (~~~x &&& z)

def majority (x y z : Word) : Word :=
  (x &&& y) ^^^ (x &&& z) ^^^ (y &&& z)

def bigSigma0 (x : Word) : Word :=
  x.rotateRight 2 ^^^ x.rotateRight 13 ^^^ x.rotateRight 22

def bigSigma1 (x : Word) : Word :=
  x.rotateRight 6 ^^^ x.rotateRight 11 ^^^ x.rotateRight 25

def smallSigma0 (x : Word) : Word :=
  x.rotateRight 7 ^^^ x.rotateRight 18 ^^^ x >>> 3

def smallSigma1 (x : Word) : Word :=
  x.rotateRight 17 ^^^ x.rotateRight 19 ^^^ x >>> 10

/-! One block. -/

/-- A word of the schedule: of the block itself at first, of four earlier words after that. -/
def scheduleWord (block : Octets 64) (index : Nat) : Word :=
  if index < 16 then BitVec.ofNat 32 (ofBigEndian ((block.toList.drop (4 * index)).take 4))
  else
    smallSigma1 (scheduleWord block (index - 2)) + scheduleWord block (index - 7) +
      smallSigma0 (scheduleWord block (index - 15)) + scheduleWord block (index - 16)
termination_by index
decreasing_by all_goals omega

/-- The eight working variables, which are also the words of a hash value. -/
structure Variables where
  a : Word
  b : Word
  c : Word
  d : Word
  e : Word
  f : Word
  g : Word
  h : Word
  deriving DecidableEq

def initial : Variables :=
  let word index := fractionOfRoot 2 (primes.getD index 0)
  ⟨word 0, word 1, word 2, word 3, word 4, word 5, word 6, word 7⟩

def zero : Variables :=
  ⟨0, 0, 0, 0, 0, 0, 0, 0⟩

def afterRounds (value : Variables) (block : Octets 64) : Nat → Variables
  | 0 => value
  | index + 1 =>
      let before := afterRounds value block index
      let first := before.h + bigSigma1 before.e + choose before.e before.f before.g +
        roundConstant index + scheduleWord block index
      let second := bigSigma0 before.a + majority before.a before.b before.c
      ⟨first + second, before.a, before.b, before.c, before.d + first, before.e, before.f,
        before.g⟩

def compress (value : Variables) (block : Octets 64) : Variables :=
  let last := afterRounds value block 64
  ⟨value.a + last.a, value.b + last.b, value.c + last.c, value.d + last.d,
    value.e + last.e, value.f + last.f, value.g + last.g, value.h + last.h⟩

/-! The message. -/

/-- The message, a one bit, as many zeros as bring it eight bytes short of a whole number of
blocks, and its length in bits. -/
def pad (message : Bytes) : Bytes :=
  message ++ 0x80 :: (List.replicate ((119 - message.length % 64) % 64) 0 ++
    bigEndian 8 (8 * message.length))

def blocks (bytes : Bytes) : List (Octets 64) :=
  (List.range (bytes.length / 64)).map fun index => Octets.padded 64 (bytes.drop (64 * index))

def toBytes (value : Variables) : Octets 32 :=
  Octets.ofBytes ([value.a, value.b, value.c, value.d, value.e, value.f, value.g,
    value.h].flatMap fun word => bigEndian 4 word.toNat) (by simp)

def hashFrom (start : Variables) (message : Bytes) : Octets 32 :=
  toBytes ((blocks (pad message)).foldl compress start)

def hash (message : Bytes) : Octets 32 :=
  hashFrom initial message

end SealedFrame.Sha256.Standard
