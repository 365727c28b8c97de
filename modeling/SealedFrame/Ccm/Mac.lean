import SealedFrame.Ccm.Counter

/-!
The authenticating half of the mode: the blocks made of nonce, associated data and payload, and
the chain of encryptions over them.
-/

namespace SealedFrame.Ccm

def tagSize : Nat := 8

abbrev Tag := Octets 8

/-- Flags of the first block: eight bytes of tag, two bytes of length. -/
def macFlags : UInt8 := 0x19

/-- Set in the flags of the first block where there is associated data. -/
def associatedFlag : UInt8 := 0x40

def firstBlock (nonce : Nonce) (associated payload : Bytes) : Block :=
  let flags := if associated.isEmpty then macFlags else macFlags ||| associatedFlag
  Octets.ofBytes (flags :: (nonce.toList ++ bigEndian 2 payload.length)) (by simp)

/-- Associated data follows its own length; the last of its blocks is filled with zeros. -/
def associatedBlocks (associated : Bytes) : List Block :=
  if associated.isEmpty then []
  else
    Octets.padded 16 (bigEndian 2 associated.length ++ associated.take 14) ::
      (Bytes.chunks blockSize (associated.drop 14)).map (Octets.padded 16)

def payloadBlocks (payload : Bytes) : List Block :=
  (Bytes.chunks blockSize payload).map (Octets.padded 16)

def macBlocks (nonce : Nonce) (associated payload : Bytes) : List Block :=
  firstBlock nonce associated payload ::
    (associatedBlocks associated ++ payloadBlocks payload)

def chain (cipher : Block → Block) (blocks : List Block) : Block :=
  blocks.foldl (fun link block => cipher (link.xor block)) (Octets.zeros 16)

def mac (cipher : Block → Block) (nonce : Nonce) (associated payload : Bytes) : Block :=
  chain cipher (macBlocks nonce associated payload)

/-- The tag sent along: the first half of the code, masked with counter block zero. -/
def tag (cipher : Block → Block) (nonce : Nonce) (associated payload : Bytes) : Tag :=
  ((mac cipher nonce associated payload).xor (cipher (counterBlock nonce 0))).first 8

end SealedFrame.Ccm
