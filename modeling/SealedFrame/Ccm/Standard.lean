import SealedFrame.Block
import SealedFrame.BigEndian

/-!
The mode as the standard words it: one formatted string for the tag, cut into blocks once it
stands, and a key block for every natural number.
-/

namespace SealedFrame.Ccm.Standard

def fill (bytes : Bytes) : Bytes :=
  bytes ++ List.replicate ((16 - bytes.length % 16) % 16) 0

def flags (associated : Bytes) : UInt8 :=
  UInt8.ofNat (64 * (if associated = [] then 0 else 1) + 8 * ((8 - 2) / 2) + (2 - 1))

def formatted (nonce : Octets 13) (associated payload : Bytes) : Bytes :=
  flags associated :: (nonce.toList ++ bigEndian 2 payload.length) ++
    (if associated = [] then [] else fill (bigEndian 2 associated.length ++ associated)) ++
    fill payload

def blocks (bytes : Bytes) : List Block :=
  (List.range (bytes.length / 16)).map fun index => Octets.padded 16 (bytes.drop (16 * index))

/-- The chained encryption of a string of whole blocks, from the block of zeros on. -/
def chain (cipher : Block → Block) (bytes : Bytes) : Block :=
  (blocks bytes).foldl (fun link block => cipher (link.xor block)) (Octets.zeros 16)

def keyBlock (cipher : Block → Block) (nonce : Octets 13) (index : Nat) : Block :=
  cipher (Octets.ofBytes (1 :: (nonce.toList ++ bigEndian 2 index)) (by simp))

/-- The payload under the key blocks from one on, and the tag under key block zero. -/
def encrypt (cipher : Block → Block) (nonce : Octets 13) (associated payload : Bytes) : Bytes :=
  let masked := payload.mapIdx fun index byte =>
    byte ^^^ (keyBlock cipher nonce (index / 16 + 1)).toList.getD (index % 16) 0
  let tag := (chain cipher (formatted nonce associated payload)).xor
    (keyBlock cipher nonce 0)
  masked ++ tag.toList.take 8

end SealedFrame.Ccm.Standard
