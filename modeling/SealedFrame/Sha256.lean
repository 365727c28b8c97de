import SealedFrame.BlockStream
import SealedFrame.Sha256.Compression

namespace SealedFrame

def Sha256.digestSize : Nat := 32

abbrev Sha256.Hasher := BlockStream Sha256.State

namespace Sha256.Hasher

def new : Hasher :=
  BlockStream.start State.initial

def update (hasher : Hasher) (bytes : Bytes) : Hasher :=
  hasher.absorb compress bytes

def finalize (hasher : Hasher) : Digest :=
  (hasher.finish compress).toBytes

/-- Every word, every buffered byte and the count set to zero. The hasher stays usable, but
starts from eight zero words. -/
def erase (_ : Hasher) : Hasher :=
  BlockStream.start State.zero

end Sha256.Hasher

def Sha256.hash (message : Bytes) : Digest :=
  (Hasher.new.update message).finalize

end SealedFrame
