import SealedFrame.Error

namespace SealedFrame

/-- The ways of sealing that the flags of an envelope can name. -/
inductive Suite where
  | aes128Ccm
  | aes128Gcm
  | aes256Ccm
  | aes256Gcm
  | chaCha20Poly1305
  deriving DecidableEq, Repr

namespace Suite

def id : Suite → UInt8
  | aes128Ccm => 0
  | aes128Gcm => 1
  | aes256Ccm => 2
  | aes256Gcm => 3
  | chaCha20Poly1305 => 4

def ofId (id : UInt8) : Except Error Suite :=
  if id = 0 then .ok aes128Ccm
  else if id = 1 then .ok aes128Gcm
  else if id = 2 then .ok aes256Ccm
  else if id = 3 then .ok aes256Gcm
  else if id = 4 then .ok chaCha20Poly1305
  else .error .unsupportedCipher

def name : Suite → String
  | aes128Ccm => "Aes128Ccm"
  | aes128Gcm => "Aes128Gcm"
  | aes256Ccm => "Aes256Ccm"
  | aes256Gcm => "Aes256Gcm"
  | chaCha20Poly1305 => "ChaCha20Poly1305"

def keySize : Suite → Nat
  | aes128Ccm | aes128Gcm => 16
  | aes256Ccm | aes256Gcm | chaCha20Poly1305 => 32

def tagSize : Suite → Nat
  | aes128Ccm | aes256Ccm => 8
  | aes128Gcm | aes256Gcm | chaCha20Poly1305 => 16

def nonceSize : Suite → Nat
  | aes128Ccm | aes256Ccm => 13
  | aes128Gcm | aes256Gcm | chaCha20Poly1305 => 12

/-- Whether envelopes of the suite can be sealed and opened, and not only recognised. -/
def supported : Suite → Bool
  | aes128Ccm => true
  | _ => false

@[simp] theorem ofId_id (suite : Suite) : ofId suite.id = .ok suite := by
  cases suite <;> rfl

theorem id_of_ofId {id : UInt8} {suite : Suite} (found : ofId id = .ok suite) :
    suite.id = id := by
  unfold ofId at found
  repeat' split at found
  all_goals cases found
  all_goals symm; assumption

end Suite

end SealedFrame
