namespace SealedFrame

inductive Error where
  | envelopeTooShort
  | innerFrameTooLarge
  | bufferTooSmall
  | unsupportedCipher
  | unsupportedVersion
  | invalidMethod
  | reservedFlagsValue
  | decryptionFailed
  | invalidKeySize
  | aadTooLarge
  | invalidHex
  deriving DecidableEq, Repr

namespace Error

def all : List Error :=
  [envelopeTooShort, innerFrameTooLarge, bufferTooSmall, unsupportedCipher,
    unsupportedVersion, invalidMethod, reservedFlagsValue, decryptionFailed,
    invalidKeySize, aadTooLarge, invalidHex]

/-- The name under which logs and reports file the error. -/
def name : Error → String
  | envelopeTooShort => "EnvelopeTooShort"
  | innerFrameTooLarge => "InnerFrameTooLarge"
  | bufferTooSmall => "BufferTooSmall"
  | unsupportedCipher => "UnsupportedCipher"
  | unsupportedVersion => "UnsupportedVersion"
  | invalidMethod => "InvalidMethod"
  | reservedFlagsValue => "ReservedFlagsValue"
  | decryptionFailed => "DecryptionFailed"
  | invalidKeySize => "InvalidKeySize"
  | aadTooLarge => "AadTooLarge"
  | invalidHex => "InvalidHex"

def message : Error → String
  | envelopeTooShort => "envelope too short"
  | innerFrameTooLarge => "inner frame exceeds maximum size"
  | bufferTooSmall => "output buffer too small"
  | unsupportedCipher => "unsupported cipher suite"
  | unsupportedVersion => "unsupported version"
  | invalidMethod => "invalid method"
  | reservedFlagsValue => "flags byte 0x41 is reserved"
  | decryptionFailed => "AEAD decryption failed"
  | invalidKeySize => "invalid encryption key size"
  | aadTooLarge => "additional authenticated data too large"
  | invalidHex => "malformed hex string"

def ofName? (text : String) : Option Error :=
  all.find? fun error => error.name == text

instance : ToString Error := ⟨message⟩

theorem mem_all (error : Error) : error ∈ all := by
  cases error <;> decide

@[simp] theorem ofName?_name (error : Error) : ofName? error.name = some error := by
  cases error <;> rfl

end Error

end SealedFrame
