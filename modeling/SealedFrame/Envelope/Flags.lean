import SealedFrame.Envelope.Suite
import SealedFrame.Envelope.Method

/-!
The flags byte: the suite in its upper three bits, the version in the next two, the method in
the lower three. One value of the byte is reserved, because it opens plain text.
-/

namespace SealedFrame

structure Flags where
  suite : Suite
  version : UInt8
  method : Method
  deriving DecidableEq, Repr

namespace Flags

/-- The letter that plain text starts with. -/
def reserved : UInt8 := 0x41

def suiteMask : UInt8 := 0xe0

def suiteShift : UInt8 := 5

def versionMask : UInt8 := 0x18

def versionShift : UInt8 := 3

def methodMask : UInt8 := 0x07

def maxVersion : UInt8 := 3

/-- The byte the three values are packed into. -/
def encode (flags : Flags) : Except Error UInt8 :=
  if flags.version > maxVersion then .error .unsupportedVersion
  else
    let byte := flags.suite.id <<< suiteShift ||| flags.version <<< versionShift |||
      flags.method.id
    if byte = reserved then .error .reservedFlagsValue else .ok byte

/-- The three values of a byte. The reserved byte is refused before any of them is looked at,
and an unknown suite before an unknown method. -/
def decode (byte : UInt8) : Except Error Flags :=
  if byte = reserved then .error .reservedFlagsValue
  else
    match Suite.ofId ((byte &&& suiteMask) >>> suiteShift) with
    | .error error => .error error
    | .ok suite =>
        match Method.ofId (byte &&& methodMask) with
        | .error error => .error error
        | .ok method => .ok ⟨suite, (byte &&& versionMask) >>> versionShift, method⟩

end Flags

end SealedFrame
