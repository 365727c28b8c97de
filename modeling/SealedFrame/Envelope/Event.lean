import SealedFrame.Error
import SealedFrame.Envelope.Method

/-!
What an operation reports beside its answer. No event carries a key, a payload or a tag.
-/

namespace SealedFrame

inductive Event where
  | shorterThanHeader (length : Nat)
  | invalidFlags (flags : UInt8) (error : Error)
  | frameTooLarge (innerLength : Nat)
  | sealBufferTooSmall (needed capacity : Nat)
  | sealedEnvelope (counter : UInt32) (length : Nat) (method : Method)
  | tooShortToOpen (length : Nat)
  | unsupportedVersion (version : UInt8)
  | suiteNotImplemented (suite : UInt8)
  | oversizedFrame (innerLength : Nat)
  | openBufferTooSmall (needed capacity : Nat)
  | authenticationFailed (counter : UInt32)
  | openedEnvelope (counter : UInt32) (innerLength : Nat) (method : Method)
  deriving DecidableEq, Repr

namespace Event

/-- Rejections are reported for debugging, successes as a trace. -/
inductive Level where
  | debug
  | trace
  deriving DecidableEq, Repr

def Level.name : Level → String
  | .debug => "debug"
  | .trace => "trace"

inductive Field where
  | number (value : Nat)
  | text (value : String)
  deriving DecidableEq, Repr

def level : Event → Level
  | sealedEnvelope .. | openedEnvelope .. => .trace
  | _ => .debug

def message : Event → String
  | shorterThanHeader _ => "envelope shorter than header"
  | invalidFlags .. => "invalid flags byte"
  | frameTooLarge _ => "inner frame too large to seal"
  | sealBufferTooSmall .. => "seal output buffer too small"
  | sealedEnvelope .. => "sealed envelope"
  | tooShortToOpen _ => "envelope too short to open"
  | unsupportedVersion _ => "unsupported envelope version"
  | suiteNotImplemented _ => "cipher suite not implemented"
  | oversizedFrame _ => "envelope carries an oversized inner frame"
  | openBufferTooSmall .. => "open output buffer too small"
  | authenticationFailed _ => "envelope authentication failed"
  | openedEnvelope .. => "opened envelope"

/-- The named values of an event, in alphabetical order of their names. -/
def fields : Event → List (String × Field)
  | shorterThanHeader length => [("len", .number length)]
  | invalidFlags flags error => [("flags", .number flags.toNat), ("kind", .text error.name)]
  | frameTooLarge innerLength => [("inner_len", .number innerLength)]
  | sealBufferTooSmall needed capacity =>
      [("capacity", .number capacity), ("needed", .number needed)]
  | sealedEnvelope counter length method =>
      [("counter", .number counter.toNat), ("len", .number length),
        ("method", .text method.name)]
  | tooShortToOpen length => [("len", .number length)]
  | unsupportedVersion version => [("version", .number version.toNat)]
  | suiteNotImplemented suite => [("cipher", .number suite.toNat)]
  | oversizedFrame innerLength => [("inner_len", .number innerLength)]
  | openBufferTooSmall needed capacity =>
      [("capacity", .number capacity), ("needed", .number needed)]
  | authenticationFailed counter => [("counter", .number counter.toNat)]
  | openedEnvelope counter innerLength method =>
      [("counter", .number counter.toNat), ("inner_len", .number innerLength),
        ("method", .text method.name)]

end Event

/-- A value together with the events reported on the way to it, in order. -/
structure Traced (α : Type) where
  value : α
  events : List Event

namespace Traced

def report {α : Type} (event : Event) (value : α) : Traced α :=
  ⟨value, [event]⟩

def silent {α : Type} (value : α) : Traced α :=
  ⟨value, []⟩

def map {α β : Type} (f : α → β) (traced : Traced α) : Traced β :=
  ⟨f traced.value, traced.events⟩

@[simp] theorem value_report {α : Type} (event : Event) (value : α) :
    (report event value).value = value := rfl

@[simp] theorem events_report {α : Type} (event : Event) (value : α) :
    (report event value).events = [event] := rfl

@[simp] theorem value_silent {α : Type} (value : α) : (silent value).value = value := rfl

@[simp] theorem events_silent {α : Type} (value : α) : (silent value).events = [] := rfl

@[simp] theorem value_map {α β : Type} (f : α → β) (traced : Traced α) :
    (traced.map f).value = f traced.value := rfl

@[simp] theorem events_map {α β : Type} (f : α → β) (traced : Traced α) :
    (traced.map f).events = traced.events := rfl

end Traced

end SealedFrame
