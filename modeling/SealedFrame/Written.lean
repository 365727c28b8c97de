import SealedFrame.Bytes
import SealedFrame.Error

/-!
Operations that write into a buffer of their caller. They see the buffer before the call and
give back the whole buffer after it, whether they succeed or not.
-/

namespace SealedFrame

/-- What a writing operation answers, and the caller's buffer after it. -/
structure Written (α : Type) where
  answer : Except Error α
  buffer : Bytes

namespace Written

def accept {α : Type} (value : α) (buffer : Bytes) : Written α :=
  ⟨.ok value, buffer⟩

def reject {α : Type} (error : Error) (buffer : Bytes) : Written α :=
  ⟨.error error, buffer⟩

def contents {α : Type} (written : Written α) : Except Error Bytes :=
  match written.answer with
  | .ok _ => .ok written.buffer
  | .error error => .error error

@[simp] theorem answer_accept {α : Type} (value : α) (buffer : Bytes) :
    (accept value buffer).answer = .ok value := rfl

@[simp] theorem buffer_accept {α : Type} (value : α) (buffer : Bytes) :
    (accept value buffer).buffer = buffer := rfl

@[simp] theorem answer_reject {α : Type} (error : Error) (buffer : Bytes) :
    (reject error buffer : Written α).answer = .error error := rfl

@[simp] theorem buffer_reject {α : Type} (error : Error) (buffer : Bytes) :
    (reject error buffer : Written α).buffer = buffer := rfl

end Written

end SealedFrame
