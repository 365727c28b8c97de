import SealedFrame.Written

namespace SealedFrame

/-! Operations that check before they write. -/

variable {α : Type}

namespace Written

/-- Checks made in order, before anything is written. The first that holds refuses with its error
and leaves the buffer; `outcome` is what comes of it when none does. -/
def guarded (checks : List (Bool × Error)) (buffer : Bytes) (outcome : Written α) : Written α :=
  match checks.find? Prod.fst with
  | some check => .reject check.2 buffer
  | none => outcome

@[simp] theorem guarded_nil (buffer : Bytes) (outcome : Written α) :
    guarded [] buffer outcome = outcome := rfl

theorem guarded_cons (condition : Prop) [Decidable condition] (error : Error)
    (checks : List (Bool × Error)) (buffer : Bytes) (outcome : Written α) :
    guarded ((decide condition, error) :: checks) buffer outcome =
      if condition then .reject error buffer else guarded checks buffer outcome := by
  cases decided : decide condition with
  | true => exact (if_pos (of_decide_eq_true decided)).symm
  | false => exact (if_neg (of_decide_eq_false decided)).symm

theorem guarded_cons_of_not {condition : Prop} [Decidable condition] (passed : ¬condition)
    (error : Error) (checks : List (Bool × Error)) (buffer : Bytes) (outcome : Written α) :
    guarded ((decide condition, error) :: checks) buffer outcome =
      guarded checks buffer outcome :=
  (guarded_cons condition error checks buffer outcome).trans (if_neg passed)

end Written

/-! Operations that write into a buffer without reading it. -/

/-- Two runs over buffers of one length answer alike, and the answer, with that length, counts the
bytes in front that are the same after both runs. Behind them stands what stood there before. -/
def FrameLaw (operation : Bytes → Written α) (count : Nat → Except Error α → Nat) : Prop :=
  ∀ first second : Bytes, first.length = second.length →
    let kept := count first.length (operation first).answer
    (operation second).answer = (operation first).answer ∧
      kept ≤ first.length ∧
      (operation first).buffer.length = first.length ∧
      (operation second).buffer.length = second.length ∧
      (operation first).buffer.take kept = (operation second).buffer.take kept ∧
      (operation first).buffer.drop kept = first.drop kept ∧
      (operation second).buffer.drop kept = second.drop kept

/-- Any two buffers with room for the `needed` bytes get one answer and the same bytes in front,
whatever their lengths. -/
def RoomLaw (operation : Bytes → Written α) (needed : Nat) (count : Except Error α → Nat) : Prop :=
  ∀ first second : Bytes, needed ≤ first.length → needed ≤ second.length →
    let kept := count (operation first).answer
    (operation second).answer = (operation first).answer ∧
      (operation first).buffer.take kept = (operation second).buffer.take kept

structure FrontLaw (operation : Bytes → Written α) (needed : Nat)
    (count : Except Error α → Nat) : Prop where
  frame : FrameLaw operation fun _ => count
  room : RoomLaw operation needed count

/-- The bytes in front that an answer accounts for: those of a result, or those that a failure
wiped. -/
def touched (produced : α → Nat) (wiped : Error → Nat) : Except Error α → Nat
  | .ok value => produced value
  | .error error => wiped error

/-- An answer, and the bytes that go to the front of a buffer with it. -/
structure Effect (α : Type) where
  answer : Except Error α
  front : Bytes

namespace Effect

def refuse (error : Error) : Effect α :=
  ⟨.error error, []⟩

def wipe (error : Error) (count : Nat) : Effect α :=
  ⟨.error error, List.replicate count 0⟩

def onto (effect : Effect α) (buffer : Bytes) : Written α :=
  ⟨effect.answer, buffer.overwriteFront effect.front⟩

variable (effect : Effect α)

@[simp] theorem answer_onto (buffer : Bytes) : (effect.onto buffer).answer = effect.answer := rfl

@[simp] theorem take_onto (buffer : Bytes) :
    (effect.onto buffer).buffer.take effect.front.length = effect.front :=
  Bytes.take_overwriteFront buffer effect.front

@[simp] theorem drop_onto (buffer : Bytes) :
    (effect.onto buffer).buffer.drop effect.front.length = buffer.drop effect.front.length :=
  Bytes.drop_overwriteFront buffer effect.front

@[simp] theorem length_front_wipe (error : Error) (count : Nat) :
    (wipe error count : Effect α).front.length = count := List.length_replicate

theorem onto_wipe (error : Error) (count : Nat) (buffer : Bytes) :
    (wipe error count : Effect α).onto buffer =
      .reject error (List.replicate count 0 ++ buffer.drop count) :=
  congrArg (Written.reject error) (Bytes.wipeFront_eq buffer count)

end Effect

theorem frameLaw_of_onto {operation : Bytes → Written α} {count : Nat → Except Error α → Nat}
    (settled : ∀ capacity : Nat, ∃ effect : Effect α,
      effect.front.length = count capacity effect.answer ∧ effect.front.length ≤ capacity ∧
        ∀ buffer : Bytes, buffer.length = capacity → operation buffer = effect.onto buffer) :
    FrameLaw operation count := by
  intro first second same
  obtain ⟨effect, counted, fits, writes⟩ := settled first.length
  rw [writes first rfl, writes second same.symm, effect.answer_onto, ← counted]
  have other_fits : effect.front.length ≤ second.length := same ▸ fits
  exact ⟨rfl, fits, Bytes.length_overwriteFront fits, Bytes.length_overwriteFront other_fits,
    (effect.take_onto first).trans (effect.take_onto second).symm, effect.drop_onto first,
    effect.drop_onto second⟩

/-- One effect on every buffer with room for the `needed` bytes, one refusal of every other. -/
structure FrontWriter (operation : Bytes → Written α) (needed : Nat)
    (count : Except Error α → Nat) : Prop where
  roomy : ∃ effect : Effect α,
    effect.front.length = count effect.answer ∧ effect.front.length ≤ needed ∧
      ∀ buffer : Bytes, needed ≤ buffer.length → operation buffer = effect.onto buffer
  cramped : ∃ error : Error, count (.error error) = 0 ∧
    ∀ buffer : Bytes, buffer.length < needed → operation buffer = .reject error buffer

namespace FrontWriter

variable {operation : Bytes → Written α} {needed : Nat} {count : Except Error α → Nat}

theorem of_reject (error : Error) (uncounted : count (.error error) = 0)
    (refused : ∀ buffer : Bytes, operation buffer = .reject error buffer) :
    FrontWriter operation needed count where
  roomy := ⟨.refuse error, uncounted.symm, Nat.zero_le _, fun buffer _ => refused buffer⟩
  cramped := ⟨error, uncounted, fun buffer _ => refused buffer⟩

theorem of_effect (effect : Effect α) (counted : effect.front.length = count effect.answer)
    (fits : effect.front.length ≤ needed) (uncounted : count (.error .bufferTooSmall) = 0)
    (settled : ∀ buffer : Bytes, operation buffer =
      if buffer.length < needed then .reject .bufferTooSmall buffer else effect.onto buffer) :
    FrontWriter operation needed count where
  roomy := ⟨effect, counted, fits, fun buffer room =>
    (settled buffer).trans (if_neg (Nat.not_lt.2 room))⟩
  cramped := ⟨.bufferTooSmall, uncounted, fun buffer small =>
    (settled buffer).trans (if_pos small)⟩

theorem frameLaw (writer : FrontWriter operation needed count) :
    FrameLaw operation fun _ => count := by
  apply frameLaw_of_onto
  intro capacity
  by_cases small : capacity < needed
  · obtain ⟨error, uncounted, refused⟩ := writer.cramped
    refine ⟨.refuse error, uncounted.symm, Nat.zero_le _, ?_⟩
    rintro buffer rfl
    exact refused buffer small
  · have room := Nat.not_lt.1 small
    obtain ⟨effect, counted, fits, writes⟩ := writer.roomy
    refine ⟨effect, counted, Nat.le_trans fits room, ?_⟩
    rintro buffer rfl
    exact writes buffer room

theorem roomLaw (writer : FrontWriter operation needed count) :
    RoomLaw operation needed count := by
  intro first second room other_room
  obtain ⟨effect, counted, -, writes⟩ := writer.roomy
  rw [writes first room, writes second other_room, effect.answer_onto, ← counted]
  exact ⟨rfl, (effect.take_onto first).trans (effect.take_onto second).symm⟩

theorem frontLaw (writer : FrontWriter operation needed count) :
    FrontLaw operation needed count :=
  ⟨writer.frameLaw, writer.roomLaw⟩

end FrontWriter

end SealedFrame
