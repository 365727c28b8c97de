import SealedFrame.Proofs.BufferFrame

namespace SealedFrame.Envelope

/-! The calls that make their own buffer against those that write into one of the caller. The
buffer they make has exactly the size that is asked for, so nothing is refused for want of room. -/

variable {frame envelope buffer : Bytes} {label : Label} {key : Key}

/-- The buffer that is made for a frame has just the room for its envelope. -/
theorem length_own (frame : Bytes) :
    (List.replicate (lengthFor frame.length) (0 : UInt8)).length = 29 + frame.length := by
  rw [List.length_replicate, lengthFor_eq]

theorem sealed_of_oversized (long : frame.length > 16384) (label : Label) (key : Key) :
    sealed frame label key = .silent (.error .innerFrameTooLarge) :=
  if_pos long

theorem value_sealed (frame : Bytes) (label : Label) (key : Key) :
    (sealed frame label key).value =
      if frame.length > 16384 then .error .innerFrameTooLarge
      else .ok (image frame label key) := by
  by_cases long : frame.length > 16384
  · rw [sealed_of_oversized long, if_pos long, Traced.value_silent]
  · have accepted : ¬frame.length > maxFrame := long
    have filled : (List.replicate (lengthFor frame.length) (0 : UInt8)).drop
        (image frame label key).length = [] := by
      apply List.drop_eq_nil_of_le
      exact Nat.le_of_eq ((length_own frame).trans length_image.symm)
    rw [sealed, if_neg accepted, if_neg long, Traced.value_map,
      value_sealInto label key (Nat.not_lt.1 long) (Nat.le_of_eq (length_own frame).symm),
      Bytes.overwriteFront, filled, List.append_nil]
    rfl

theorem eq_image_of_sealed (accepted : (sealed frame label key).value = .ok envelope) :
    frame.length ≤ 16384 ∧ envelope = image frame label key := by
  rw [value_sealed] at accepted
  split at accepted
  · cases accepted
  · rename_i short
    exact ⟨Nat.not_lt.1 short, (Except.ok.inj accepted).symm⟩

theorem exists_sealed_iff :
    (∃ envelope : Bytes, (sealed frame label key).value = .ok envelope) ↔
      frame.length ≤ 16384 := by
  constructor
  · rintro ⟨envelope, accepted⟩
    exact (eq_image_of_sealed accepted).1
  · intro short
    exact ⟨image frame label key, by rw [value_sealed, if_neg (Nat.not_lt.2 short)]⟩

/-- Every caller's buffer with room for the envelope gets the bytes of the owned one in front. -/
theorem value_sealInto_of_sealed (accepted : (sealed frame label key).value = .ok envelope)
    (room : 29 + frame.length ≤ buffer.length) :
    (sealInto frame label key buffer).value =
      .accept envelope.length (envelope ++ buffer.drop envelope.length) := by
  obtain ⟨short, rfl⟩ := eq_image_of_sealed accepted
  rw [value_sealInto label key short room, Bytes.overwriteFront, length_image]

/-! Opening. The frame is cut out of the front of whichever buffer it was opened into. -/

/-- What a run over a buffer recovers: the opened frame stands in front of the buffer. -/
def recovered (written : Written Opened) : Except Error Contents :=
  match written.answer with
  | .error error => .error error
  | .ok opened => .ok ⟨opened.header, opened.method, written.buffer.take opened.length⟩

theorem answer_of_recovered {written : Written Opened} {error : Error}
    (refused : recovered written = .error error) : written.answer = .error error := by
  cases answered : written.answer with
  | error found =>
      simp only [recovered, answered] at refused
      cases refused
      rfl
  | ok opened =>
      simp only [recovered, answered] at refused
      cases refused

theorem recovered_congr {first second : Written Opened} (answer : second.answer = first.answer)
    (front : ∀ opened : Opened, first.answer = .ok opened →
      first.buffer.take opened.length = second.buffer.take opened.length) :
    recovered first = recovered second := by
  cases answered : first.answer with
  | error error => simp only [recovered, answer, answered]
  | ok opened => simp only [recovered, answer, answered, front opened answered]

/-- With room for the frame, the size of the buffer makes no difference to what is recovered. -/
theorem recovered_openInto (envelope : Bytes) (key : Key) {first second : Bytes}
    (room : envelope.length - 29 ≤ first.length)
    (other_room : envelope.length - 29 ≤ second.length) :
    recovered (openInto envelope key first).value =
      recovered (openInto envelope key second).value := by
  have alike := (frontWriter_openInto key envelope).roomLaw
  obtain ⟨answer, front⟩ := alike first second room other_room
  apply recovered_congr answer
  intro opened accepted
  simpa only [accepted, touched] using front

theorem objection?_ne_bufferTooSmall {capacity : Nat} (room : envelope.length - 29 ≤ capacity) :
    objection? envelope capacity ≠ some .bufferTooSmall := by
  dsimp only [objection?]
  rw [if_neg (Nat.not_lt.2 room)]
  intro found
  repeat' split at found
  all_goals cases found

theorem answer_openInto_ne_bufferTooSmall (room : envelope.length - 29 ≤ buffer.length) :
    (openInto envelope key buffer).value.answer ≠ .error .bufferTooSmall := by
  intro refused
  rcases objection?_of_answer_openInto refused with found | other
  · exact objection?_ne_bufferTooSmall room found
  · cases other

/-- The buffer that is made for an envelope has just the room for its frame. -/
theorem room_of_own (envelope : Bytes) :
    envelope.length - 29 ≤
      (List.replicate (envelope.length - minLength) (0 : UInt8)).length :=
  Nat.le_of_eq List.length_replicate.symm

theorem value_opened (room : envelope.length - 29 ≤ buffer.length) :
    (opened envelope key).value = recovered (openInto envelope key buffer).value :=
  recovered_openInto envelope key (room_of_own envelope) room

theorem opened_ne_bufferTooSmall : (opened envelope key).value ≠ .error .bufferTooSmall := by
  intro refused
  exact answer_openInto_ne_bufferTooSmall (room_of_own envelope) (answer_of_recovered refused)

theorem owned_refines_buffered (key : Key) :
    (∀ (frame : Bytes) (label : Label),
      let owned := (sealed frame label key).value
      ((∃ envelope : Bytes, owned = .ok envelope) ↔ frame.length ≤ 16384) ∧
        (∀ envelope : Bytes, owned = .ok envelope →
          envelope.length = 29 + frame.length ∧
            ∀ buffer : Bytes, 29 + frame.length ≤ buffer.length →
              (sealInto frame label key buffer).value =
                .accept envelope.length (envelope ++ buffer.drop envelope.length)) ∧
        (frame.length > 16384 →
          owned = .error .innerFrameTooLarge ∧
            ∀ buffer : Bytes,
              (sealInto frame label key buffer).value.answer = .error .innerFrameTooLarge)) ∧
      ∀ envelope : Bytes,
        (∀ buffer : Bytes, envelope.length - 29 ≤ buffer.length →
          (opened envelope key).value = recovered (openInto envelope key buffer).value) ∧
        (opened envelope key).value ≠ .error .bufferTooSmall := by
  refine ⟨fun frame label => ?_, fun envelope => ?_⟩
  · intro owned
    refine ⟨exists_sealed_iff, ?_, ?_⟩
    · intro envelope accepted
      refine ⟨?_, fun buffer room => value_sealInto_of_sealed accepted room⟩
      rw [(eq_image_of_sealed accepted).2, length_image]
    · intro long
      refine ⟨(value_sealed frame label key).trans (if_pos long), fun buffer => ?_⟩
      rw [value_sealInto_eq, if_pos long, Written.answer_reject]
  · exact ⟨fun buffer room => value_opened room, opened_ne_bufferTooSmall⟩

/-- One owned envelope against a longer buffer, what comes out of it against a longer buffer, and
a frame one byte too long. -/
theorem owned_refines_buffered_pull :
    let frame : Bytes := List.replicate 17 7
    let label : Label := ⟨.pull, 9, Octets.zeros 8, Octets.zeros 8⟩
    let key : Key := ⟨Octets.zeros 16⟩
    ∃ envelope : Bytes, (sealed frame label key).value = .ok envelope ∧
      envelope.length = 46 ∧
      (sealInto frame label key (List.replicate 50 1)).value =
        .accept 46 (envelope ++ List.replicate 4 1) ∧
      (opened envelope key).value =
        recovered (openInto envelope key (List.replicate 20 2)).value ∧
      (sealed (List.replicate 16385 7) label key).value = .error .innerFrameTooLarge := by
  intro frame label key
  obtain ⟨sealing, opening⟩ := owned_refines_buffered key
  obtain ⟨succeeds, describes, -⟩ := sealing frame label
  obtain ⟨envelope, accepted⟩ := succeeds.2 (by decide)
  obtain ⟨length, writes⟩ := describes envelope accepted
  have length_eq : envelope.length = 46 := length
  have written := writes (List.replicate 50 1) (by decide)
  rw [length_eq] at written
  have room : envelope.length - 29 ≤ (List.replicate 20 (2 : UInt8)).length := by
    rw [length_eq]
    decide
  have long : (List.replicate 16385 (7 : UInt8)).length > 16384 := by
    rw [List.length_replicate]
    decide
  exact ⟨envelope, accepted, length_eq, written, (opening envelope).1 _ room,
    ((sealing (List.replicate 16385 7) label).2.2 long).1⟩

end SealedFrame.Envelope
