import SealedFrame.Proofs.Envelope.Owned
import SealedFrame.Proofs.Envelope.Reporting

namespace SealedFrame.Envelope

/-! What the calls that make their own buffer report, against those that write into one of the
caller. Sealing refuses a frame that is too long before it comes to the reporting call. -/

variable {frame envelope buffer : Bytes} {label : Label} {key : Key} {error : Error}

/-! Sealing. -/

theorem sealInto_of_oversized (long : frame.length > 16384) (label : Label) (key : Key)
    (buffer : Bytes) :
    sealInto frame label key buffer =
      .report (.frameTooLarge frame.length) (.reject .innerFrameTooLarge buffer) :=
  if_pos long

theorem events_sealInto_of_room (short : frame.length ≤ 16384)
    (room : 29 + frame.length ≤ buffer.length) (label : Label) (key : Key) :
    (sealInto frame label key buffer).events =
      [.sealedEnvelope label.counter (29 + frame.length) label.method] := by
  rw [(sealInto_reports frame label key buffer).1, sealReport, if_neg (Nat.not_lt.2 short),
    if_neg (Nat.not_lt.2 room)]

theorem events_sealed_of_fits (short : frame.length ≤ 16384) (label : Label) (key : Key) :
    (sealed frame label key).events =
      [.sealedEnvelope label.counter (29 + frame.length) label.method] := by
  have accepted : ¬frame.length > maxFrame := Nat.not_lt.2 short
  have room := Nat.le_of_eq (length_own frame).symm
  rw [sealed, if_neg accepted, Traced.events_map, events_sealInto_of_room short room]

theorem events_sealed_eq_iff (room : 29 + frame.length ≤ buffer.length) :
    (sealed frame label key).events = (sealInto frame label key buffer).events ↔
      frame.length ≤ 16384 := by
  constructor
  · intro alike
    rcases Nat.lt_or_ge 16384 frame.length with long | short
    · rw [sealed_of_oversized long, sealInto_of_oversized long] at alike
      cases alike
    · exact short
  · intro short
    rw [events_sealed_of_fits short, events_sealInto_of_room short room]

/-- The owned call can only refuse a frame for its length, and then it reports nothing. -/
theorem events_sealed_of_refused (refused : (sealed frame label key).value = .error error) :
    (sealed frame label key).events = [] := by
  rcases Nat.lt_or_ge 16384 frame.length with long | short
  · rw [sealed_of_oversized long, Traced.events_silent]
  · rw [value_sealed, if_neg (Nat.not_lt.2 short)] at refused
    cases refused

/-! Opening. The reports see a buffer only as one with room or without. -/

theorem screen_of_room (envelope : Bytes) {capacity other : Nat}
    (room : envelope.length - 29 ≤ capacity) (other_room : envelope.length - 29 ≤ other) :
    screen envelope capacity = screen envelope other := by
  have wide : ¬capacity < envelope.length - minLength := Nat.not_lt.2 room
  have other_wide : ¬other < envelope.length - minLength := Nat.not_lt.2 other_room
  simp only [screen, if_neg wide, if_neg other_wide]

theorem events_openInto_of_room (envelope : Bytes) (key : Key) {first second : Bytes}
    (room : envelope.length - 29 ≤ first.length)
    (other_room : envelope.length - 29 ≤ second.length) :
    (openInto envelope key first).events = (openInto envelope key second).events := by
  have alike := (frontWriter_openInto key envelope).roomLaw
  obtain ⟨answer, -⟩ := alike first second room other_room
  rw [(openInto_reports envelope key first).1, (openInto_reports envelope key second).1, answer,
    openReport, openReport, screen_of_room envelope room other_room]

theorem events_opened (room : envelope.length - 29 ≤ buffer.length) :
    (opened envelope key).events = (openInto envelope key buffer).events :=
  events_openInto_of_room envelope key (room_of_own envelope) room

theorem exists_event_of_opened (refused : (opened envelope key).value = .error error) :
    ∃ event : Event, (opened envelope key).events = [event] ∧ event.level = .debug := by
  obtain ⟨reported, reflects⟩ :=
    openInto_reports envelope key (List.replicate (envelope.length - minLength) 0)
  refine ⟨_, reported, reflects.debug.2 ?_⟩
  rw [answer_of_recovered refused]
  rfl

theorem owned_reports_unless_oversized (key : Key) :
    (∀ (frame : Bytes) (label : Label) (buffer : Bytes), 29 + frame.length ≤ buffer.length →
      let own := sealed frame label key
      let call := sealInto frame label key buffer
      (own.events = call.events ↔ frame.length ≤ 16384) ∧
        (frame.length > 16384 →
          own = .silent (.error .innerFrameTooLarge) ∧
            call = .report (.frameTooLarge frame.length) (.reject .innerFrameTooLarge buffer)) ∧
        ∀ error : Error, own.value = .error error → own.events = []) ∧
    ∀ envelope buffer : Bytes, envelope.length - 29 ≤ buffer.length →
      let own := opened envelope key
      own.events = (openInto envelope key buffer).events ∧
        ∀ error : Error, own.value = .error error →
          ∃ event : Event, own.events = [event] ∧ event.level = .debug := by
  refine ⟨fun frame label buffer room => ⟨?_, ?_, ?_⟩, fun envelope buffer room => ⟨?_, ?_⟩⟩
  · exact events_sealed_eq_iff room
  · intro long
    exact ⟨sealed_of_oversized long label key, sealInto_of_oversized long label key buffer⟩
  · intro error refused
    exact events_sealed_of_refused refused
  · exact events_opened room
  · intro error refused
    exact exists_event_of_opened refused

/-- A frame that fits, the longest that does not, and a message cut short, each against a buffer
with just the room for it. -/
theorem owned_reports_unless_oversized_push :
    let key : Key := ⟨Octets.zeros 16⟩
    let label : Label := ⟨.push, 7, Octets.zeros 8, Octets.zeros 8⟩
    let frame : Bytes := [1, 2, 3]
    let message : Bytes := [0x41, 0]
    (sealed frame label key).events =
        (sealInto frame label key (List.replicate 32 0)).events ∧
      sealed (List.replicate 16385 0) label key = .silent (.error .innerFrameTooLarge) ∧
      (opened message key).events = (openInto message key []).events ∧
      ∃ event : Event, (opened message key).events = [event] ∧ event.level = .debug := by
  intro key label frame message
  obtain ⟨sealing, opening⟩ := owned_reports_unless_oversized key
  have length : (List.replicate 16414 (0 : UInt8)).length =
      29 + (List.replicate 16385 (0 : UInt8)).length := by
    rw [List.length_replicate, List.length_replicate]
  have long : (List.replicate 16385 (0 : UInt8)).length > 16384 := by
    rw [List.length_replicate]
    decide
  obtain ⟨alike, -, -⟩ := sealing frame label (List.replicate 32 0) (by decide)
  obtain ⟨-, silent, -⟩ := sealing (List.replicate 16385 0) label (List.replicate 16414 0)
    (Nat.le_of_eq length.symm)
  obtain ⟨echoed, reported⟩ := opening message [] (by decide)
  exact ⟨alike.2 (by decide), (silent long).1, echoed, reported .envelopeTooShort rfl⟩

/-- The shortest frame that is too long, against a buffer with just the room for its envelope. -/
theorem sealed_silent_where_sealInto_reports :
    let key : Key := ⟨Octets.zeros 16⟩
    let label : Label := ⟨.pull, 1, Octets.zeros 8, Octets.zeros 8⟩
    let frame : Bytes := List.replicate 16385 0
    let buffer : Bytes := List.replicate 16414 0
    buffer.length = 29 + frame.length ∧
      (sealed frame label key).value = .error .innerFrameTooLarge ∧
      (sealed frame label key).events = [] ∧
      (sealInto frame label key buffer).events = [.frameTooLarge 16385] := by
  intro key label frame buffer
  have length : frame.length = 16385 := List.length_replicate
  have long : frame.length > 16384 := by
    rw [length]
    decide
  rw [sealed_of_oversized long, sealInto_of_oversized long, length]
  exact ⟨List.length_replicate, rfl, rfl, rfl⟩

end SealedFrame.Envelope
