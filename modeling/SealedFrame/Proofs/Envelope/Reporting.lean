import SealedFrame.Proofs.Envelope.Decision

namespace SealedFrame

namespace Event

/-! The events of a rejection and of a success, and what each says of the answer. -/

inductive Rejects : Event → Error → Prop
  | shorterThanHeader (length : Nat) : Rejects (.shorterThanHeader length) .envelopeTooShort
  | invalidFlags {flags : UInt8} {error : Error} (refused : Flags.decode flags = .error error) :
      Rejects (.invalidFlags flags error) error
  | frameTooLarge (innerLength : Nat) : Rejects (.frameTooLarge innerLength) .innerFrameTooLarge
  | sealBufferTooSmall (needed capacity : Nat) :
      Rejects (.sealBufferTooSmall needed capacity) .bufferTooSmall
  | tooShortToOpen (length : Nat) : Rejects (.tooShortToOpen length) .envelopeTooShort
  | unsupportedVersion (version : UInt8) :
      Rejects (.unsupportedVersion version) .unsupportedVersion
  | suiteNotImplemented (suite : UInt8) : Rejects (.suiteNotImplemented suite) .unsupportedCipher
  | oversizedFrame (innerLength : Nat) : Rejects (.oversizedFrame innerLength) .innerFrameTooLarge
  | openBufferTooSmall (needed capacity : Nat) :
      Rejects (.openBufferTooSmall needed capacity) .bufferTooSmall
  | authenticationFailed (counter : UInt32) :
      Rejects (.authenticationFailed counter) .decryptionFailed

variable {event : Event} {error : Error}

theorem message_eq_authenticationFailed_iff :
    event.message = "envelope authentication failed" ↔
      ∃ counter : UInt32, event = .authenticationFailed counter := by
  cases event <;> simp [message]

theorem message_eq_invalidFlags_iff :
    event.message = "invalid flags byte" ↔
      ∃ (flags : UInt8) (error : Error), event = .invalidFlags flags error := by
  cases event <;> simp [message]

theorem Rejects.level (rejects : Rejects event error) : event.level = .debug := by
  cases rejects <;> rfl

/-- Only the event of a refused tag stands beside the error of one. -/
theorem Rejects.decryptionFailed_iff (rejects : Rejects event error) :
    (∃ counter : UInt32, event = .authenticationFailed counter) ↔ error = .decryptionFailed := by
  constructor
  · rintro ⟨counter, rfl⟩
    cases rejects
    rfl
  · rintro rfl
    cases rejects with
    | invalidFlags refused => exact absurd refused (Flags.decode_ne_decryptionFailed _)
    | authenticationFailed counter => exact ⟨counter, rfl⟩

theorem mem_fields_invalidFlags {flags : UInt8} {value : Field} :
    ("kind", value) ∈ (invalidFlags flags error).fields ↔ value = .text error.name := by
  simp [fields]

/-- What the one event of a call says of its answer. -/
structure Reflects {α : Type} (event : Event) (answer : Except Error α) : Prop where
  trace : event.level = .trace ↔ answer.isOk = true
  debug : event.level = .debug ↔ answer.isOk = false
  tag : event.message = "envelope authentication failed" ↔ answer = .error .decryptionFailed
  kind : event.message = "invalid flags byte" →
    ∃ error : Error, answer = .error error ∧
      ∀ value : Field, ("kind", value) ∈ event.fields ↔ value = .text error.name

theorem Rejects.reflects {α : Type} (rejects : Rejects event error) :
    event.Reflects (.error error : Except Error α) where
  trace := by
    rw [rejects.level]
    simp [Except.isOk, Except.toBool]
  debug := by
    rw [rejects.level]
    simp [Except.isOk, Except.toBool]
  tag := by
    rw [message_eq_authenticationFailed_iff, rejects.decryptionFailed_iff, Except.error.injEq]
  kind := by
    intro named
    obtain ⟨flags, found, rfl⟩ := message_eq_invalidFlags_iff.1 named
    cases rejects
    exact ⟨error, rfl, fun value => mem_fields_invalidFlags⟩

theorem reflects_of_trace {α : Type} (traced : event.level = .trace) (value : α) :
    event.Reflects (.ok value) where
  trace := by
    rw [traced]
    simp [Except.isOk, Except.toBool]
  debug := by
    rw [traced]
    simp [Except.isOk, Except.toBool]
  tag := by
    rw [message_eq_authenticationFailed_iff]
    constructor
    · rintro ⟨counter, rfl⟩
      cases traced
    · rintro ⟨⟩
  kind := by
    intro named
    obtain ⟨flags, found, rfl⟩ := message_eq_invalidFlags_iff.1 named
    cases traced

end Event

namespace Envelope

/-! The reports of the three operations, as functions of what is not secret. -/

def sealReport (frameLength capacity : Nat) (method : Method) (counter : UInt32) : Event :=
  if frameLength > 16384 then .frameTooLarge frameLength
  else if capacity < 29 + frameLength then .sealBufferTooSmall (29 + frameLength) capacity
  else .sealedEnvelope counter (29 + frameLength) method

def openReport (envelope : Bytes) (capacity : Nat) (succeeded : Bool) : Event :=
  match screen envelope capacity with
  | .error refusal => refusal.event
  | .ok screened =>
      if succeeded then
        .openedEnvelope screened.header.counter (envelope.length - 29) screened.method
      else .authenticationFailed screened.header.counter

def parseReports (length : Nat) (flags : UInt8) : List Event :=
  if length < Header.size then [.shorterThanHeader length]
  else
    match Flags.decode flags with
    | .error error => [.invalidFlags flags error]
    | .ok _ => []

theorem rejects_of_screen {envelope : Bytes} {capacity : Nat} {refusal : Refusal}
    (refused : screen envelope capacity = .error refusal) :
    Event.Rejects refusal.event refusal.error := by
  unfold screen at refused
  split at refused
  · cases refused
    exact .tooShortToOpen envelope.length
  · split at refused
    · rename_i error unread
      obtain ⟨-, rfl⟩ := (Header.ofBytes_eq_error_iff envelope error).1 unread
      cases refused
      exact .shorterThanHeader envelope.length
    · split at refused
      · rename_i error unread
        cases refused
        exact .invalidFlags unread
      · rename_i flags decoded
        dsimp only at refused
        split at refused
        · cases refused
          exact .unsupportedVersion flags.version
        · split at refused
          · cases refused
            exact .suiteNotImplemented flags.suite.id
          · split at refused
            · cases refused
              exact .oversizedFrame _
            · split at refused
              · cases refused
                exact .openBufferTooSmall _ capacity
              · cases refused

theorem sealInto_reports (frame : Bytes) (label : Label) (key : Key) (buffer : Bytes) :
    let call := sealInto frame label key buffer
    call.events = [sealReport frame.length buffer.length label.method label.counter] ∧
      (sealReport frame.length buffer.length label.method label.counter).Reflects
        call.value.answer := by
  intro call
  have call_eq : call = _ := sealInto_eq frame label key buffer
  rw [call_eq, sealReport]
  split
  · exact ⟨rfl, (Event.Rejects.frameTooLarge frame.length).reflects⟩
  · split
    · exact ⟨rfl, (Event.Rejects.sealBufferTooSmall _ buffer.length).reflects⟩
    · exact ⟨rfl, Event.reflects_of_trace rfl _⟩

theorem openInto_reports (envelope : Bytes) (key : Key) (buffer : Bytes) :
    let call := openInto envelope key buffer
    call.events = [openReport envelope buffer.length call.value.answer.isOk] ∧
      (openReport envelope buffer.length call.value.answer.isOk).Reflects
        call.value.answer := by
  intro call
  have call_eq : call = _ := openInto_eq_screen envelope key buffer
  rw [call_eq, openReport]
  cases passed : screen envelope buffer.length with
  | error refusal => exact ⟨rfl, (rejects_of_screen passed).reflects⟩
  | ok screened =>
      simp only [unlock_eq (describes_of_screen passed)]
      by_cases authentic : Authentic envelope key
      · rw [if_pos authentic]
        exact ⟨rfl, Event.reflects_of_trace rfl _⟩
      · rw [if_neg authentic]
        exact ⟨rfl, (Event.Rejects.authenticationFailed _).reflects⟩

theorem parseHeader_eq (envelope : Bytes) :
    parseHeader envelope =
      if envelope.length < Header.size then
        .report (.shorterThanHeader envelope.length) (.error .envelopeTooShort)
      else
        match Flags.decode (envelope.headD 0) with
        | .error error => .report (.invalidFlags (envelope.headD 0) error) (.error error)
        | .ok _ => .silent (Header.ofBytes envelope) := by
  by_cases short : envelope.length < Header.size
  · have refused := (Header.ofBytes_eq_error_iff envelope _).2 ⟨short, rfl⟩
    simp only [parseHeader, refused, if_pos short]
  · rw [if_neg short]
    cases decoded : Flags.decode (envelope.headD 0) with
    | error error => simp only [parseHeader, Header.ofBytes, if_neg short, decoded]
    | ok flags => simp only [parseHeader, Header.ofBytes, if_neg short, decoded]

/-- A header that is refused is reported once, and one that is read not at all. -/
theorem parseHeader_reports (envelope : Bytes) :
    let call := parseHeader envelope
    call.events = parseReports envelope.length (envelope.headD 0) ∧
      (∀ error : Error, call.value = .error error →
        ∃ event : Event, call.events = [event] ∧ event.Reflects call.value) ∧
      ∀ header : Header, call.value = .ok header → call.events = [] := by
  intro call
  have call_eq : call = _ := parseHeader_eq envelope
  rw [call_eq, parseReports]
  by_cases short : envelope.length < Header.size
  · rw [if_pos short, if_pos short]
    refine ⟨rfl, fun error _ => ⟨_, rfl, ?_⟩, nofun⟩
    exact (Event.Rejects.shorterThanHeader envelope.length).reflects
  · rw [if_neg short, if_neg short]
    cases decoded : Flags.decode (envelope.headD 0) with
    | error error =>
        refine ⟨rfl, fun _ _ => ⟨_, rfl, ?_⟩, nofun⟩
        exact (Event.Rejects.invalidFlags decoded).reflects
    | ok flags =>
        refine ⟨rfl, fun error refused => ?_, fun header _ => rfl⟩
        exact absurd ((Header.ofBytes_eq_error_iff envelope error).1 refused).1 short

/-! What two calls report alike. -/

theorem screen_congr {envelope other : Bytes} (length : envelope.length = other.length)
    (front : envelope.take Header.size = other.take Header.size) (capacity : Nat) :
    screen envelope capacity = screen other capacity := by
  rw [screen, screen, length, Header.ofBytes_congr front]

theorem openReport_congr {envelope other : Bytes} (length : envelope.length = other.length)
    (front : envelope.take Header.size = other.take Header.size) (capacity : Nat)
    (succeeded : Bool) :
    openReport envelope capacity succeeded = openReport other capacity succeeded := by
  rw [openReport, openReport, length, screen_congr length front]

theorem reports_once_without_disclosure :
    (∀ (frame : Bytes) (label : Label) (key : Key) (buffer : Bytes),
      let call := sealInto frame label key buffer
      ∃ event : Event, call.events = [event] ∧ event.Reflects call.value.answer) ∧
    (∀ (envelope : Bytes) (key : Key) (buffer : Bytes),
      let call := openInto envelope key buffer
      ∃ event : Event, call.events = [event] ∧ event.Reflects call.value.answer) ∧
    (∀ envelope : Bytes,
      let call := parseHeader envelope
      (∀ error : Error, call.value = .error error →
        ∃ event : Event, call.events = [event] ∧ event.Reflects call.value) ∧
      ∀ header : Header, call.value = .ok header → call.events = []) ∧
    (∀ (envelope other : Bytes) (key otherKey : Key) (buffer otherBuffer : Bytes),
      let call := openInto envelope key buffer
      let otherCall := openInto other otherKey otherBuffer
      envelope.length = other.length → envelope.take 21 = other.take 21 →
        buffer.length = otherBuffer.length →
        call.value.answer.isOk = otherCall.value.answer.isOk → call.events = otherCall.events) ∧
    (∀ (frame other : Bytes) (label otherLabel : Label) (key otherKey : Key)
        (buffer otherBuffer : Bytes),
      frame.length = other.length → buffer.length = otherBuffer.length →
        label.method = otherLabel.method → label.counter = otherLabel.counter →
        (sealInto frame label key buffer).events =
          (sealInto other otherLabel otherKey otherBuffer).events) ∧
    ∀ envelope other : Bytes,
      envelope.length = other.length → envelope.head? = other.head? →
        (parseHeader envelope).events = (parseHeader other).events := by
  refine ⟨?_, ?_, ?_, ?_, ?_, ?_⟩
  · intro frame label key buffer
    exact ⟨_, sealInto_reports frame label key buffer⟩
  · intro envelope key buffer
    exact ⟨_, openInto_reports envelope key buffer⟩
  · intro envelope
    exact (parseHeader_reports envelope).2
  · intro envelope other key otherKey buffer otherBuffer call otherCall
      length front capacity outcome
    rw [(openInto_reports envelope key buffer).1, (openInto_reports other otherKey otherBuffer).1,
      openReport_congr length front, capacity, outcome]
  · intro frame other label otherLabel key otherKey buffer otherBuffer
      length capacity method counter
    rw [(sealInto_reports frame label key buffer).1,
      (sealInto_reports other otherLabel otherKey otherBuffer).1, length, capacity, method, counter]
  · intro envelope other length first
    rw [(parseHeader_reports envelope).1, (parseHeader_reports other).1, length,
      List.headD_eq_head?_getD, first, ← List.headD_eq_head?_getD]

/-- Two frames of one length under two keys: neither sealing nor opening them tells them apart. -/
theorem reports_once_without_disclosure_ack :
    let frame : Bytes := List.replicate 17 7
    let other : Bytes := List.replicate 17 8
    let label : Label := ⟨.ack, 5, Octets.zeros 8, Octets.zeros 8⟩
    let key : Key := ⟨Octets.zeros 16⟩
    let otherKey : Key := ⟨Vector.replicate 16 5⟩
    let buffer : Bytes := List.replicate 46 0
    (openInto (image frame label key) key buffer).events =
        (openInto (image other label otherKey) otherKey buffer).events ∧
      (sealInto frame label key buffer).events = (sealInto other label otherKey buffer).events ∧
      (parseHeader [3, 1]).events = (parseHeader [3, 2]).events ∧
      (parseHeader (3 :: List.replicate 20 0)).events = [] ∧
      ∃ event : Event, (parseHeader [3, 1]).events = [event] ∧
        event.Reflects (parseHeader [3, 1]).value := by
  intro frame other label key otherKey buffer
  obtain ⟨-, -, parses, opens, seals, parsesAlike⟩ := reports_once_without_disclosure
  have opened : (openInto (image frame label key) key buffer).value.answer.isOk = true := by
    rw [value_openInto_image label key (by decide) (by decide)]
    rfl
  have otherOpened :
      (openInto (image other label otherKey) otherKey buffer).value.answer.isOk = true := by
    rw [value_openInto_image label otherKey (by decide) (by decide)]
    rfl
  have length : (image frame label key).length = (image other label otherKey).length := by
    rw [length_image, length_image]
    rfl
  have front : (image frame label key).take 21 = (image other label otherKey).take 21 :=
    take_image.trans take_image.symm
  exact ⟨opens _ _ key otherKey buffer buffer length front rfl (opened.trans otherOpened.symm),
    seals frame other label label key otherKey buffer buffer rfl rfl rfl rfl,
    parsesAlike [3, 1] [3, 2] rfl rfl, (parses (3 :: List.replicate 20 0)).2 _ rfl,
    (parses [3, 1]).1 .envelopeTooShort rfl⟩

end Envelope

end SealedFrame
