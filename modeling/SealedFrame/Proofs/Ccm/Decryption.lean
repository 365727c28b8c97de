import SealedFrame.Ccm
import SealedFrame.Proofs.Ccm.Encryption

namespace SealedFrame.Ccm

/-! Opening against sealing: what is accepted is exactly what sealing makes of the payload that
comes out. -/

variable (cipher : Block → Block) (nonce : Nonce) {associated payload input buffer : Bytes}

/-- The payload that a sealed text would have to hold. -/
def unmasked (input : Bytes) : Bytes :=
  applyKeystream cipher nonce (input.take (input.length - tagSize))

@[simp] theorem length_unmasked (input : Bytes) :
    (unmasked cipher nonce input).length = input.length - tagSize := by
  rw [unmasked, length_applyKeystream, List.length_take]
  omega

theorem wipeFront_filled (input buffer : Bytes) :
    (buffer.overwriteFront (unmasked cipher nonce input)).wipeFront (input.length - tagSize) =
      List.replicate (input.length - tagSize) 0 ++ buffer.drop (input.length - tagSize) := by
  rw [← length_unmasked cipher nonce input, Bytes.wipeFront_overwriteFront]

theorem unmasked_sealed (associated payload : Bytes) :
    unmasked cipher nonce (sealed cipher nonce associated payload) = payload := by
  have length := length_applyKeystream cipher nonce payload
  rw [unmasked, length_sealed, Nat.add_sub_cancel, sealed, ← length, List.take_left,
    applyKeystream_applyKeystream]

/-- The tag test, which looks at the end of the input only, settles the whole input. -/
theorem tag_eq_iff (associated input : Bytes) :
    (tag cipher nonce associated (unmasked cipher nonce input)).toList =
        input.drop (input.length - tagSize) ↔
      input = sealed cipher nonce associated (unmasked cipher nonce input) := by
  have masked : applyKeystream cipher nonce (unmasked cipher nonce input) =
      input.take (input.length - tagSize) :=
    applyKeystream_applyKeystream cipher nonce _
  rw [sealed, masked]
  constructor
  · intro matching
    rw [matching, List.take_append_drop]
  · intro whole
    have split := (List.take_append_drop (input.length - tagSize) input).trans whole
    exact (List.append_cancel_left split).symm

theorem decryptInto_of_fits (long : tagSize ≤ input.length)
    (payload_fits : input.length - tagSize ≤ maxPayload)
    (associated_fits : associated.length ≤ maxAssociated)
    (room : input.length - tagSize ≤ buffer.length) :
    decryptInto cipher nonce associated input buffer =
      let filled := buffer.overwriteFront (unmasked cipher nonce input)
      if input = sealed cipher nonce associated (unmasked cipher nonce input) then
        .accept (input.length - tagSize) filled
      else .reject .decryptionFailed (filled.wipeFront (input.length - tagSize)) := by
  simp only [decryptInto, if_neg (Nat.not_lt.2 long),
    lengthError?_eq_none payload_fits associated_fits, if_neg (Nat.not_lt.2 room)]
  exact ite_congr (propext (tag_eq_iff cipher nonce associated input))
    (fun _ => rfl) (fun _ => rfl)

theorem decryptInto_sealed (payload_fits : payload.length ≤ maxPayload)
    (associated_fits : associated.length ≤ maxAssociated)
    (room : payload.length ≤ buffer.length) :
    decryptInto cipher nonce associated (sealed cipher nonce associated payload) buffer =
      .accept payload.length (buffer.overwriteFront payload) := by
  have length : (sealed cipher nonce associated payload).length - tagSize = payload.length := by
    rw [length_sealed, Nat.add_sub_cancel]
  have payload_eq := unmasked_sealed cipher nonce associated payload
  rw [decryptInto_of_fits cipher nonce (by rw [length_sealed]; omega)
    (by rw [length]; exact payload_fits) associated_fits (by rw [length]; exact room)]
  simp only [payload_eq, length, if_true]

/-- Behind any masked text exactly one tag is accepted. -/
theorem answer_decryptInto_append {masked : Bytes} (received : Tag)
    (payload_fits : masked.length ≤ maxPayload)
    (associated_fits : associated.length ≤ maxAssociated)
    (room : masked.length ≤ buffer.length) :
    (decryptInto cipher nonce associated (masked ++ received.toList) buffer).answer =
      if received = tag cipher nonce associated (applyKeystream cipher nonce masked) then
        .ok masked.length
      else .error .decryptionFailed := by
  have whole : (masked ++ received.toList).length = masked.length + tagSize := by
    rw [List.length_append, Vector.length_toList, tagSize]
  have length : (masked ++ received.toList).length - tagSize = masked.length := by
    rw [whole, Nat.add_sub_cancel]
  have payload_eq : unmasked cipher nonce (masked ++ received.toList) =
      applyKeystream cipher nonce masked := by
    rw [unmasked, length, List.take_left]
  have genuine : masked ++ received.toList =
        sealed cipher nonce associated (applyKeystream cipher nonce masked) ↔
      received = tag cipher nonce associated (applyKeystream cipher nonce masked) := by
    rw [sealed, applyKeystream_applyKeystream, List.append_cancel_left_eq, Vector.toList_inj]
  rw [decryptInto_of_fits cipher nonce (by rw [whole]; omega)
    (by rw [length]; exact payload_fits) associated_fits (by rw [length]; exact room)]
  simp only [payload_eq, length, genuine]
  split
  · rfl
  · rfl

theorem fits_of_answer_decryptInto {count : Nat}
    (accepted : (decryptInto cipher nonce associated input buffer).answer = .ok count) :
    tagSize ≤ input.length ∧ input.length - tagSize ≤ maxPayload ∧
      associated.length ≤ maxAssociated ∧ input.length - tagSize ≤ buffer.length := by
  simp only [decryptInto] at accepted
  split at accepted
  · cases accepted
  · rename_i long
    split at accepted
    · cases accepted
    · rename_i passed
      obtain ⟨payload_fits, associated_fits⟩ := lengths_fit_of_lengthError? passed
      split at accepted
      · cases accepted
      · rename_i room
        exact ⟨Nat.not_lt.1 long, payload_fits, associated_fits, Nat.not_lt.1 room⟩

/-- An accepted input is the sealed text of the payload that it leaves in the buffer. -/
theorem eq_sealed_of_answer_decryptInto {count : Nat}
    (accepted : (decryptInto cipher nonce associated input buffer).answer = .ok count) :
    let payload := (decryptInto cipher nonce associated input buffer).buffer.take count
    payload.length = count ∧ input = sealed cipher nonce associated payload := by
  obtain ⟨long, payload_fits, associated_fits, room⟩ :=
    fits_of_answer_decryptInto cipher nonce accepted
  rw [decryptInto_of_fits cipher nonce long payload_fits associated_fits room] at accepted ⊢
  by_cases genuine : input = sealed cipher nonce associated (unmasked cipher nonce input)
  · simp only [if_pos genuine, Written.answer_accept, Except.ok.injEq] at accepted
    have length := (length_unmasked cipher nonce input).trans accepted
    simp only [if_pos genuine, Written.buffer_accept, ← length, Bytes.take_overwriteFront]
    exact ⟨trivial, genuine⟩
  · simp only [if_neg genuine, Written.answer_reject] at accepted
    cases accepted

/-! The image of sealing. -/

theorem decryptInto_of_genuine (long : tagSize ≤ input.length)
    (payload_fits : input.length - tagSize ≤ maxPayload)
    (associated_fits : associated.length ≤ maxAssociated)
    (room : input.length - tagSize ≤ buffer.length)
    (genuine : input = sealed cipher nonce associated (unmasked cipher nonce input)) :
    decryptInto cipher nonce associated input buffer =
      .accept (input.length - tagSize) (buffer.overwriteFront (unmasked cipher nonce input)) :=
  (decryptInto_of_fits cipher nonce long payload_fits associated_fits room).trans
    (if_pos genuine)

/-- What was written before the tag was checked is gone, and no byte behind it has changed. -/
theorem decryptInto_of_forged (long : tagSize ≤ input.length)
    (payload_fits : input.length - tagSize ≤ maxPayload)
    (associated_fits : associated.length ≤ maxAssociated)
    (room : input.length - tagSize ≤ buffer.length)
    (forged : input ≠ sealed cipher nonce associated (unmasked cipher nonce input)) :
    decryptInto cipher nonce associated input buffer =
      .reject .decryptionFailed (List.replicate (input.length - tagSize) 0 ++
        buffer.drop (input.length - tagSize)) := by
  have wiped := wipeFront_filled cipher nonce input buffer
  have refused := (decryptInto_of_fits cipher nonce long payload_fits associated_fits
    room).trans (if_neg forged)
  exact refused.trans (congrArg (Written.reject .decryptionFailed) wiped)

/-- Sealing a payload into `target` writes exactly `text` in front of what stood behind it. -/
def Writes (associated payload target text : Bytes) : Prop :=
  let written := encryptInto cipher nonce associated payload target
  written.answer = .ok text.length ∧ written.buffer = text ++ target.drop text.length

theorem writes_iff {target text : Bytes} (payload_fits : payload.length ≤ maxPayload)
    (associated_fits : associated.length ≤ maxAssociated)
    (length : text.length = payload.length + tagSize) (room : text.length ≤ target.length) :
    Writes cipher nonce associated payload target text ↔
      sealed cipher nonce associated payload = text := by
  have sealed_length : (sealed cipher nonce associated payload).length = text.length :=
    (length_sealed cipher nonce associated payload).trans length.symm
  have sealed_room : payload.length + tagSize ≤ target.length := length ▸ room
  have sealing := encryptInto_of_fits cipher nonce payload_fits associated_fits sealed_room
  rw [Writes, sealing, Written.answer_accept, Written.buffer_accept, Bytes.overwriteFront,
    sealed_length, length]
  constructor
  · rintro ⟨-, buffer_eq⟩
    exact List.append_cancel_right buffer_eq
  · intro text_eq
    exact ⟨rfl, by rw [text_eq]⟩

/-- Of all payloads only the unmasked one can have been sealed to the input. -/
theorem writes_input_iff {target : Bytes} (long : tagSize ≤ input.length)
    (payload_fits : input.length - tagSize ≤ maxPayload)
    (associated_fits : associated.length ≤ maxAssociated)
    (room : input.length ≤ target.length) (payload : Bytes) :
    (payload.length = input.length - tagSize ∧
        Writes cipher nonce associated payload target input) ↔
      input = sealed cipher nonce associated (unmasked cipher nonce input) ∧
        unmasked cipher nonce input = payload := by
  constructor
  · rintro ⟨length, written⟩
    have input_eq := (writes_iff cipher nonce (by rw [length]; exact payload_fits)
      associated_fits (by rw [length, Nat.sub_add_cancel long]) room).1 written
    have payload_eq : unmasked cipher nonce input = payload := by
      rw [← input_eq, unmasked_sealed]
    exact ⟨by rw [payload_eq, input_eq], payload_eq⟩
  · rintro ⟨genuine, rfl⟩
    have length := length_unmasked cipher nonce input
    refine ⟨length, ?_⟩
    exact (writes_iff cipher nonce (by rw [length]; exact payload_fits) associated_fits
      (by rw [length, Nat.sub_add_cancel long]) room).2 genuine.symm

theorem decryptInto_accepts_image (schedule : Aes.Schedule) (nonce : Nonce)
    (associated input buffer : Bytes) (associated_fits : associated.length ≤ 65279)
    (long : 8 ≤ input.length) (short : input.length ≤ 65543)
    (room : input.length - 8 ≤ buffer.length) :
    let opened := decryptInto schedule.encrypt nonce associated input buffer
    ∀ target : Bytes, input.length ≤ target.length →
      (∀ payload : Bytes,
        (opened.answer = .ok (input.length - 8) ∧
            opened.buffer.take (input.length - 8) = payload) ↔
          payload.length = input.length - 8 ∧
            Writes schedule.encrypt nonce associated payload target input) ∧
      (opened.answer = .error .decryptionFailed ↔
        ¬∃ payload : Bytes, payload.length = input.length - 8 ∧
          Writes schedule.encrypt nonce associated payload target input) := by
  intro opened target target_room
  have payload_fits : input.length - tagSize ≤ maxPayload := by
    rw [tagSize, maxPayload]
    omega
  have produced := writes_input_iff schedule.encrypt nonce long payload_fits associated_fits
    target_room
  by_cases genuine : input =
      sealed schedule.encrypt nonce associated (unmasked schedule.encrypt nonce input)
  · have opening : opened = .accept (input.length - 8)
        (buffer.overwriteFront (unmasked schedule.encrypt nonce input)) :=
      decryptInto_of_genuine schedule.encrypt nonce long payload_fits associated_fits room genuine
    have front : opened.buffer.take (input.length - 8) =
        unmasked schedule.encrypt nonce input := by
      have length : (unmasked schedule.encrypt nonce input).length = input.length - 8 :=
        length_unmasked schedule.encrypt nonce input
      rw [opening, Written.buffer_accept, ← length, Bytes.take_overwriteFront]
    have answer : opened.answer = .ok (input.length - 8) := congrArg Written.answer opening
    refine ⟨fun payload => ?_, ?_⟩
    · rw [front]
      exact ⟨fun accepted => (produced payload).2 ⟨genuine, accepted.2⟩,
        fun written => ⟨answer, ((produced payload).1 written).2⟩⟩
    · refine ⟨fun failed => ?_, fun unwritten => ?_⟩
      · rw [answer] at failed
        cases failed
      · exact absurd ⟨_, (produced _).2 ⟨genuine, rfl⟩⟩ unwritten
  · have answer : opened.answer = .error .decryptionFailed :=
      congrArg Written.answer (decryptInto_of_forged schedule.encrypt nonce long payload_fits
        associated_fits room genuine)
    refine ⟨fun payload => ⟨fun accepted => ?_, fun written => ?_⟩, fun _ => ?_, fun _ => answer⟩
    · rw [answer] at accepted
      cases accepted.1
    · exact absurd ((produced payload).1 written).1 genuine
    · rintro ⟨payload, written⟩
      exact genuine ((produced payload).1 written).1

/-- Under the erased schedule, what was sealed comes out again and no other payload does. -/
theorem decryptInto_accepts_image_erase :
    let schedule := (Aes.Schedule.expand (Octets.zeros 16)).erase
    let associated := List.replicate 8 1
    let payload := List.replicate 23 2
    ∃ input : Bytes, input.length = 31 ∧
      Writes schedule.encrypt (Octets.zeros 13) associated payload (List.replicate 40 4) input ∧
      let opened := decryptInto schedule.encrypt (Octets.zeros 13) associated input
        (List.replicate 30 3)
      opened.answer = .ok 23 ∧ opened.buffer.take 23 = payload ∧
        opened.answer ≠ .error .decryptionFailed := by
  intro schedule associated payload
  have found : ∃ input : Bytes, input.length = 31 ∧
      Writes schedule.encrypt (Octets.zeros 13) associated payload (List.replicate 40 4) input := by
    have length := length_sealed schedule.encrypt (Octets.zeros 13) associated payload
    exact ⟨_, length, (writes_iff schedule.encrypt (Octets.zeros 13) (by decide) (by decide)
      length (by rw [length]; decide)).2 rfl⟩
  obtain ⟨input, length, written⟩ := found
  obtain ⟨accepts, fails⟩ := decryptInto_accepts_image schedule (Octets.zeros 13) associated
    input (List.replicate 30 3) (by decide) (by omega) (by omega)
    (by rw [length]; decide) (List.replicate 40 4) (by rw [length]; decide)
  rw [length] at accepts fails
  obtain ⟨answer, front⟩ := (accepts payload).2 ⟨rfl, written⟩
  exact ⟨input, length, written, answer, front,
    fun failed => fails.1 failed ⟨payload, rfl, written⟩⟩

end SealedFrame.Ccm
