import SealedFrame.Proofs.Ccm.Separation
import SealedFrame.Proofs.Envelope.Image

namespace SealedFrame.Envelope

/-! No two envelopes share a counter block unless their labels agree on what enters the nonce, and
then only under the same number. -/

def Label.maskBlocks (label : Label) (frame : Bytes) : List Block :=
  Ccm.maskBlocks label.sealedHeader.nonce frame.length

variable {frame otherFrame buffer : Bytes} {label otherLabel : Label} {key : Key}

/-- The blocks of a label are the ones that its envelope is masked with. -/
theorem maskedUnder_sealInto {total : Nat}
    (accepted : (sealInto frame label key buffer).value.answer = .ok total) :
    Ccm.MaskedUnder (cipher key) (label.maskBlocks frame) frame
      (Ccm.mac (cipher key) label.sealedHeader.nonce label.sealedHeader.toBytes.toList frame)
      (((sealInto frame label key buffer).value.buffer.take total).drop Header.size) := by
  rw [take_buffer_sealInto accepted, drop_image]
  exact Ccm.maskedUnder_sealed (cipher key) label.sealedHeader.nonce
    label.sealedHeader.toBytes.toList frame

theorem maskBlocks_inj {index otherIndex : Nat} {block : Block}
    (short : frame.length ≤ maxFrame) (other_short : otherFrame.length ≤ maxFrame)
    (found : (label.maskBlocks frame)[index]? = some block)
    (other_found : (otherLabel.maskBlocks otherFrame)[otherIndex]? = some block) :
    index = otherIndex ∧ label.method = otherLabel.method ∧
      label.counter = otherLabel.counter ∧
      label.deviceHash.toList.take 4 = otherLabel.deviceHash.toList.take 4 := by
  obtain ⟨indices, nonces⟩ := Ccm.maskBlocks_inj (frame_fits short) (frame_fits other_short)
    found other_found
  obtain ⟨flags, hashes, counters⟩ := Header.nonceOf_inj.1 nonces
  exact ⟨indices, Method.id_inj.1 flags, counters, hashes⟩

theorem counterBlocks_never_meet (frame otherFrame : Bytes) (label otherLabel : Label)
    (key otherKey : Key) (buffer otherBuffer : Bytes) (total otherTotal : Nat)
    (accepted : (sealInto frame label key buffer).value.answer = .ok total)
    (other_accepted :
      (sealInto otherFrame otherLabel otherKey otherBuffer).value.answer = .ok otherTotal) :
    Ccm.MaskedUnder (Aes.Schedule.expand key.octets).encrypt (label.maskBlocks frame) frame
        (Ccm.mac (Aes.Schedule.expand key.octets).encrypt label.sealedHeader.nonce
          label.sealedHeader.toBytes.toList frame)
        (((sealInto frame label key buffer).value.buffer.take total).drop 21) ∧
      (∀ (index otherIndex : Nat) (block : Block),
        (label.maskBlocks frame)[index]? = some block →
        (otherLabel.maskBlocks otherFrame)[otherIndex]? = some block →
        index = otherIndex ∧ label.method = otherLabel.method ∧
          label.counter = otherLabel.counter ∧
          label.deviceHash.toList.take 4 = otherLabel.deviceHash.toList.take 4) ∧
      (∀ (cipher : Block → Block) (nonce : Ccm.Nonce) (associated payload buffer : Bytes)
          (total : Nat),
        let written := Ccm.encryptInto cipher nonce associated payload buffer
        written.answer = .ok total →
          Ccm.MaskedUnder cipher (Ccm.maskBlocks nonce payload.length) payload
            (Ccm.mac cipher nonce associated payload) (written.buffer.take total)) ∧
      (∀ (cipher : Block → Block) (nonce : Ccm.Nonce) (associated input buffer : Bytes)
          (count : Nat),
        let written := Ccm.decryptInto cipher nonce associated input buffer
        let payload := written.buffer.take count
        written.answer = .ok count →
          Ccm.MaskedUnder cipher (Ccm.maskBlocks nonce count) payload
            (Ccm.mac cipher nonce associated payload) input) ∧
      (∀ (nonce other : Ccm.Nonce) (length : Nat) (associated payload : Bytes),
        ∀ block ∈ Ccm.maskBlocks nonce length,
          block ≠ Ccm.firstBlock other associated payload) ∧
      ∀ (nonce : Ccm.Nonce) (length : Nat), length ≤ 65535 →
        (Ccm.maskBlocks nonce length).Nodup := by
  obtain ⟨short, -, -⟩ := fits_of_answer_sealInto accepted
  obtain ⟨other_short, -, -⟩ := fits_of_answer_sealInto other_accepted
  refine ⟨maskedUnder_sealInto accepted, ?_, ?_, ?_, ?_, ?_⟩
  · intro index otherIndex block found other_found
    exact maskBlocks_inj short other_short found other_found
  · intro cipher nonce associated payload buffer total written written_ok
    exact Ccm.maskedUnder_encryptInto written_ok
  · intro cipher nonce associated input buffer count written payload written_ok
    exact Ccm.maskedUnder_decryptInto written_ok
  · intro nonce other length associated payload block member
    exact Ccm.ne_firstBlock_of_mem member other associated payload
  · intro nonce length fits
    exact Ccm.nodup_maskBlocks nonce fits

/-- One frame sealed twice under one key, with a counter and the next one. -/
theorem counterBlocks_never_meet_of_next_counter :
    let frame : Bytes := List.replicate 40 7
    let label : Label := ⟨.push, 41, Octets.zeros 8, Octets.zeros 8⟩
    let next : Label := ⟨.push, 42, Octets.zeros 8, Octets.zeros 8⟩
    let key : Key := ⟨Octets.zeros 16⟩
    let buffer : Bytes := List.replicate 70 1
    (sealInto frame label key buffer).value.answer = .ok 69 ∧
      (sealInto frame next key buffer).value.answer = .ok 69 ∧
      ∀ block ∈ label.maskBlocks frame, block ∉ next.maskBlocks frame := by
  intro frame label next key buffer
  have accepted (chosen : Label) : (sealInto frame chosen key buffer).value.answer = .ok 69 :=
    congrArg Written.answer (value_sealInto chosen key (by decide) (by decide))
  refine ⟨accepted label, accepted next, ?_⟩
  intro block member other_member
  obtain ⟨index, found⟩ := List.mem_iff_getElem?.1 member
  obtain ⟨otherIndex, other_found⟩ := List.mem_iff_getElem?.1 other_member
  obtain ⟨-, apart, -⟩ := counterBlocks_never_meet frame frame label next key key buffer
    buffer 69 69 (accepted label) (accepted next)
  obtain ⟨-, -, counters, -⟩ := apart index otherIndex block found other_found
  exact absurd counters (by decide)

end SealedFrame.Envelope
