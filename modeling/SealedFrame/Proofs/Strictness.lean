import SealedFrame.Proofs.Envelope.Strictness
import SealedFrame.Proofs.Hmac.History
import SealedFrame.Proofs.Hmac.Strictness

namespace SealedFrame

/-! Every operation agrees with its strict form, which stops at the first range that leaves its
string, length that differs, difference below zero or number that does not fit. So none of them ever
relies on a string being clipped or a number being cut off. -/

namespace Sha256

/-- The count of bytes is that of the message, and so is the count of bits made from it. -/
structure CountsExactly (hasher : Hasher) (message : Bytes) : Prop where
  bytes : hasher.total.toNat = message.length
  bits : (hasher.total * 8).toNat = 8 * message.length
  pending : hasher.pending = message.length % 64

theorem Represents.countsExactly {hasher : Hasher} {transcript : Transcript Unit}
    (held : Represents hasher transcript) (short : transcript.message.length < 2 ^ 61) :
    CountsExactly hasher transcript.message := by
  obtain ⟨first, -, holds⟩ := held
  have bytes : hasher.total.toNat = transcript.message.length := by
    rw [holds.total_eq, UInt64.toNat_ofNat']
    exact Nat.mod_eq_of_lt (by omega)
  refine ⟨bytes, ?_, BlockStream.pending_eq holds.total_eq⟩
  rw [UInt64.toNat_mul, bytes]
  change transcript.message.length * 8 % 2 ^ 64 = 8 * transcript.message.length
  omega

end Sha256

theorem Hmac.length_outerTranscript_le (transcript : Transcript Bytes) :
    (outerTranscript transcript).message.length ≤ 64 := by
  obtain ⟨origin, message⟩ := transcript
  cases origin with
  | started key =>
      change ((blockKey key).toList.map (· ^^^ outerMask)).length ≤ 64
      rw [List.length_map, Vector.length_toList]
  | erased => exact Nat.zero_le 64

theorem operations_never_fault :
    (∀ (frame : Bytes) (label : Envelope.Label) (key : Key) (buffer : Bytes),
      Envelope.Strict.sealInto frame label key buffer =
          .ok (Envelope.sealInto frame label key buffer) ∧
        Envelope.Strict.sealed frame label key = .ok (Envelope.sealed frame label key)) ∧
      (∀ (envelope : Bytes) (key : Key) (buffer : Bytes),
        Envelope.Strict.openInto envelope key buffer =
            .ok (Envelope.openInto envelope key buffer) ∧
          Envelope.Strict.opened envelope key = .ok (Envelope.opened envelope key)) ∧
      (∀ (schedule : Aes.Schedule) (nonce : Ccm.Nonce) (associated text buffer : Bytes),
        let cipher := Aes.Strict.encrypt schedule.toBytes
        Ccm.Strict.encryptInto cipher nonce associated text buffer =
            .ok (Ccm.encryptInto schedule.encrypt nonce associated text buffer) ∧
          Ccm.Strict.decryptInto cipher nonce associated text buffer =
            .ok (Ccm.decryptInto schedule.encrypt nonce associated text buffer) ∧
          ((∃ code, Ccm.Strict.mac cipher nonce associated text = .ok code) ↔
            associated.length < 65536 ∧ text.length < 65536) ∧
          (Ccm.lengthError? associated text.length = none →
            Ccm.Strict.mac cipher nonce associated text =
              .ok (Ccm.mac schedule.encrypt nonce associated text))) ∧
      ((∀ (hasher : Sha256.Hasher) (bytes : Bytes),
          hasher.pending < 64 ∧
            Sha256.Strict.update hasher bytes = .ok (hasher.update bytes) ∧
            Sha256.Strict.finalize hasher = .ok hasher.finalize ∧
            Sha256.Strict.hash bytes = .ok (Sha256.hash bytes)) ∧
        ∀ (hasher : Sha256.Hasher) (transcript : Transcript Unit),
          Slots.Reached hasher transcript → transcript.message.length < 2 ^ 61 →
          Sha256.CountsExactly hasher transcript.message) ∧
      (∀ (hmac : Hmac) (key bytes : Bytes),
        Hmac.Strict.new key = .ok (Hmac.new key) ∧
          Hmac.Strict.update hmac bytes = .ok (hmac.update bytes) ∧
          Hmac.Strict.finalize hmac = .ok hmac.finalize ∧
          Hmac.Strict.mac key bytes = .ok (Hmac.mac key bytes)) ∧
      ∀ (hmac : Hmac) (transcript : Transcript Bytes),
        Slots.Reached hmac transcript →
        (Hmac.innerTranscript transcript).message.length < 2 ^ 61 →
        Sha256.CountsExactly hmac.inner (Hmac.innerTranscript transcript).message ∧
          Sha256.CountsExactly hmac.outer (Hmac.outerTranscript transcript).message := by
  refine ⟨?_, ?_, ?_, ⟨?_, ?_⟩, ?_, ?_⟩
  · intro frame label key buffer
    exact ⟨Envelope.Strict.sealInto_eq frame label key buffer,
      Envelope.Strict.sealed_eq frame label key⟩
  · intro envelope key buffer
    exact ⟨Envelope.Strict.openInto_eq envelope key buffer, Envelope.Strict.opened_eq envelope key⟩
  · intro schedule nonce associated text buffer cipher
    have total : ∀ block, cipher block = .ok (schedule.encrypt block) :=
      Aes.Strict.encrypt_eq schedule
    refine ⟨?_, ?_, ?_, ?_⟩
    · exact Ccm.Strict.encryptInto_eq nonce total associated text buffer
    · exact Ccm.Strict.decryptInto_eq nonce total associated text buffer
    · exact Ccm.Strict.exists_mac_iff nonce total associated text
    · intro passed
      exact Ccm.Strict.mac_eq nonce total (Ccm.Strict.short_of_lengthError? passed)
  · intro hasher bytes
    exact ⟨hasher.pending_lt, Sha256.Strict.update_eq hasher bytes,
      Sha256.Strict.finalize_eq hasher, Sha256.Strict.hash_eq bytes⟩
  · intro hasher transcript reached short
    exact (Slots.related_of_reached Sha256.follows_represents reached).countsExactly short
  · intro hmac key bytes
    exact ⟨Hmac.Strict.new_eq key, Hmac.Strict.update_eq hmac bytes,
      Hmac.Strict.finalize_eq hmac, Hmac.Strict.mac_eq key bytes⟩
  · intro hmac transcript reached short
    have held := Slots.related_of_reached Hmac.follows_represents reached
    have outer_short := Hmac.length_outerTranscript_le transcript
    exact ⟨held.inner.countsExactly short, held.outer.countsExactly (by omega)⟩

/-- A copy that was erased and is fed on, a keyed hash that was fed, and the code of nothing. -/
theorem operations_never_fault_after_erase :
    let hasher := (Sha256.Hasher.new.update [97]).erase.update [98, 99]
    let hmac := (Hmac.new [11]).update [97]
    let schedule := Aes.Schedule.expand (Octets.zeros 16)
    Sha256.CountsExactly hasher [98, 99] ∧
      Sha256.CountsExactly hmac.inner (Hmac.pad [11] Hmac.innerMask ++ [97]) ∧
      Sha256.CountsExactly hmac.outer (Hmac.pad [11] Hmac.outerMask) ∧
      Ccm.Strict.mac (Aes.Strict.encrypt schedule.toBytes) (Octets.zeros 13) [] [] =
        .ok (Ccm.mac schedule.encrypt (Octets.zeros 13) [] []) := by
  intro hasher hmac schedule
  obtain ⟨-, -, modes, ⟨-, hashers⟩, -, hmacs⟩ := operations_never_fault
  have hasher_reached : Slots.Reached hasher ⟨.erased, [98, 99]⟩ :=
    ⟨[.start 0 (), .update 0 [97], .copy 0 1, .erase 1, .update 1 [98, 99]], _, _, 1, rfl, rfl, rfl⟩
  have hmac_reached : Slots.Reached hmac ⟨.started [11], [97]⟩ :=
    ⟨[.start 0 [11], .update 0 [97]], _, _, 0, rfl, rfl, rfl⟩
  have pad_length : (Hmac.pad [11] Hmac.innerMask).length = 64 := by
    rw [Hmac.pad, List.length_map, Vector.length_toList]
  have short : (Hmac.pad [11] Hmac.innerMask ++ [97]).length < 2 ^ 61 := by
    rw [List.length_append, pad_length]
    decide
  obtain ⟨inner, outer⟩ := hmacs hmac _ hmac_reached short
  obtain ⟨-, -, -, made⟩ := modes schedule (Octets.zeros 13) [] [] []
  exact ⟨hashers hasher _ hasher_reached (by decide), inner, outer, made rfl⟩

end SealedFrame
