import SealedFrame.Hmac.Standard
import SealedFrame.Proofs.Sha256.History

namespace SealedFrame

/-! The keyed hash over any history: two hashers that each keep up with a transcript of their own,
the masked key in front of the message in one and alone in the other. -/

theorem Bytes.xor_replicate {bytes : Bytes} {count : Nat} (length : bytes.length = count)
    (mask : UInt8) :
    Bytes.xor bytes (List.replicate count mask) = bytes.map (· ^^^ mask) := by
  subst length
  induction bytes with
  | nil => rfl
  | cons byte rest induction =>
      rw [List.length_cons, List.replicate_succ, List.map_cons, ← induction]
      rfl

namespace Hmac

/-! The key. -/

theorem toList_blockKey (key : Bytes) :
    (blockKey key).toList = Standard.blockKey Sha256.Standard.hash key := by
  by_cases long : key.length > 64
  · have short := Nat.not_le.2 long
    rw [blockKey, if_pos long, Standard.blockKey, if_neg short, Octets.toList_padded,
      Sha256.hash_eq_standard, List.take_of_length_le (by rw [Vector.length_toList]; decide)]
  · rw [blockKey, if_neg long, Standard.blockKey, if_pos (Nat.not_lt.1 long),
      Octets.toList_padded, List.take_of_length_le (Nat.not_lt.1 long)]

theorem pad_eq_xor (key : Bytes) (mask : UInt8) :
    pad key mask =
      Bytes.xor (Standard.blockKey Sha256.Standard.hash key) (List.replicate 64 mask) := by
  rw [← toList_blockKey, Bytes.xor_replicate Vector.length_toList, pad]

/-! The two hashers. -/

def innerTranscript (transcript : Transcript Bytes) : Transcript Unit :=
  match transcript.origin with
  | .started key => ⟨.started (), pad key innerMask ++ transcript.message⟩
  | .erased => ⟨.erased, transcript.message⟩

def outerTranscript (transcript : Transcript Bytes) : Transcript Unit :=
  match transcript.origin with
  | .started key => ⟨.started (), pad key outerMask⟩
  | .erased => ⟨.erased, []⟩

@[simp] theorem innerTranscript_append (transcript : Transcript Bytes) (bytes : Bytes) :
    innerTranscript (transcript.append bytes) = (innerTranscript transcript).append bytes := by
  obtain ⟨origin, message⟩ := transcript
  cases origin with
  | started key => simp [innerTranscript, Transcript.append]
  | erased => rfl

@[simp] theorem outerTranscript_append (transcript : Transcript Bytes) (bytes : Bytes) :
    outerTranscript (transcript.append bytes) = outerTranscript transcript := rfl

structure Represents (hmac : Hmac) (transcript : Transcript Bytes) : Prop where
  inner : Sha256.Represents hmac.inner (innerTranscript transcript)
  outer : Sha256.Represents hmac.outer (outerTranscript transcript)

theorem represents_new (key : Bytes) : Represents (new key) ⟨.started key, []⟩ where
  inner := by
    have keyed : innerTranscript ⟨.started key, []⟩ =
        Transcript.append ⟨.started (), []⟩ (pad key innerMask) := by
      simp [innerTranscript, Transcript.append]
    rw [keyed]
    exact (Sha256.follows_represents.start ()).update (pad key innerMask)
  outer := (Sha256.follows_represents.start ()).update (pad key outerMask)

theorem Represents.update {hmac : Hmac} {transcript : Transcript Bytes}
    (held : Represents hmac transcript) (bytes : Bytes) :
    Represents (hmac.update bytes) (transcript.append bytes) where
  inner := by
    rw [innerTranscript_append]
    exact held.inner.update bytes
  outer := by
    rw [outerTranscript_append]
    exact held.outer

theorem follows_represents : Follows Represents where
  start := represents_new
  update := Represents.update
  erase held := ⟨Sha256.follows_represents.erase held.inner,
    Sha256.follows_represents.erase held.outer⟩

/-- What the standard makes of a transcript. Erased, both hashes start from eight zero words and
no key stands in front. -/
def transcriptMac (transcript : Transcript Bytes) : Digest :=
  match transcript.origin with
  | .started key => Standard.mac Sha256.Standard.hash key transcript.message
  | .erased =>
      let zeroHash := Sha256.Standard.hashFrom Sha256.Standard.zero
      zeroHash (zeroHash transcript.message).toList

theorem Represents.finalize_eq {hmac : Hmac} {transcript : Transcript Bytes}
    (held : Represents hmac transcript) : hmac.finalize = transcriptMac transcript := by
  have inner_eq := held.inner.finalize_eq
  have outer_eq := (held.outer.update hmac.inner.finalize.toList).finalize_eq
  rw [finalize, outer_eq, inner_eq]
  obtain ⟨origin, message⟩ := transcript
  cases origin with
  | started key =>
      simp only [transcriptMac, Standard.mac, ← pad_eq_xor]
      rfl
  | erased => rfl

theorem finalize_foldl_update (key : Bytes) (pieces : List Bytes) :
    (pieces.foldl update (new key)).finalize =
      Standard.mac Sha256.Standard.hash key pieces.flatten :=
  (follows_represents.foldl_update (represents_new key) pieces).finalize_eq

theorem mac_eq_standard (key message : Bytes) :
    mac key message = Standard.mac Sha256.Standard.hash key message :=
  ((represents_new key).update message).finalize_eq

theorem mac_after_history (history : List (Action Bytes)) :
    ((Slots.empty : Slots Hmac).run history).isSome = feasible history.reverse ∧
      (∀ (slots : Slots Hmac) (digests : List Digest),
        (Slots.empty : Slots Hmac).run history = some (slots, digests) →
        ∀ slot : Nat,
          (slots.step (.finish slot)).map Prod.snd =
            (Transcript.after history slot).map transcriptMac) ∧
      ∀ (key : Bytes) (pieces : List Bytes),
        (pieces.foldl update (new key)).finalize = mac key pieces.flatten ∧
          mac key pieces.flatten =
            Standard.mac Sha256.Standard.hash key pieces.flatten := by
  have reversed : history.reverse.reverse = history := List.reverse_reverse history
  refine ⟨?_, ?_, ?_⟩
  · rw [← Slots.isSome_run follows_represents, reversed]
  · intro slots digests ran slot
    rw [← reversed] at ran
    exact (Slots.follow_run follows_represents ran).digest_finish Represents.finalize_eq slot
  · intro key pieces
    have whole : mac key pieces.flatten =
        Standard.mac Sha256.Standard.hash key pieces.flatten :=
      ((represents_new key).update pieces.flatten).finalize_eq
    exact ⟨(finalize_foldl_update key pieces).trans whole.symm, whole⟩

/-- A keyed hash that was copied, and whose copy was erased and is fed on. -/
theorem mac_after_history_erase :
    let key : Bytes := List.replicate 65 11
    let history : List (Action Bytes) :=
      [.start 0 key, .update 0 [97], .copy 0 1, .erase 1, .update 1 [98, 99], .update 0 [98, 99]]
    ∃ (slots : Slots Hmac) (digests : List Digest),
      (Slots.empty : Slots Hmac).run history = some (slots, digests) ∧
        (slots.step (.finish 0)).map Prod.snd =
          some (Standard.mac Sha256.Standard.hash key [97, 98, 99]) ∧
        (slots.step (.finish 1)).map Prod.snd =
          some (Sha256.Standard.hashFrom Sha256.Standard.zero
            (Sha256.Standard.hashFrom Sha256.Standard.zero [98, 99]).toList) := by
  intro key history
  obtain ⟨carried, ends, -⟩ := mac_after_history history
  have found : feasible history.reverse = true := rfl
  obtain ⟨⟨slots, digests⟩, ran⟩ := Option.isSome_iff_exists.1 (carried.trans found)
  exact ⟨slots, digests, ran, ends slots digests ran 0, ends slots digests ran 1⟩

end Hmac

end SealedFrame
