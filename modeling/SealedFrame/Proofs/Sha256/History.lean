import SealedFrame.Proofs.BlockStream
import SealedFrame.Proofs.Sha256.Compression
import SealedFrame.Proofs.Slots

namespace SealedFrame.Sha256

/-! The hasher over any history: it ends in what the standard makes of the whole transcript. -/

def firstValue : Origin Unit → Standard.Variables
  | .started () => Standard.initial
  | .erased => Standard.zero

def transcriptHash (transcript : Transcript Unit) : Digest :=
  Standard.hashFrom (firstValue transcript.origin) transcript.message

/-- The hasher has fed the blocks of the transcript to the compression. -/
def Represents (hasher : Hasher) (transcript : Transcript Unit) : Prop :=
  ∃ first : State, first.toVariables = firstValue transcript.origin ∧
    BlockStream.Holds compress first transcript.message hasher

variable {hasher : Hasher} {transcript : Transcript Unit}

theorem Represents.update (held : Represents hasher transcript) (bytes : Bytes) :
    Represents (hasher.update bytes) (transcript.append bytes) := by
  obtain ⟨first, value, holds⟩ := held
  exact ⟨first, value, holds.absorb bytes⟩

theorem follows_represents : Follows Represents where
  start _ := ⟨State.initial, toVariables_initial, BlockStream.holds_start _⟩
  update := Represents.update
  erase _ := ⟨State.zero, toVariables_zero, BlockStream.holds_start _⟩

theorem Represents.finalize_eq (held : Represents hasher transcript) :
    hasher.finalize = transcriptHash transcript := by
  obtain ⟨first, value, holds⟩ := held
  calc
    hasher.finalize = ((Octets.cut 64 (Standard.pad transcript.message)).foldl compress
        first).toBytes := by
      rw [Hasher.finalize, holds.finish_eq]
    _ = Standard.toBytes ((Octets.cut 64 (Standard.pad transcript.message)).foldl
        Standard.compress (firstValue transcript.origin)) := by
      rw [← toBytes_toVariables, toVariables_foldl_compress, value]
    _ = transcriptHash transcript := rfl

theorem Represents.foldl_update (held : Represents hasher transcript) (pieces : List Bytes) :
    Represents (pieces.foldl Hasher.update hasher) (transcript.append pieces.flatten) :=
  follows_represents.foldl_update held pieces

theorem Represents.with_buffer (held : Represents hasher transcript) {buffer : Octets 64}
    (front : buffer.toList.take hasher.pending = hasher.buffer.toList.take hasher.pending) :
    Represents { hasher with buffer := buffer } transcript := by
  obtain ⟨first, value, holds⟩ := held
  exact ⟨first, value, holds.with_buffer front⟩

theorem hash_eq_standard (message : Bytes) : hash message = Standard.hash message :=
  ((follows_represents.start ()).update message).finalize_eq

theorem finalize_after_history (history : List (Action Unit)) :
    ((Slots.empty : Slots Hasher).run history).isSome = feasible history.reverse ∧
      ∀ (slots : Slots Hasher) (digests : List Digest),
        (Slots.empty : Slots Hasher).run history = some (slots, digests) →
        ∀ slot : Nat,
          (slots.step (.finish slot)).map Prod.snd =
              (Transcript.after history slot).map transcriptHash ∧
            ∀ hasher : Hasher, slots slot = some hasher →
              (∀ (buffer : Octets 64) (pieces : List Bytes),
                buffer.toList.take hasher.pending =
                  hasher.buffer.toList.take hasher.pending →
                (pieces.foldl Hasher.update { hasher with buffer := buffer }).finalize =
                  (hasher.update pieces.flatten).finalize) ∧
              ∀ (further : List (Action Unit)) (next : Slots Hasher) (shown : List Digest),
                slots.run further = some (next, shown) →
                (∀ action ∈ further, slot ≠ action.target) → next slot = some hasher := by
  have reversed : history.reverse.reverse = history := List.reverse_reverse history
  refine ⟨?_, ?_⟩
  · rw [← Slots.isSome_run follows_represents, reversed]
  · intro slots digests ran slot
    rw [← reversed] at ran
    have held := Slots.follow_run follows_represents ran
    refine ⟨?_, ?_⟩
    · exact held.digest_finish Represents.finalize_eq slot
    · intro hasher filled
      obtain ⟨transcript, known, represents⟩ := held.exists_transcript filled
      refine ⟨?_, ?_⟩
      · intro buffer pieces front
        have pieced := ((represents.with_buffer front).foldl_update pieces).finalize_eq
        have whole := (represents.update pieces.flatten).finalize_eq
        exact pieced.trans whole.symm
      · intro further next shown later elsewhere
        rw [Slots.run_of_ne_target later elsewhere, filled]

/-- A hasher that was copied, and whose copy was erased and is fed on. -/
theorem finalize_after_history_erase :
    let history : List (Action Unit) :=
      [.start 0 (), .update 0 [97], .copy 0 1, .erase 1, .update 1 [98, 99], .update 0 [98, 99]]
    ∃ (slots : Slots Hasher) (digests : List Digest) (hasher : Hasher),
      (Slots.empty : Slots Hasher).run history = some (slots, digests) ∧
        slots 0 = some hasher ∧
        (slots.step (.finish 0)).map Prod.snd =
          some (Standard.hashFrom Standard.initial [97, 98, 99]) ∧
        (slots.step (.finish 1)).map Prod.snd =
          some (Standard.hashFrom Standard.zero [98, 99]) ∧
        ((hasher.update [100]).update [101]).finalize = (hasher.update [100, 101]).finalize ∧
        ∀ (next : Slots Hasher) (shown : List Digest),
          slots.run [.copy 0 2, .update 2 [100]] = some (next, shown) →
          next 0 = some hasher := by
  intro history
  obtain ⟨carried, ends⟩ := finalize_after_history history
  have found : feasible history.reverse = true := rfl
  obtain ⟨⟨slots, digests⟩, ran⟩ := Option.isSome_iff_exists.1 (carried.trans found)
  obtain ⟨original, each⟩ := ends slots digests ran 0
  obtain ⟨copied, -⟩ := ends slots digests ran 1
  cases filled : slots 0 with
  | none =>
      rw [Slots.step, filled] at original
      cases original
  | some hasher =>
      obtain ⟨pieced, undisturbed⟩ := each hasher filled
      have apart : ∀ action ∈ ([.copy 0 2, .update 2 [100]] : List (Action Unit)),
          0 ≠ action.target := by
        simp [Action.target]
      exact ⟨slots, digests, hasher, ran, filled, original, copied,
        pieced hasher.buffer [[100], [101]] rfl,
        fun next shown later => undisturbed _ next shown later apart⟩

end SealedFrame.Sha256
