import Mathlib.Data.List.Induction
import SealedFrame.Sha256
import SealedFrame.Proofs.BlockStream

namespace SealedFrame

/-! No padded message ends in another one, because each ends in its own length. -/

namespace Sha256.Standard

theorem length_pad_mod (message : Bytes) : (pad message).length % 64 = 0 := by
  simp only [pad, List.length_append, List.length_cons, List.length_replicate,
    length_bigEndian]
  omega

theorem pad_eq_append_length (message : Bytes) :
    pad message =
      message ++ 0x80 :: List.replicate ((119 - message.length % 64) % 64) 0 ++
        bigEndian 8 (8 * message.length) := by
  rw [pad, List.append_assoc, List.cons_append]

theorem eq_of_pad_suffix {first second : Bytes} (short : first.length < 2 ^ 61)
    (other_short : second.length < 2 ^ 61) (suffix : pad first <:+ pad second) :
    first = second := by
  rw [pad_eq_append_length, pad_eq_append_length,
    List.suffix_append_inj_of_length_eq (by rw [length_bigEndian, length_bigEndian]),
    bigEndian_inj (by omega) (by omega)] at suffix
  obtain ⟨fronts, bits⟩ := suffix
  have length : first.length = second.length := Nat.eq_of_mul_eq_mul_left (by decide) bits
  have whole := fronts.eq_of_length (by
    simp only [List.length_append, List.length_cons, List.length_replicate, length])
  exact List.append_inj_left whole length

theorem eq_of_blocks_suffix {first second : Bytes} (short : first.length < 2 ^ 61)
    (other_short : second.length < 2 ^ 61)
    (suffix : Octets.cut 64 (pad first) <:+ Octets.cut 64 (pad second)) : first = second := by
  obtain ⟨front, split⟩ := suffix
  refine eq_of_pad_suffix short other_short ⟨front.flatMap Vector.toList, ?_⟩
  rw [← Octets.flatMap_cut_of_whole (length_pad_mod first), ← List.flatMap_append, split,
    Octets.flatMap_cut_of_whole (length_pad_mod second)]

end Sha256.Standard

/-! What a stream gives to its step. The record is kept by the step itself, so that what is
recorded is the stream that runs. -/

namespace BlockStream

variable {State : Type} (step : State → Octets 64 → State)

/-- The step, with a record of every state and block that it was given. -/
def recording (recorded : State × List (State × Octets 64)) (block : Octets 64) :
    State × List (State × Octets 64) :=
  (step recorded.1 block, recorded.2 ++ [(recorded.1, block)])

/-- What the step is given while it consumes blocks one after the other. -/
def given (state : State) : List (Octets 64) → List (State × Octets 64)
  | [] => []
  | block :: rest => (state, block) :: given (step state block) rest

theorem foldl_recording (state : State) (record : List (State × Octets 64))
    (blocks : List (Octets 64)) :
    blocks.foldl (recording step) (state, record) =
      (blocks.foldl step state, record ++ given step state blocks) := by
  induction blocks generalizing state record with
  | nil => simp only [List.foldl_nil, given, List.append_nil]
  | cons block rest induction =>
      simp only [List.foldl_cons, recording, given, induction, List.append_assoc,
        List.singleton_append]

theorem given_append (state : State) (blocks others : List (Octets 64)) :
    given step state (blocks ++ others) =
      given step state blocks ++ given step (blocks.foldl step state) others := by
  induction blocks generalizing state with
  | nil => rfl
  | cons block rest induction =>
      simp only [List.cons_append, given, List.foldl_cons, induction]

/-- Two different inputs among the given ones lead to one state. -/
def Collision (inputs : List (State × Octets 64)) : Prop :=
  ∃ left ∈ inputs, ∃ right ∈ inputs, left ≠ right ∧ step left.1 left.2 = step right.1 right.2

variable {step} {origin other : State}

theorem Collision.mono {inputs more : List (State × Octets 64)} (found : Collision step inputs)
    (among : inputs ⊆ more) : Collision step more := by
  obtain ⟨left, left_given, right, right_given, different, same⟩ := found
  exact ⟨left, among left_given, right, among right_given, different, same⟩

/-- Two runs that end in one state agree from the end backwards, until one of them is used up or
two different inputs of the step meet. -/
theorem suffix_or_collision {blocks others : List (Octets 64)}
    (same : blocks.foldl step origin = others.foldl step other) :
    blocks <:+ others ∨ others <:+ blocks ∨
      Collision step (given step origin blocks ++ given step other others) := by
  induction blocks using List.reverseRecOn generalizing others with
  | nil => exact .inl List.nil_suffix
  | append_singleton blocks last induction =>
      rcases List.eq_nil_or_concat others with rfl | ⟨others, otherLast, rfl⟩
      · exact .inr (.inl List.nil_suffix)
      · rw [List.concat_eq_append] at same ⊢
        rw [given_append, given_append]
        by_cases met : (blocks.foldl step origin, last) = (others.foldl step other, otherLast)
        · obtain ⟨states, rfl⟩ := Prod.mk.inj met
          rcases induction states with behind | behind | found
          · exact .inl ((List.suffix_append_inj_of_length_eq rfl).2 ⟨behind, rfl⟩)
          · exact .inr (.inl ((List.suffix_append_inj_of_length_eq rfl).2 ⟨behind, rfl⟩))
          · refine .inr (.inr (found.mono ?_))
            exact List.append_subset.2
              ⟨fun _ member => List.mem_append_left _ (List.mem_append_left _ member),
                fun _ member => List.mem_append_right _ (List.mem_append_left _ member)⟩
        · rw [List.foldl_append, List.foldl_append] at same
          refine .inr (.inr ⟨_, ?_, _, ?_, met, same⟩)
          · exact List.mem_append_left _ (List.mem_append_right _ (List.mem_singleton_self _))
          · exact List.mem_append_right _ (List.mem_append_right _ (List.mem_singleton_self _))

/-- Whatever the step computes: two messages that end in one state make it collide. -/
theorem Holds.collision {first second : Bytes} {stream next : BlockStream State}
    (held : Holds step origin first stream) (other_held : Holds step other second next)
    (different : first ≠ second) (short : first.length < 2 ^ 61)
    (other_short : second.length < 2 ^ 61) (same : stream.finish step = next.finish step) :
    Collision step
      (given step origin (Octets.cut 64 (Sha256.Standard.pad first)) ++
        given step other (Octets.cut 64 (Sha256.Standard.pad second))) := by
  rw [held.finish_eq, other_held.finish_eq] at same
  rcases suffix_or_collision same with suffix | suffix | found
  · exact absurd (Sha256.Standard.eq_of_blocks_suffix short other_short suffix) different
  · exact absurd (Sha256.Standard.eq_of_blocks_suffix other_short short suffix).symm different
  · exact found

theorem Holds.finish_recording {message : Bytes} {stream : BlockStream State}
    {recorded : BlockStream (State × List (State × Octets 64))}
    (held : Holds step origin message stream)
    (record_held : Holds (recording step) (origin, []) message recorded) :
    recorded.finish (recording step) =
      (stream.finish step, given step origin (Octets.cut 64 (Sha256.Standard.pad message))) := by
  rw [record_held.finish_eq, held.finish_eq, foldl_recording, List.nil_append]

end BlockStream

/-! The hash. A digest spells its final state, so equal digests come from equal states. -/

namespace Sha256

theorem eq_of_flatMap_bigEndian {words others : List UInt32}
    (length : words.length = others.length)
    (same : words.flatMap (fun word => bigEndian 4 word.toNat) =
      others.flatMap fun word => bigEndian 4 word.toNat) : words = others := by
  induction words generalizing others with
  | nil => exact (List.length_eq_zero_iff.1 length.symm).symm
  | cons word rest induction =>
      cases others with
      | nil => cases length
      | cons other others =>
          obtain ⟨front, behind⟩ := List.append_inj same (by
            rw [length_bigEndian, length_bigEndian])
          rw [bigEndian_inj word.toNat_lt other.toNat_lt, UInt32.toNat_inj] at front
          rw [front, induction (Nat.succ.inj length) behind]

theorem State.toBytes_injective : Function.Injective State.toBytes := by
  intro first second same
  have words : first.words = second.words :=
    eq_of_flatMap_bigEndian rfl (congrArg Vector.toList same)
  cases first
  cases second
  simpa [State.words] using words

/-- Hashing with the compression recorded: the state it ends in, and every chaining state and
block that the compression was given. -/
def recorded (message : Bytes) : State × List (State × Octets 64) :=
  ((BlockStream.start (State.initial, [])).absorb (BlockStream.recording compress)
    message).finish (BlockStream.recording compress)

theorem holds_update_new (message : Bytes) :
    BlockStream.Holds compress State.initial message (Hasher.new.update message) :=
  (BlockStream.holds_start State.initial).absorb message

theorem recorded_eq (message : Bytes) :
    recorded message =
      ((Hasher.new.update message).finish compress,
        BlockStream.given compress State.initial (Octets.cut 64 (Standard.pad message))) :=
  (holds_update_new message).finish_recording
    ((BlockStream.holds_start (State.initial, [])).absorb message)

/-- The record does not disturb what is recorded. -/
theorem toBytes_recorded (message : Bytes) : (recorded message).1.toBytes = hash message := by
  rw [recorded_eq, hash, Hasher.finalize]

theorem hash_ne_or_collision (first second : Bytes) (different : first ≠ second)
    (short : first.length < 2 ^ 61) (other_short : second.length < 2 ^ 61) :
    let inputs := (recorded first).2 ++ (recorded second).2
    (recorded first).1.toBytes = hash first ∧ (recorded second).1.toBytes = hash second ∧
      (hash first ≠ hash second ∨
        ∃ left ∈ inputs, ∃ right ∈ inputs,
          left ≠ right ∧ compress left.1 left.2 = compress right.1 right.2) := by
  intro inputs
  refine ⟨toBytes_recorded first, toBytes_recorded second, ?_⟩
  by_cases same : hash first = hash second
  · have states := State.toBytes_injective same
    have found := (holds_update_new first).collision (holds_update_new second) different short
      other_short states
    simp only [inputs, recorded_eq]
    exact .inr found
  · exact .inl same

/-- A message whose padding spills into a second block, and the same message with the first byte
of that padding written out. -/
theorem hash_ne_or_collision_of_fifty_six :
    let first : Bytes := List.replicate 56 0
    let second : Bytes := List.replicate 56 0 ++ [0x80]
    let inputs := (recorded first).2 ++ (recorded second).2
    (recorded first).1.toBytes = hash first ∧ (recorded second).1.toBytes = hash second ∧
      (hash first ≠ hash second ∨
        ∃ left ∈ inputs, ∃ right ∈ inputs,
          left ≠ right ∧ compress left.1 left.2 = compress right.1 right.2) := by
  intro first second
  have different : first ≠ second := by decide
  have short : first.length < 2 ^ 61 := by decide
  have other_short : second.length < 2 ^ 61 := by decide
  exact hash_ne_or_collision first second different short other_short

end Sha256

end SealedFrame
