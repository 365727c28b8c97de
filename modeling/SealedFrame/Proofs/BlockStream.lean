import SealedFrame.BlockStream
import SealedFrame.Sha256.Standard
import SealedFrame.Proofs.BigEndian
import SealedFrame.Proofs.Octets.Overwriting

namespace SealedFrame

namespace BlockStream

/-! What a stream holds of its message: the whole blocks are behind its state, the rest stands at
the front of its buffer. What lies behind that front is never read. -/

variable {State : Type} {step : State → Octets 64 → State}

def carried (stream : BlockStream State) : Bytes :=
  stream.buffer.toList.take stream.pending

@[simp] theorem length_carried (stream : BlockStream State) :
    stream.carried.length = stream.pending := by
  have small : stream.pending < 64 := stream.pending_lt
  rw [carried, List.length_take, Vector.length_toList]
  omega

/-- The count wraps at a multiple of the block size, so it stays right within a block. -/
theorem pending_add (total : UInt64) (length : Nat) :
    ((total + UInt64.ofNat length) % 64).toNat = ((total % 64).toNat + length) % 64 := by
  simp only [UInt64.toNat_mod, UInt64.toNat_add, UInt64.toNat_ofNat']
  change (total.toNat + length % 2 ^ 64) % 2 ^ 64 % 64 = (total.toNat % 64 + length) % 64
  omega

theorem stepBlocks_eq (state : State) (bytes : Bytes) :
    stepBlocks step state (bytes.length / 64) bytes =
      ((Octets.cut 64 bytes).foldl step state, Octets.remainder 64 bytes) := by
  induction bytes using @Octets.blockwise 64 _ generalizing state with
  | short bytes short =>
      rw [Nat.div_eq_of_lt short, Octets.cut_of_lt short, Octets.remainder_of_lt short]
      rfl
  | block octets rest induction =>
      have further : (octets.toList ++ rest).drop blockSize = rest :=
        Octets.drop_toList_append octets rest 0
      rw [Octets.length_toList_append_div, stepBlocks, further,
        Octets.padded_toList_append, induction, Octets.cut_toList_append,
        Octets.remainder_toList_append, List.foldl_cons]

/-- The stream is where consuming `bytes` from `state` on leads. -/
structure Consumed (step : State → Octets 64 → State) (state : State) (bytes : Bytes)
    (stream : BlockStream State) : Prop where
  state_eq : stream.state = (Octets.cut 64 bytes).foldl step state
  carried_eq : stream.carried = Octets.remainder 64 bytes

theorem Consumed.append {state : State} {first second : Bytes}
    {stream next : BlockStream State} (before : Consumed step state first stream)
    (after : Consumed step stream.state (stream.carried ++ second) next) :
    Consumed step state (first ++ second) next := by
  refine ⟨?_, ?_⟩
  · rw [after.state_eq, before.state_eq, before.carried_eq, Octets.cut_append first,
      List.foldl_append]
  · rw [after.carried_eq, before.carried_eq, Octets.remainder_append first]

theorem Consumed.block {state : State} {octets : Octets 64} {bytes : Bytes}
    {stream : BlockStream State} (rest : Consumed step (step state octets) bytes stream) :
    Consumed step state (octets.toList ++ bytes) stream := by
  refine ⟨?_, ?_⟩
  · rw [rest.state_eq, Octets.cut_toList_append, List.foldl_cons]
  · rw [rest.carried_eq, Octets.remainder_toList_append]

theorem consumed_absorbAligned (state : State) (buffer : Octets 64) {total : UInt64}
    {bytes : Bytes} (count : (total % 64).toNat = bytes.length % 64) :
    Consumed step state bytes (absorbAligned step state buffer total bytes) := by
  have fits : 0 + (Octets.remainder 64 bytes).length ≤ 64 := by
    rw [Octets.length_remainder]
    omega
  have front := Octets.take_overwrite buffer fits
  rw [Nat.zero_add, List.take_zero, List.nil_append, Octets.length_remainder] at front
  simp only [absorbAligned, blockSize, stepBlocks_eq]
  refine ⟨rfl, ?_⟩
  rw [carried, pending, count]
  exact front

theorem total_absorb (stream : BlockStream State) (bytes : Bytes) :
    (stream.absorb step bytes).total = stream.total + UInt64.ofNat bytes.length := by
  simp only [absorb]
  split
  next => rfl
  next =>
    split
    next => rfl
    next => rfl

theorem consumed_overwrite (stream : BlockStream State) {bytes : Bytes}
    (short : stream.pending + bytes.length < 64) :
    Consumed step stream.state (stream.carried ++ bytes)
      ⟨stream.state, stream.buffer.overwrite stream.pending bytes,
        stream.total + UInt64.ofNat bytes.length⟩ := by
  have both_short : (stream.carried ++ bytes).length < 64 := by
    rw [List.length_append, length_carried]
    exact short
  have place : ((stream.total + UInt64.ofNat bytes.length) % 64).toNat =
      stream.pending + bytes.length :=
    (pending_add stream.total bytes.length).trans (Nat.mod_eq_of_lt short)
  refine ⟨?_, ?_⟩
  · rw [Octets.cut_of_lt both_short]
    rfl
  · rw [Octets.remainder_of_lt both_short, carried, pending, place,
      Octets.take_overwrite stream.buffer (Nat.le_of_lt short), carried]

/-- The bytes that wait and the front of the piece make one block. -/
theorem consumed_fill (stream : BlockStream State) {bytes : Bytes}
    (long : 64 - stream.pending ≤ bytes.length) :
    let block := stream.buffer.overwrite stream.pending (bytes.take (64 - stream.pending))
    Consumed step stream.state (stream.carried ++ bytes)
      (absorbAligned step (step stream.state block) block
        (stream.total + UInt64.ofNat bytes.length) (bytes.drop (64 - stream.pending))) := by
  intro block
  have small : stream.pending < 64 := stream.pending_lt
  have fills : stream.pending + (bytes.take (64 - stream.pending)).length = 64 := by
    rw [List.length_take]
    omega
  have behind : stream.carried ++ bytes =
      block.toList ++ bytes.drop (64 - stream.pending) := by
    rw [Octets.toList_overwrite_end _ fills, List.append_assoc, List.take_append_drop, carried]
  have count : ((stream.total + UInt64.ofNat bytes.length) % 64).toNat =
      (stream.pending + bytes.length) % 64 := pending_add stream.total bytes.length
  rw [behind]
  refine Consumed.block (consumed_absorbAligned _ _ ?_)
  rw [count, List.length_drop]
  omega

/-- A piece is consumed as if it stood right behind the bytes that wait. -/
theorem consumed_absorb (stream : BlockStream State) (bytes : Bytes) :
    Consumed step stream.state (stream.carried ++ bytes) (stream.absorb step bytes) := by
  have small : stream.pending < 64 := stream.pending_lt
  simp only [absorb]
  split
  next aligned =>
    have nothing : stream.carried = [] := by
      rw [carried, aligned, List.take_zero]
    have count := pending_add stream.total bytes.length
    rw [← pending, aligned, Nat.zero_add] at count
    rw [nothing, List.nil_append]
    exact consumed_absorbAligned _ _ count
  next waiting =>
    split
    next short =>
      change bytes.length < 64 - stream.pending at short
      exact consumed_overwrite stream (by omega)
    next long => exact consumed_fill stream (Nat.not_lt.1 long)

/-- The state, the bytes that wait and the count all come from one message. -/
structure Holds (step : State → Octets 64 → State) (origin : State) (message : Bytes)
    (stream : BlockStream State) : Prop extends Consumed step origin message stream where
  total_eq : stream.total = UInt64.ofNat message.length

theorem holds_start (origin : State) : Holds step origin [] (start origin) where
  state_eq := rfl
  carried_eq := rfl
  total_eq := rfl

theorem Holds.absorb {origin : State} {message : Bytes} {stream : BlockStream State}
    (held : Holds step origin message stream) (bytes : Bytes) :
    Holds step origin (message ++ bytes) (stream.absorb step bytes) where
  toConsumed := held.toConsumed.append (consumed_absorb stream bytes)
  total_eq := by
    rw [total_absorb, held.total_eq, List.length_append, UInt64.ofNat_add]

theorem Holds.with_buffer {origin : State} {message : Bytes} {stream : BlockStream State}
    (held : Holds step origin message stream) {buffer : Octets 64}
    (front : buffer.toList.take stream.pending = stream.carried) :
    Holds step origin message { stream with buffer := buffer } where
  state_eq := held.state_eq
  carried_eq := front.trans held.carried_eq
  total_eq := held.total_eq

/-! Closing. -/

def padding (length : Nat) : Bytes :=
  0x80 :: (List.replicate ((119 - length % 64) % 64) 0 ++ bigEndian 8 (8 * length))

theorem pad_eq (message : Bytes) :
    Sha256.Standard.pad message = message ++ padding message.length := rfl

/-- The stream counts bytes modulo 2 ^ 64, which is exact for a count of bits that wraps there. -/
theorem bits_eq {total : UInt64} {length : Nat} (counted : total = UInt64.ofNat length) :
    bigEndian 8 (total * 8).toNat = bigEndian 8 (8 * length) := by
  have wrapped : (total * 8).toNat = 8 * length % 256 ^ 8 := by
    rw [counted, UInt64.toNat_mul, UInt64.toNat_ofNat']
    change length % 2 ^ 64 * 8 % 2 ^ 64 = 8 * length % 2 ^ 64
    omega
  rw [wrapped, bigEndian_mod]

theorem pending_eq {stream : BlockStream State} {length : Nat}
    (counted : stream.total = UInt64.ofNat length) : stream.pending = length % 64 := by
  rw [pending, counted, UInt64.toNat_mod, UInt64.toNat_ofNat']
  change length % 2 ^ 64 % 64 = length % 64
  omega

/-- The buffer once the closing bit and zeros are written behind the bytes that wait. -/
def marked (stream : BlockStream State) : Octets 64 :=
  stream.buffer.overwrite stream.pending (0x80 :: List.replicate (64 - (stream.pending + 1)) 0)

theorem toList_marked (stream : BlockStream State) :
    stream.marked.toList =
      stream.carried ++ 0x80 :: List.replicate (64 - (stream.pending + 1)) 0 := by
  have small : stream.pending < 64 := stream.pending_lt
  have fills : stream.pending +
      ((0x80 : UInt8) :: List.replicate (64 - (stream.pending + 1)) 0).length = 64 := by
    rw [List.length_cons, List.length_replicate]
    omega
  rw [marked, Octets.toList_overwrite_end _ fills, carried]

theorem toList_overwrite_length (octets : Octets 64) (length : Nat) :
    (octets.overwrite lengthOffset (bigEndian 8 length)).toList =
      octets.toList.take lengthOffset ++ bigEndian 8 length :=
  Octets.toList_overwrite_end octets (by rw [length_bigEndian]; rfl)

/-- Closing feeds the padding behind the bytes that wait: in one block where the length still
finds room in it, in two blocks otherwise. -/
theorem finish_eq {stream : BlockStream State} {length : Nat}
    (counted : stream.total = UInt64.ofNat length) :
    stream.finish step =
      (Octets.cut 64 (stream.carried ++ padding length)).foldl step stream.state := by
  have small : stream.pending < 64 := stream.pending_lt
  have finished : stream.finish step =
      if stream.pending < lengthOffset then
        step stream.state (stream.marked.overwrite lengthOffset (bigEndian 8 (8 * length)))
      else
        step (step stream.state stream.marked)
          ((Octets.zeros 64).overwrite lengthOffset (bigEndian 8 (8 * length))) := by
    rw [← bits_eq counted]
    rfl
  rw [finished, padding, ← pending_eq counted]
  split
  next room =>
    change stream.pending < 56 at room
    have front : (stream.carried ++ 0x80 :: List.replicate (55 - stream.pending) 0).length =
        lengthOffset := by
      rw [List.length_append, length_carried, List.length_cons, List.length_replicate,
        lengthOffset]
      omega
    have zeros : 64 - (stream.pending + 1) = 55 - stream.pending + 8 := by
      omega
    have fewer : (119 - stream.pending) % 64 = 55 - stream.pending := by
      omega
    have overwritten : stream.marked.toList =
        (stream.carried ++ 0x80 :: List.replicate (55 - stream.pending) 0) ++
          List.replicate 8 0 := by
      rw [toList_marked, zeros, ← List.replicate_append_replicate, ← List.cons_append,
        List.append_assoc]
    have last : stream.carried ++ 0x80 :: (List.replicate (55 - stream.pending) 0 ++
        bigEndian 8 (8 * length)) =
          (stream.marked.overwrite lengthOffset (bigEndian 8 (8 * length))).toList := by
      rw [toList_overwrite_length, overwritten, ← front, List.take_left, List.append_assoc,
        List.cons_append]
    rw [fewer, last, Octets.cut_toList]
    rfl
  next full =>
    change ¬ stream.pending < 56 at full
    have more : (119 - stream.pending) % 64 = 64 - (stream.pending + 1) + 56 := by
      omega
    have both : stream.carried ++ 0x80 :: (List.replicate (64 - (stream.pending + 1) + 56) 0 ++
        bigEndian 8 (8 * length)) = stream.marked.toList ++
          ((Octets.zeros 64).overwrite lengthOffset (bigEndian 8 (8 * length))).toList := by
      rw [toList_overwrite_length, toList_marked, ← List.replicate_append_replicate,
        Octets.toList_zeros, List.take_replicate]
      simp only [List.append_assoc, List.cons_append]
      rfl
    rw [more, both, Octets.cut_toList_append, Octets.cut_toList]
    rfl

theorem Holds.finish_eq {origin : State} {message : Bytes} {stream : BlockStream State}
    (held : Holds step origin message stream) :
    stream.finish step =
      (Octets.cut 64 (Sha256.Standard.pad message)).foldl step origin := by
  rw [BlockStream.finish_eq held.total_eq, held.carried_eq, held.state_eq, pad_eq,
    Octets.cut_append message, List.foldl_append]

end BlockStream

end SealedFrame
