import SealedFrame.BlockStream.Strict
import SealedFrame.Proofs.BlockStream
import SealedFrame.Proofs.Checked

namespace SealedFrame

open Checked

namespace BlockStream.Strict

/-! Streams over a step that does not fault on a block. The count of bytes may have wrapped: it
still tells how many bytes wait. -/

variable {State : Type} {step : State → Bytes → Checked State}
  {plain : State → Octets 64 → State}

theorem pending_eq (stream : BlockStream State) : pending stream = .ok stream.pending := by
  have small : stream.pending < 64 := stream.pending_lt
  exact narrow_of_lt (Nat.lt_trans small (by decide))

variable (total : ∀ state block, step state (Vector.toList block) = .ok (plain state block))

include total

theorem stepBlocks_eq (state : State) {count : Nat} {bytes : Bytes}
    (long : 64 * count ≤ bytes.length) :
    stepBlocks step state count bytes = .ok (BlockStream.stepBlocks plain state count bytes) := by
  induction count generalizing state bytes with
  | zero => rfl
  | succ count induction =>
      have whole : 64 ≤ bytes.length := by omega
      have front : (bytes.take 64).drop 0 = (Octets.padded 64 bytes).toList := by
        rw [List.drop_zero, Octets.toList_padded_of_le whole]
      have further : 64 * count ≤ (bytes.drop 64).length := by
        rw [List.length_drop]
        omega
      rw [stepBlocks, blockSize, slice_of_le (Nat.zero_le _) whole, ok_bind, front, total, ok_bind,
        slice_of_le whole (Nat.le_refl _), ok_bind, List.take_length, induction _ further]
      rfl

theorem absorbAligned_eq (state : State) (buffer : Octets 64) (count : UInt64) (bytes : Bytes) :
    absorbAligned step state buffer count bytes =
      .ok (BlockStream.absorbAligned plain state buffer count bytes) := by
  have long : 64 * (bytes.length / 64) ≤ bytes.length := Nat.mul_div_le _ _
  have short : (Octets.remainder 64 bytes).length < 64 := by
    rw [Octets.length_remainder]
    exact Nat.mod_lt _ (by decide)
  rw [absorbAligned, blockSize, stepBlocks_eq total state long, ok_bind, BlockStream.stepBlocks_eq]
  simp only []
  rw [overwrite_of_length _ (Nat.zero_le _) (Nat.le_of_lt short) rfl, ok_bind,
    BlockStream.absorbAligned, blockSize, BlockStream.stepBlocks_eq]

theorem absorb_eq (stream : BlockStream State) (bytes : Bytes) :
    absorb step stream bytes = .ok (BlockStream.absorb plain stream bytes) := by
  have small : stream.pending < 64 := stream.pending_lt
  rw [absorb, pending_eq, ok_bind]
  simp only [BlockStream.absorb]
  by_cases aligned : stream.pending = 0
  · have idle : ¬0 < stream.pending := by omega
    rw [if_neg idle, if_pos aligned, absorbAligned_eq total]
  · rw [if_pos (Nat.pos_of_ne_zero aligned), if_neg aligned, blockSize,
      subtract_of_le (Nat.le_of_lt small), ok_bind]
    split
    next short =>
      rw [overwrite_of_length _ (Nat.le_add_right _ _) (by omega) (by omega), ok_bind]
    next long =>
      have front_length : (bytes.take (64 - stream.pending)).length = 64 - stream.pending := by
        rw [List.length_take]
        omega
      rw [slice_of_le (Nat.zero_le _) (Nat.not_lt.1 long), ok_bind, List.drop_zero,
        overwrite_of_length _ (Nat.le_of_lt small) (Nat.le_refl _) front_length, ok_bind, total,
        ok_bind, slice_of_le (Nat.not_lt.1 long) (Nat.le_refl _), ok_bind, List.take_length,
        absorbAligned_eq total]

/-! Closing. -/

omit total in
theorem clear_eq (buffer : Octets 64) {start stop : Nat} (ordered : start ≤ stop)
    (bound : stop ≤ 64) :
    clear buffer start stop = .ok (buffer.overwrite start (List.replicate (stop - start) 0)) := by
  have length : ((buffer.toList.take stop).drop start).length = stop - start := by
    rw [List.length_drop, List.length_take, Vector.length_toList, Nat.min_eq_left bound]
  rw [clear, slice_of_le ordered (by rw [Vector.length_toList]; exact bound), ok_bind, length,
    overwrite_of_length _ ordered bound List.length_replicate]

omit total in
/-- The buffer once the closing bit is written and zeros behind it up to `stop`. -/
theorem set_overwrite (stream : BlockStream State) {stop : Nat} (small : stream.pending < 64)
    (ordered : stream.pending < stop) (bound : stop ≤ 64) :
    Octets.overwrite (stream.buffer.set stream.pending 0x80 small)
        (stream.pending + 1) (List.replicate (stop - (stream.pending + 1)) 0) =
      stream.buffer.overwrite stream.pending
        (0x80 :: List.replicate (stop - (stream.pending + 1)) 0) := by
  have fits : stream.pending + 1 +
      (List.replicate (stop - (stream.pending + 1)) (0 : UInt8)).length ≤ 64 := by
    rw [List.length_replicate]
    omega
  rw [Octets.set_eq_overwrite]
  exact Octets.overwrite_overwrite _ rfl fits

omit total in
/-- Zeros up to the end differ from zeros up to the length only where the length is written. -/
theorem overwrite_marked (stream : BlockStream State) {length : Bytes} (eight : length.length = 8)
    (room : stream.pending < 56) :
    (stream.buffer.overwrite stream.pending
        (0x80 :: List.replicate (56 - (stream.pending + 1)) 0)).overwrite 56 length =
      stream.marked.overwrite 56 length := by
  have all : 56 - (stream.pending + 1) + 8 = 64 - (stream.pending + 1) := by omega
  have zeros : (List.replicate 8 (0 : UInt8)).length = 8 := List.length_replicate
  have fits : 56 + (List.replicate 8 (0 : UInt8)).length ≤ 64 := Nat.le_of_eq (by rw [zeros])
  have follows : stream.pending +
      ((0x80 : UInt8) :: List.replicate (56 - (stream.pending + 1)) 0).length = 56 := by
    rw [List.length_cons, List.length_replicate]
    omega
  have written : (stream.buffer.overwrite stream.pending
      (0x80 :: List.replicate (56 - (stream.pending + 1)) 0)).overwrite 56
        (List.replicate 8 0) = stream.marked := by
    rw [Octets.overwrite_overwrite _ follows fits, List.cons_append,
      List.replicate_append_replicate, all, marked]
  rw [← written, Octets.overwrite_again _ (eight.trans zeros.symm) fits]

omit total in
theorem overwrite_cleared (block : Octets 64) (length : Nat) :
    (block.overwrite 0 (List.replicate 56 0)).overwrite 56 (bigEndian 8 length) =
      (Octets.zeros 64).overwrite 56 (bigEndian 8 length) := by
  have zeros : (List.replicate 56 (0 : UInt8)).length = 56 := List.length_replicate
  have front : (block.overwrite 0 (List.replicate 56 0)).toList.take 56 =
      List.replicate 56 0 := by
    rw [Octets.toList_overwrite _ (by rw [zeros]; decide), List.take_zero, List.nil_append]
    exact List.take_left' zeros
  apply Vector.toList_inj.1
  rw [← lengthOffset, toList_overwrite_length, toList_overwrite_length, lengthOffset, front]
  rfl

theorem finish_eq (stream : BlockStream State) :
    finish step stream = .ok (BlockStream.finish plain stream) := by
  have small : stream.pending < 64 := stream.pending_lt
  have eight : (bigEndian 8 (stream.total * 8).toNat).length = 64 - 56 := length_bigEndian _ _
  rw [finish, pending_eq, ok_bind, set_of_lt _ small, ok_bind, makeRoom, lengthOffset, blockSize]
  by_cases room : stream.pending < 56
  · rw [if_neg (by omega), ok_bind]
    simp only []
    rw [clear_eq _ (by omega) (by omega), ok_bind, set_overwrite stream small room (by decide),
      overwrite_of_length _ (by omega) (by omega) eight, ok_bind, total,
      overwrite_marked stream eight room, BlockStream.finish, lengthOffset, if_pos room]
    rfl
  · rw [if_pos (by omega), clear_eq _ (by omega) (by omega), ok_bind,
      set_overwrite stream small small (Nat.le_refl 64), total, ok_bind, ok_bind]
    simp only []
    rw [clear_eq _ (Nat.zero_le _) (by decide), ok_bind,
      overwrite_of_length _ (by decide) (by decide) eight, ok_bind, total, overwrite_cleared,
      BlockStream.finish, lengthOffset, if_neg room]
    rfl

end BlockStream.Strict

end SealedFrame
