import SealedFrame.Proofs.BlockStream.Strictness
import SealedFrame.Proofs.Sha256.Compression
import SealedFrame.Sha256.Strict

namespace SealedFrame

open Checked

namespace Sha256.Strict

/-! The schedule. Each word finds the ones before it in place. -/

theorem getElem_scheduleWords_of_lt (block : Octets 64) {index : Nat} (early : index < 16) :
    (scheduleWords block 48)[index] = (blockWords block)[index] := by
  apply UInt32.toBitVec_inj.1
  rw [toBitVec_scheduleWords, toBitVec_blockWords]

theorem getElem_scheduleWords (block : Octets 64) {index : Nat} (later : 16 ≤ index)
    (bound : index < 64) :
    (scheduleWords block 48)[index] =
      (scheduleWords block 48)[index - 16] + smallSigma0 (scheduleWords block 48)[index - 15] +
        (scheduleWords block 48)[index - 7] + smallSigma1 (scheduleWords block 48)[index - 2] := by
  apply UInt32.toBitVec_inj.1
  rw [toBitVec_scheduleWords, Standard.scheduleWord, if_neg (by omega)]
  simp only [UInt32.toBitVec_add, toBitVec_smallSigma0, toBitVec_smallSigma1,
    toBitVec_scheduleWords]
  ac_rfl

/-- The words in front of a place are those of the schedule. -/
def Scheduled (block : Octets 64) (place : Nat) (words : Vector UInt32 64) : Prop :=
  ∀ (earlier : Nat) (bound : earlier < 64), earlier < place →
    words[earlier] = (scheduleWords block 48)[earlier]

variable {block : Octets 64} {words : Vector UInt32 64}

theorem Scheduled.set {index : Nat} (scheduled : Scheduled block index words)
    (bound : index < 64) :
    Scheduled block (index + 1) (words.set index (scheduleWords block 48)[index]) := by
  intro earlier earlier_bound before
  rw [Vector.getElem_set]
  split
  next same => simp only [same]
  next different => exact scheduled earlier earlier_bound (by omega)

theorem loadWord_eq (block : Octets 64) (words : Vector UInt32 64) {index : Nat}
    (bound : index < 16) :
    loadWord words ((block.toList.drop (4 * index)).take 4, index) =
      .ok (words.set index (scheduleWords block 48)[index]) := by
  have byte {place : Nat} (small : place < 4) :
      byteAt ((block.toList.drop (4 * index)).take 4) place = .ok block[4 * index + place] := by
    have inside : place < ((block.toList.drop (4 * index)).take 4).length := by
      rw [List.length_take, List.length_drop, Vector.length_toList]
      omega
    rw [byteAt_of_lt inside, List.getElem_take, List.getElem_drop, Vector.getElem_toList]
  have first : byteAt ((block.toList.drop (4 * index)).take 4) 0 = .ok block[4 * index] :=
    byte (by decide)
  simp only [loadWord, first, byte (by decide : 1 < 4), byte (by decide : 2 < 4),
    byte (by decide : 3 < 4), ok_bind]
  rw [set_of_lt words (by omega), getElem_scheduleWords_of_lt block bound, blockWords,
    Vector.getElem_ofFn]

theorem extendWord_eq {index : Nat} (later : 16 ≤ index) (bound : index < 64)
    (scheduled : Scheduled block index words) :
    extendWord words index = .ok (words.set index (scheduleWords block 48)[index]) := by
  have word {back : Nat} (positive : 0 < back) :
      get words (index - back) = .ok (scheduleWords block 48)[index - back] := by
    rw [get_of_lt words (by omega), scheduled (index - back) (by omega) (by omega)]
  rw [extendWord, subtract_of_le (by omega), ok_bind, subtract_of_le (by omega), ok_bind,
    subtract_of_le (by omega), ok_bind, subtract_of_le (by omega), ok_bind, word (by decide),
    ok_bind, word (by decide), ok_bind, word (by decide), ok_bind, word (by decide), ok_bind,
    set_of_lt words bound, ← getElem_scheduleWords block later bound]

theorem schedule_eq (block : Octets 64) :
    schedule block.toList = .ok (scheduleWords block 48) := by
  have numbered : (Bytes.chunks 4 block.toList).zipIdx =
      (List.range' 0 16).map fun index => ((block.toList.drop (4 * index)).take 4, index) := by
    rw [Octets.chunks_eq_map, Vector.length_toList]
    apply List.ext_getElem
    · simp only [List.length_zipIdx, List.length_map, List.length_range, List.length_range']
    · intro index _ _
      simp only [List.getElem_zipIdx, List.getElem_map, List.getElem_range, List.getElem_range',
        Nat.zero_add, Nat.one_mul]
  have nothing : Scheduled block 0 (Vector.replicate 64 0) :=
    fun earlier _ before => absurd before (Nat.not_lt_zero earlier)
  obtain ⟨loaded, ran, front⟩ := exists_foldlM_range
    (fun words index => loadWord words ((block.toList.drop (4 * index)).take 4, index))
    (Scheduled block) 0 16
    (fun index words _ bound scheduled =>
      ⟨_, loadWord_eq block words (by omega), scheduled.set (by omega)⟩) nothing
  obtain ⟨extended, went_on, whole⟩ := exists_foldlM_range extendWord (Scheduled block) 16 48
    (fun index words later bound scheduled =>
      ⟨_, extendWord_eq later bound scheduled, scheduled.set bound⟩) front
  have same : extended = scheduleWords block 48 :=
    Vector.ext fun index bound => whole index bound bound
  rw [schedule, numbered, List.foldlM_map, ran, ok_bind, went_on, same]

/-! Blocks and messages. -/

theorem compress_eq (state : State) (block : Octets 64) :
    compress state block.toList = .ok (Sha256.compress state block) := by
  have turn (current : State) (index : Fin 64) :
      applyRound (scheduleWords block 48) current (0 + index.val) =
        .ok (round current roundConstants[index] (scheduleWords block 48)[index]) := by
    rw [Nat.zero_add, applyRound, get_of_lt _ index.isLt, ok_bind, get_of_lt _ index.isLt, ok_bind]
    rfl
  have whole : block.toList.length = (Octets.zeros 64).toList.length := by
    rw [Vector.length_toList, Vector.length_toList]
  rw [compress, replace_of_length whole, ok_bind, schedule_eq, ok_bind, foldlM_range_eq 0 turn,
    ok_bind, Sha256.compress]

theorem writeWords_eq {places : List Bytes} {words : List UInt32}
    (as_many : places.length = words.length) (four : ∀ place ∈ places, place.length = 4) :
    writeWords places words = .ok (words.map fun word => bigEndian 4 word.toNat) := by
  induction places generalizing words with
  | nil =>
      rw [List.length_eq_zero_iff.1 as_many.symm]
      rfl
  | cons place places induction =>
      cases words with
      | nil => cases as_many
      | cons word words =>
          have fits : (bigEndian 4 word.toNat).length = place.length := by
            rw [length_bigEndian, four place List.mem_cons_self]
          have later := induction (Nat.succ.inj as_many) fun later member =>
            four later (List.mem_cons_of_mem place member)
          rw [writeWords, replace_of_length fits, ok_bind, later, ok_bind, List.map_cons]

theorem update_eq (hasher : Hasher) (bytes : Bytes) :
    update hasher bytes = .ok (hasher.update bytes) :=
  BlockStream.Strict.absorb_eq compress_eq hasher bytes

theorem finalize_eq (hasher : Hasher) : finalize hasher = .ok hasher.finalize := by
  have places : Bytes.chunks 4 (Octets.zeros 32).toList =
      List.replicate 8 (List.replicate 4 0) := by
    decide
  have written : writeWords (List.replicate 8 (List.replicate 4 0))
      (hasher.finish Sha256.compress).words =
        .ok ((hasher.finish Sha256.compress).words.map fun word => bigEndian 4 word.toNat) :=
    writeWords_eq rfl fun place member => by
      rw [List.eq_of_mem_replicate member, List.length_replicate]
  rw [finalize, BlockStream.Strict.finish_eq compress_eq, ok_bind, places, written, ok_bind,
    ← List.flatMap_def]
  exact congrArg Except.ok (Octets.padded_toList hasher.finalize)

theorem hash_eq (message : Bytes) : hash message = .ok (Sha256.hash message) := by
  rw [hash, update_eq, ok_bind, finalize_eq]
  rfl

end Sha256.Strict

end SealedFrame
