import SealedFrame.Sha256.Compression
import SealedFrame.Sha256.Standard

namespace SealedFrame.Sha256

/-! Words of the machine and words of the standard. -/

def State.toVariables (state : State) : Standard.Variables :=
  ⟨state.a.toBitVec, state.b.toBitVec, state.c.toBitVec, state.d.toBitVec,
    state.e.toBitVec, state.f.toBitVec, state.g.toBitVec, state.h.toBitVec⟩

theorem toBitVec_shiftRight (word : UInt32) {amount : UInt32} (small : amount.toNat < 32) :
    (word >>> amount).toBitVec = word.toBitVec >>> amount.toNat := by
  have kept : amount.toNat % 32 = amount.toNat := Nat.mod_eq_of_lt small
  rw [UInt32.toBitVec_shiftRight, BitVec.ushiftRight_eq', BitVec.toNat_umod]
  exact congrArg (word.toBitVec >>> ·) kept

theorem toBitVec_shiftLeft (word : UInt32) {amount : UInt32} (small : amount.toNat < 32) :
    (word <<< amount).toBitVec = word.toBitVec <<< amount.toNat := by
  have kept : amount.toNat % 32 = amount.toNat := Nat.mod_eq_of_lt small
  rw [UInt32.toBitVec_shiftLeft, BitVec.shiftLeft_eq', BitVec.toNat_umod]
  exact congrArg (word.toBitVec <<< ·) kept

theorem toBitVec_rotateRight (word : UInt32) {amount : UInt32} (positive : 0 < amount.toNat)
    (small : amount.toNat < 32) :
    (rotateRight word amount).toBitVec = word.toBitVec.rotateRight amount.toNat := by
  have back : (32 - amount).toNat = 32 - amount.toNat :=
    UInt32.toNat_sub_of_le _ _ (Nat.le_of_lt small)
  have back_small : (32 - amount).toNat < 32 := by
    omega
  rw [rotateRight, UInt32.toBitVec_or, toBitVec_shiftRight word small,
    toBitVec_shiftLeft word back_small, back, BitVec.rotateRight_def, Nat.mod_eq_of_lt small]

@[simp] theorem toBitVec_bigSigma0 (word : UInt32) :
    (bigSigma0 word).toBitVec = Standard.bigSigma0 word.toBitVec := by
  simp (disch := decide) only [bigSigma0, UInt32.toBitVec_xor, toBitVec_rotateRight]
  rfl

@[simp] theorem toBitVec_bigSigma1 (word : UInt32) :
    (bigSigma1 word).toBitVec = Standard.bigSigma1 word.toBitVec := by
  simp (disch := decide) only [bigSigma1, UInt32.toBitVec_xor, toBitVec_rotateRight]
  rfl

@[simp] theorem toBitVec_smallSigma0 (word : UInt32) :
    (smallSigma0 word).toBitVec = Standard.smallSigma0 word.toBitVec := by
  simp (disch := decide) only [smallSigma0, UInt32.toBitVec_xor, toBitVec_rotateRight,
    toBitVec_shiftRight]
  rfl

@[simp] theorem toBitVec_smallSigma1 (word : UInt32) :
    (smallSigma1 word).toBitVec = Standard.smallSigma1 word.toBitVec := by
  simp (disch := decide) only [smallSigma1, UInt32.toBitVec_xor, toBitVec_rotateRight,
    toBitVec_shiftRight]
  rfl

@[simp] theorem toBitVec_choose (x y z : UInt32) :
    (choose x y z).toBitVec = Standard.choose x.toBitVec y.toBitVec z.toBitVec := rfl

@[simp] theorem toBitVec_majority (x y z : UInt32) :
    (majority x y z).toBitVec = Standard.majority x.toBitVec y.toBitVec z.toBitVec := rfl

/-! The words of a block. -/

theorem toBitVec_blockWords (block : Octets 64) {index : Nat} (bound : index < 16) :
    (blockWords block)[index].toBitVec = Standard.scheduleWord block index := by
  have word : (block.toList.drop (4 * index)).take 4 =
      [block[4 * index], block[4 * index + 1], block[4 * index + 2], block[4 * index + 3]] := by
    apply List.ext_getElem
    · simp
      omega
    · intro place _ place_bound
      simp only [List.getElem_take, List.getElem_drop, Vector.getElem_toList]
      match place, place_bound with
      | 0, _ | 1, _ | 2, _ | 3, _ => rfl
  rw [Standard.scheduleWord, if_pos bound, word, blockWords, Vector.getElem_ofFn]
  rfl

theorem toBitVec_scheduleWords (block : Octets 64) {count index : Nat}
    (bound : index < 16 + count) :
    (scheduleWords block count)[index].toBitVec = Standard.scheduleWord block index := by
  induction count generalizing index with
  | zero => exact toBitVec_blockWords block bound
  | succ count induction =>
      simp only [scheduleWords, Vector.getElem_push]
      split
      · exact induction ‹_›
      · have last : index = 16 + count := by omega
        subst last
        have two : 16 + count - 2 = count + 14 := by omega
        have seven : 16 + count - 7 = count + 9 := by omega
        have fifteen : 16 + count - 15 = count + 1 := by omega
        have sixteen : 16 + count - 16 = count := by omega
        rw [Standard.scheduleWord, if_neg (by omega), two, seven, fifteen, sixteen]
        simp only [nextWord, UInt32.toBitVec_add, toBitVec_smallSigma0, toBitVec_smallSigma1,
          induction]
        ac_rfl

/-! Constants. -/

theorem primes_eq : Standard.primes =
    [2, 3, 5, 7, 11, 13, 17, 19, 23, 29, 31, 37, 41, 43, 47, 53, 59, 61, 67, 71, 73, 79, 83, 89,
      97, 101, 103, 107, 109, 113, 127, 131, 137, 139, 149, 151, 157, 163, 167, 173, 179, 181,
      191, 193, 197, 199, 211, 223, 227, 229, 233, 239, 241, 251, 257, 263, 269, 271, 277, 281,
      283, 293, 307, 311] := by
  decide +kernel

theorem toBitVec_roundConstants : ∀ (index : Nat) (bound : index < 64),
    roundConstants[index].toBitVec = Standard.roundConstant index := by
  simp only [Standard.roundConstant, primes_eq]
  decide +kernel

@[simp] theorem toVariables_initial : State.initial.toVariables = Standard.initial := by
  simp only [Standard.initial, primes_eq]
  decide +kernel

@[simp] theorem toVariables_zero : State.zero.toVariables = Standard.zero := rfl

/-! Rounds. -/

theorem toVariables_round {state : State} {constant word : UInt32} {value : Standard.Variables}
    {block : Octets 64} {index : Nat}
    (before : state.toVariables = Standard.afterRounds value block index)
    (constant_eq : constant.toBitVec = Standard.roundConstant index)
    (word_eq : word.toBitVec = Standard.scheduleWord block index) :
    (round state constant word).toVariables =
      Standard.afterRounds value block (index + 1) := by
  simp only [Standard.afterRounds, ← before, ← constant_eq, ← word_eq]
  simp only [round, State.toVariables, UInt32.toBitVec_add, toBitVec_bigSigma0,
    toBitVec_bigSigma1, toBitVec_choose, toBitVec_majority]

theorem toVariables_rounds (state : State) (block : Octets 64) {count : Nat}
    (bound : count ≤ 64) :
    (Fin.foldl count (fun current (index : Fin count) =>
      round current roundConstants[index.val] (scheduleWords block 48)[index.val])
        state).toVariables = Standard.afterRounds state.toVariables block count := by
  induction count with
  | zero => rfl
  | succ count induction =>
      rw [Fin.foldl_succ_last]
      exact toVariables_round (induction (Nat.le_of_succ_le bound))
        (toBitVec_roundConstants count bound)
        (toBitVec_scheduleWords block (by omega : count < 16 + 48))

@[simp] theorem toVariables_compress (state : State) (block : Octets 64) :
    (compress state block).toVariables = Standard.compress state.toVariables block := by
  simp only [Standard.compress, ← toVariables_rounds state block (Nat.le_refl 64)]
  rfl

theorem toVariables_foldl_compress (state : State) (blocks : List (Octets 64)) :
    (blocks.foldl compress state).toVariables =
      blocks.foldl Standard.compress state.toVariables :=
  (List.foldl_hom State.toVariables fun current block =>
    (toVariables_compress current block).symm).symm

@[simp] theorem toBytes_toVariables (state : State) :
    Standard.toBytes state.toVariables = state.toBytes := rfl

end SealedFrame.Sha256
