import SealedFrame.Proofs.Aes.Inverse

namespace SealedFrame.Aes

/-! The key schedule run backwards. A round key shows all but the first of the columns before it as
differences of its own columns, and the last of those is all that the first one was mixed with. So
nothing of a key is lost on the way, and each round key can be followed back to it. -/

/-- The round key that a round key was made from. -/
def previousRoundKey (constant : UInt8) (key : Block) : Block :=
  let new := key.columns
  let second := (new.get 1).xor (new.get 0)
  let third := (new.get 2).xor (new.get 1)
  let fourth := (new.get 3).xor (new.get 2)
  let first := (new.get 0).xor (scramble constant fourth)
  Block.ofColumns #v[first, second, third, fourth]

theorem eq_of_columns {block other : Block}
    (same : ∀ column : Fin 4, block.columns.get column = other.columns.get column) :
    block = other := by
  have columns : block.columns = other.columns := by
    apply Vector.ext
    intro column bound
    exact same ⟨column, bound⟩
  rw [← Block.ofColumns_columns block, columns, Block.ofColumns_columns]

variable (constant : UInt8) (key : Block)

theorem nextRoundKey_first :
    (nextRoundKey constant key).columns.get 0 =
      (key.columns.get 0).xor (scramble constant (key.columns.get 3)) := by
  rw [nextRoundKey, Block.columns_ofColumns]
  rfl

theorem nextRoundKey_succ (column : Fin 3) :
    (nextRoundKey constant key).columns.get column.succ =
      (key.columns.get column.succ).xor
        ((nextRoundKey constant key).columns.get column.castSucc) := by
  rw [nextRoundKey, Block.columns_ofColumns]
  fin_cases column
  all_goals rfl

theorem previousRoundKey_first :
    (previousRoundKey constant key).columns.get 0 =
      (key.columns.get 0).xor
        (scramble constant ((previousRoundKey constant key).columns.get 3)) := by
  rw [previousRoundKey, Block.columns_ofColumns]
  rfl

theorem previousRoundKey_succ (column : Fin 3) :
    (previousRoundKey constant key).columns.get column.succ =
      (key.columns.get column.succ).xor (key.columns.get column.castSucc) := by
  rw [previousRoundKey, Block.columns_ofColumns]
  fin_cases column
  all_goals rfl

theorem previousRoundKey_nextRoundKey :
    previousRoundKey constant (nextRoundKey constant key) = key := by
  have later (column : Fin 3) :
      (previousRoundKey constant (nextRoundKey constant key)).columns.get column.succ =
        key.columns.get column.succ := by
    rw [previousRoundKey_succ, nextRoundKey_succ, Octets.xor_xor_cancel]
  have last : (previousRoundKey constant (nextRoundKey constant key)).columns.get 3 =
      key.columns.get 3 := later 2
  apply eq_of_columns
  intro column
  cases column using Fin.cases with
  | zero => rw [previousRoundKey_first, last, nextRoundKey_first, Octets.xor_xor_cancel]
  | succ column => exact later column

theorem nextRoundKey_previousRoundKey :
    nextRoundKey constant (previousRoundKey constant key) = key := by
  apply eq_of_columns
  intro column
  induction column using Fin.induction with
  | zero => rw [nextRoundKey_first, previousRoundKey_first, Octets.xor_xor_cancel]
  | succ column induction =>
      rw [nextRoundKey_succ, induction, previousRoundKey_succ, Octets.xor_xor_cancel]

/-- One step of the schedule, which takes every block to another and loses none. -/
def roundKeyStep : Equiv.Perm Block where
  toFun := nextRoundKey constant
  invFun := previousRoundKey constant
  left_inv := previousRoundKey_nextRoundKey constant
  right_inv := nextRoundKey_previousRoundKey constant

/-- All steps from a key to one of its round keys. -/
def roundKeySteps : Nat → Equiv.Perm Block
  | 0 => Equiv.refl Block
  | round + 1 => (roundKeySteps round).trans (roundKeyStep (roundConstant round))

theorem roundKeySteps_apply (round : Nat) : roundKeySteps round key = roundKey key round := by
  induction round with
  | zero => rfl
  | succ round induction =>
      rw [roundKeySteps, Equiv.trans_apply, induction]
      rfl

theorem roundKey_bijective (round : Nat) : Function.Bijective fun key => roundKey key round := by
  have steps : (fun key => roundKey key round) = roundKeySteps round :=
    funext fun key => (roundKeySteps_apply key round).symm
  rw [steps]
  exact (roundKeySteps round).bijective

namespace Schedule

/-- The bytes of a schedule in which a round key stands. -/
def part (schedule : Schedule) (round : Nat) : Bytes :=
  (schedule.toBytes.toList.drop (16 * round)).take 16

theorem part_eq (schedule : Schedule) (round : Fin 11) :
    schedule.part round = (schedule.roundKeys.get round).toList := by
  apply List.ext_getElem
  · simp only [part, List.length_take, List.length_drop, Vector.length_toList]
    omega
  · intro index bound in_block
    rw [Vector.length_toList] at in_block
    have block : (16 * round.val + index) / 16 = round.val := by omega
    have place : (16 * round.val + index) % 16 = index := by omega
    simp only [part, toBytes, List.getElem_take, List.getElem_drop, Vector.getElem_toList,
      Vector.getElem_ofFn, block, place]
    rfl

theorem part_expand (key : Block) (round : Fin 11) :
    (expand key).part round = (roundKey key round).toList := by
  rw [part_eq]
  exact congrArg Vector.toList (roundKeys_expand key round)

/-- The whole schedule from the bytes of one of its round keys. -/
def rebuild (round : Nat) (part : Bytes) : Schedule :=
  expand ((roundKeySteps round).symm (Octets.padded 16 part))

theorem rebuild_part (key : Block) (round : Fin 11) :
    rebuild round ((expand key).part round) = expand key := by
  rw [rebuild, part_expand, Octets.padded_toList, ← roundKeySteps_apply,
    Equiv.symm_apply_apply]

/-- Every sixteen bytes are the round key, in each of the eleven places, of exactly one key, and the
other places follow from them. -/
theorem expand_part_bijective (round : Fin 11) :
    Set.BijOn (fun key => (expand key).part round) Set.univ {bytes | bytes.length = 16} ∧
      (∀ key other : Block, key ≠ other →
        (expand key).part round ≠ (expand other).part round) ∧
      ∀ key : Block,
        (rebuild round ((expand key).part round)).toBytes = (expand key).toBytes := by
  have bijective := roundKey_bijective round
  have same_key (key other : Block)
      (same : (expand key).part round = (expand other).part round) : key = other := by
    rw [part_expand, part_expand] at same
    exact bijective.injective (Vector.toList_inj.1 same)
  refine ⟨⟨?_, ?_, ?_⟩, ?_, ?_⟩
  · intro key _
    change ((expand key).part round).length = 16
    rw [part_expand, Vector.length_toList]
  · intro key _ other _ same
    exact same_key key other same
  · intro bytes length
    obtain ⟨key, reached⟩ := bijective.surjective (Octets.ofBytes bytes length)
    refine ⟨key, Set.mem_univ key, ?_⟩
    change (expand key).part round = bytes
    rw [part_expand]
    exact congrArg Vector.toList reached
  · intro key other different same
    exact different (same_key key other same)
  · intro key
    rw [rebuild_part]

/-- Two keys one bit apart, and the key whose last round key is zero. -/
theorem expand_part_bijective_last :
    (expand (Octets.zeros 16)).part 10 ≠ (expand ((Octets.zeros 16).set 15 1)).part 10 ∧
      ∃ key : Block, (expand key).part 10 = List.replicate 16 0 ∧
        (rebuild 10 (List.replicate 16 0)).toBytes = (expand key).toBytes := by
  obtain ⟨bijective, apart, rebuilt⟩ := expand_part_bijective 10
  have length : (List.replicate 16 (0 : UInt8)).length = 16 := List.length_replicate
  obtain ⟨key, -, reached⟩ := bijective.surjOn length
  change (expand key).part 10 = List.replicate 16 0 at reached
  have whole := rebuilt key
  change (rebuild 10 ((expand key).part 10)).toBytes = _ at whole
  rw [reached] at whole
  exact ⟨apart _ _ (by decide), key, reached, whole⟩

end Schedule

end SealedFrame.Aes
