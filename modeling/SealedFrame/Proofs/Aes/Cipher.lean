import SealedFrame.Aes
import SealedFrame.Aes.Standard
import SealedFrame.Proofs.Aes.FiniteField

namespace SealedFrame.Aes

open Polynomial

/-! The block cipher on bytes against the one on matrices of field elements: the places of the
bytes step by step, the round keys by the recurrence of their words, then the rounds by induction on
their number. -/

theorem double_eq_mul (byte : UInt8) : double byte = Field.mul 2 byte := by
  revert byte
  apply Field.forall_byte
  decide +kernel

theorem tripled_eq_mul (byte : UInt8) : double byte ^^^ byte = Field.mul 3 byte := by
  have sum := congrArg Field.Element.byte (Field.Element.add_distributes ⟨2⟩ 1 ⟨byte⟩)
  rw [Field.Element.one_neutral] at sum
  rw [double_eq_mul]
  exact sum.symm

namespace Standard

theorem toBlock_ofBlock (block : Block) : toBlock (ofBlock block) = block := by
  apply Vector.ext
  intro index bound
  simp only [toBlock, ofBlock, Vector.getElem_ofFn]
  congr 1
  omega

theorem get_columns (block : Block) (row column : Fin 4) :
    (block.columns.get column).get row = ofBlock block row column :=
  Block.getElem_columns block column row

theorem ofBlock_ofColumns (columns : Vector Column 4) (row column : Fin 4) :
    ofBlock (Block.ofColumns columns) row column = (columns.get column).get row := by
  have column_eq : (4 * column.val + row.val) / 4 = column.val := by omega
  have row_eq : (4 * column.val + row.val) % 4 = row.val := by omega
  simp only [ofBlock, Block.ofColumns, Vector.getElem_ofFn, column_eq, row_eq]
  rfl

theorem ofBlock_xor (left right : Block) :
    ofBlock (left.xor right) = add (ofBlock left) (ofBlock right) := by
  funext row column
  simp only [ofBlock, add, Octets.xor, Vector.getElem_zipWith]

theorem ofBlock_substituteBytes (block : Block) :
    ofBlock (Aes.substituteBytes block) = substituteBytes (ofBlock block) := by
  funext row column
  simp only [ofBlock, substituteBytes, Aes.substituteBytes, Vector.getElem_map, Field.substitute_eq]

theorem ofBlock_shiftRows (block : Block) :
    ofBlock (Aes.shiftRows block) = shiftRows (ofBlock block) := by
  funext row column
  have place : ∀ row column : Fin 4, (5 * (⟨4 * column.val + row.val, by omega⟩ : Fin 16)).val =
      4 * (column + row).val + row.val := by
    decide
  simp only [ofBlock, shiftRows, Aes.shiftRows, Vector.getElem_ofFn, Fin.getElem_fin, place]

theorem get_mixColumn (column : Column) (row : Fin 4) :
    (mixColumn column).get row =
      Field.mul (mixing (0 - row)) (column.get 0) ^^^
        Field.mul (mixing (1 - row)) (column.get 1) ^^^
        Field.mul (mixing (2 - row)) (column.get 2) ^^^
        Field.mul (mixing (3 - row)) (column.get 3) := by
  have entry : (mixColumn column).get row =
      Field.mul (mixing 0) (column.get row) ^^^ Field.mul (mixing 1) (column.get (row + 1)) ^^^
        Field.mul (mixing 2) (column.get (row + 2)) ^^^
        Field.mul (mixing 3) (column.get (row + 3)) := by
    have cyclic : (mixColumn column).get row =
        double (column.get row) ^^^
          (double (column.get (row + 1)) ^^^ column.get (row + 1)) ^^^
          column.get (row + 2) ^^^ column.get (row + 3) :=
      Vector.getElem_ofFn _
    have unit (byte : UInt8) : Field.mul 1 byte = byte :=
      congrArg Field.Element.byte (Field.Element.one_neutral ⟨byte⟩)
    rw [cyclic, tripled_eq_mul, double_eq_mul]
    simp only [mixing, unit]
  rw [entry]
  match row with
  | 0 => rfl
  | 1 | 2 | 3 =>
      simp only [Fin.isValue, Fin.reduceAdd, Fin.reduceSub]
      ac_rfl

theorem ofBlock_mixColumns (block : Block) :
    ofBlock (Aes.mixColumns block) = mixColumns (ofBlock block) := by
  funext row column
  have mixed : (block.columns.map mixColumn).get column = mixColumn (block.columns.get column) :=
    Vector.getElem_map mixColumn column.isLt
  rw [Aes.mixColumns, ofBlock_ofColumns, mixed, get_mixColumn]
  simp only [get_columns]
  rfl

/-! The round keys. -/

theorem roundConstant_eq (index : Nat) : roundConstant index = Field.power 2 index := by
  induction index with
  | zero => rfl
  | succ index induction =>
      rw [roundConstant, Field.power, double_eq_mul, induction]
      exact congrArg Field.Element.byte (Field.Element.mul_commutes ⟨2⟩ ⟨Field.power 2 index⟩)

theorem get_scramble (constant : UInt8) (column : Column) (row : Fin 4) :
    (scramble constant column).get row =
      Field.substitute (column.get (row + 1)) ^^^ if row = 0 then constant else 0 := by
  simp only [scramble, Field.substitute_eq]
  match row with
  | 0 => rfl
  | 1 | 2 | 3 => exact UInt8.xor_zero.symm

theorem ofBlock_nextRoundKey_zero (constant : UInt8) (key : Block) (row : Fin 4) :
    ofBlock (nextRoundKey constant key) row 0 =
      ofBlock key row 0 ^^^ (Field.substitute (ofBlock key (row + 1) 3) ^^^
        if row = 0 then constant else 0) := by
  have entry : ofBlock (nextRoundKey constant key) row 0 =
      (key.columns.get 0).get row ^^^ (scramble constant (key.columns.get 3)).get row := by
    rw [nextRoundKey, ofBlock_ofColumns]
    exact Vector.getElem_zipWith _
  rw [entry, get_scramble, get_columns, get_columns]

/-- Within a round key each column adds the one before it to the old column in its place. -/
theorem ofBlock_nextRoundKey_succ (constant : UInt8) (key : Block) (row : Fin 4)
    (column : Fin 3) :
    ofBlock (nextRoundKey constant key) row column.succ =
      ofBlock key row column.succ ^^^
        ofBlock (nextRoundKey constant key) row column.castSucc := by
  rw [← get_columns key, nextRoundKey, ofBlock_ofColumns, ofBlock_ofColumns]
  match column with
  | 0 | 1 | 2 => exact Vector.getElem_zipWith _

theorem keyWord_start (key : Block) (column row : Fin 4) :
    keyWord key column.val row = ofBlock key row column := by
  rw [keyWord, if_pos column.isLt]
  exact congrArg (ofBlock key row) (Fin.ext (Nat.mod_eq_of_lt column.isLt))

theorem keyWord_first (key : Block) (round : Nat) (row : Fin 4) :
    keyWord key (4 * (round + 1)) row =
      keyWord key (4 * round) row ^^^ (Field.substitute (keyWord key (4 * round + 3) (row + 1)) ^^^
        if row = 0 then Field.power 2 round else 0) := by
  have four : 4 * (round + 1) - 4 = 4 * round := by omega
  have one : 4 * (round + 1) - 1 = 4 * round + 3 := by omega
  have exponent : 4 * (round + 1) / 4 - 1 = round := by omega
  rw [keyWord, if_neg (by omega), if_pos (by omega), four, one, exponent]

theorem keyWord_next (key : Block) (round : Nat) (row : Fin 4) (column : Fin 3) :
    keyWord key (4 * (round + 1) + column.succ.val) row =
      keyWord key (4 * round + column.succ.val) row ^^^
        keyWord key (4 * (round + 1) + column.castSucc.val) row := by
  have four : 4 * (round + 1) + column.succ.val - 4 = 4 * round + column.succ.val := by omega
  have one : 4 * (round + 1) + column.succ.val - 1 =
      4 * (round + 1) + column.castSucc.val := by
    rw [Fin.val_succ, Fin.val_castSucc]
    omega
  have inside : ¬(4 * (round + 1) + column.succ.val) % 4 = 0 := by
    rw [Fin.val_succ]
    omega
  rw [keyWord, if_neg (by omega), if_neg inside, four, one]

theorem ofBlock_roundKey (key : Block) (round : Nat) :
    ofBlock (Aes.roundKey key round) = roundKey key round := by
  induction round with
  | zero =>
      funext row column
      rw [roundKey, Nat.mul_zero, Nat.zero_add, keyWord_start]
      rfl
  | succ round induction =>
      have known (row column : Fin 4) : ofBlock (Aes.roundKey key round) row column =
          keyWord key (4 * round + column.val) row :=
        congrFun (congrFun induction row) column
      funext row column
      rw [roundKey]
      -- The columns follow one another, each from the one before it.
      induction column using Fin.induction with
      | zero =>
          rw [Aes.roundKey, ofBlock_nextRoundKey_zero, known, known, roundConstant_eq]
          exact (keyWord_first key round row).symm
      | succ column before =>
          rw [Aes.roundKey] at before ⊢
          rw [ofBlock_nextRoundKey_succ, known, before, keyWord_next]

/-! The rounds. -/

theorem ofBlock_fullRound (roundKey block : Block) :
    ofBlock (fullRound roundKey block) =
      add (mixColumns (shiftRows (substituteBytes (ofBlock block)))) (ofBlock roundKey) := by
  rw [fullRound, ofBlock_xor, ofBlock_mixColumns, ofBlock_shiftRows, ofBlock_substituteBytes]

theorem ofBlock_roundKeys_expand (key : Block) (index : Nat) (bound : index < 11) :
    ofBlock (Schedule.expand key).roundKeys[index] = roundKey key index := by
  rw [← ofBlock_roundKey, Schedule.expand]
  exact congrArg ofBlock (Vector.getElem_ofFn bound)

theorem ofBlock_rounds (key block : Block) {count : Nat} (bound : count ≤ 10) :
    ofBlock (Fin.foldl count (fun state (round : Fin count) =>
      fullRound (Schedule.expand key).roundKeys[round.val + 1] state)
        (block.xor (Schedule.expand key).roundKeys[0])) =
      afterRounds key (ofBlock block) count := by
  induction count with
  | zero =>
      rw [Fin.foldl_zero, ofBlock_xor, ofBlock_roundKeys_expand key 0]
      rfl
  | succ count induction =>
      have before := induction (Nat.le_of_succ_le bound)
      have added := ofBlock_roundKeys_expand key (count + 1) (Nat.lt_succ_of_le bound)
      rw [Fin.foldl_succ_last, ofBlock_fullRound]
      simp only [Fin.val_last, Fin.val_castSucc, before, added]
      rfl

theorem encrypt_expand (key block : Block) :
    (Schedule.expand key).encrypt block = encrypt key block := by
  have added := ofBlock_roundKeys_expand key 10 (by decide)
  have before := ofBlock_rounds key block (by decide : 9 ≤ 10)
  rw [← toBlock_ofBlock ((Schedule.expand key).encrypt block), encrypt, Schedule.encrypt,
    lastRound, ofBlock_xor, ofBlock_shiftRows, ofBlock_substituteBytes, added, before]

end Standard

/-- The cipher under an expanded key is the standard's over the field with 256 elements: bytes
stand for the polynomials of degree below eight, with sum and product modulo
x ^ 8 + x ^ 4 + x ^ 3 + x + 1. -/
theorem encrypt_eq_standard :
    Function.Injective Field.toPolynomial ∧
      (∀ left right : UInt8,
        Field.toPolynomial (left ^^^ right) =
            Field.toPolynomial left + Field.toPolynomial right ∧
          Field.toPolynomial (Field.mul left right) =
            (Field.toPolynomial left * Field.toPolynomial right) %ₘ Field.modulusPolynomial) ∧
      (Field.inverse 0 = 0 ∧
        ∀ element : UInt8, Field.mul element (Field.inverse element) =
          if element = 0 then 0 else 1) ∧
      ∀ key block : Block, (Schedule.expand key).encrypt block = Standard.encrypt key block := by
  refine ⟨Field.toPolynomial_injective, fun left right => ⟨?_, ?_⟩, ⟨Field.inverse_zero, ?_⟩, ?_⟩
  · exact Field.toPolynomial_xor left right
  · exact Field.toPolynomial_mul left right
  · exact Field.mul_inverse
  · exact Standard.encrypt_expand

end SealedFrame.Aes
