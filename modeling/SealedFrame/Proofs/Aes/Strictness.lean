import SealedFrame.Aes.Strict
import SealedFrame.Proofs.Aes.KeySchedule
import SealedFrame.Proofs.Checked
import SealedFrame.Proofs.Octets.Overwriting

namespace SealedFrame

open Checked

theorem Block.toList_ofColumns (columns : Vector Column 4) :
    (ofColumns columns).toList = columns.toList.flatMap Vector.toList := by
  have length : (columns.toList.flatMap Vector.toList).length = 16 := by
    simp [List.length_flatMap]
  apply List.ext_getElem
  · rw [Vector.length_toList, length]
  · intro index bound other_bound
    rw [Vector.length_toList] at bound
    have column_bound : index / 4 < columns.toList.length := by
      rw [Vector.length_toList]
      omega
    rw [Octets.getElem_flatMap_toList columns.toList index other_bound column_bound,
      Vector.getElem_toList, Vector.getElem_toList, ← List.getElem_eq_getD]
    · simp only [ofColumns, Vector.getElem_ofFn]
      rfl

namespace Aes.Strict

/-! Bytes and words. -/

theorem length_table : table.length = 256 := by
  simp [table, List.length_flatMap]

theorem substitute_eq (byte : UInt8) : substitute byte = .ok (Aes.substitute byte) := by
  have bound : byte.toNat < table.length := length_table ▸ byte.toNat_lt
  have row_bound : byte.toNat / 16 < substitutionTable.toList.length :=
    Nat.div_lt_of_lt_mul byte.toNat_lt
  have entry : table[byte.toNat] = Aes.substitute byte := by
    simp only [table]
    rw [Octets.getElem_flatMap_toList _ _ _ row_bound, ← List.getElem_eq_getD]
    · rfl
  rw [substitute, byteAt_of_lt bound, entry]

theorem constants_eq :
    ∀ (place : Nat) (bound : place < constants.length), constants[place] = roundConstant place := by
  decide

theorem scramble_eq {index : Nat} (later : 4 ≤ index) (bound : index < 44) (column : Column) :
    scramble index column = .ok (Aes.scramble (roundConstant (index / 4 - 1)) column) := by
  have place_bound : index / 4 - 1 < constants.length := by
    change index / 4 - 1 < 10
    omega
  have constant : constants[index / 4 - 1] = roundConstant (index / 4 - 1) :=
    constants_eq _ place_bound
  simp only [scramble, substitute_eq, ok_bind]
  rw [subtract_of_le (by omega), ok_bind, byteAt_of_lt place_bound, ok_bind, constant]
  rfl

/-! The schedule. Each turn of its loop finds the bytes in front of a word in place and adds those
of the word. -/

open Standard (keyWord)

/-- What the schedule of a key holds at a place. -/
def keyByte (key : Block) (place : Nat) : UInt8 :=
  keyWord key (place / 4) (Fin.ofNat 4 place)

theorem keyByte_eq (key : Block) (index : Nat) (row : Fin 4) :
    keyByte key (index * 4 + row.val) = keyWord key index row := by
  have word : (index * 4 + row.val) / 4 = index := by omega
  have place : Fin.ofNat 4 (index * 4 + row.val) = row := by
    apply Fin.ext
    rw [Fin.val_ofNat]
    omega
  rw [keyByte, word, place]

/-- The bytes in front of a place are those of the schedule. -/
def Expanded (key : Block) (place : Nat) (bytes : Octets 176) : Prop :=
  ∀ (earlier : Nat) (bound : earlier < 176), earlier < place → bytes[earlier] = keyByte key earlier

variable {key : Block} {bytes : Octets 176}

theorem toBytes_eq_of_expanded (expanded : Expanded key 176 bytes) :
    bytes = (Schedule.expand key).toBytes := by
  apply Vector.ext
  intro place bound
  have entry := congrFun (congrFun (Standard.ofBlock_roundKey key (place / 16))
    ⟨place % 4, Nat.mod_lt _ (by decide)⟩) ⟨place % 16 / 4, by omega⟩
  have index : 4 * (place / 16) + place % 16 / 4 = place / 4 := by omega
  have position : 4 * (place % 16 / 4) + place % 4 = place % 16 := by omega
  simp only [Standard.ofBlock, Standard.roundKey, index, position] at entry
  rw [expanded place bound bound, Schedule.toBytes, Vector.getElem_ofFn, keyByte]
  simp only [Schedule.expand, Vector.getElem_ofFn, entry]
  rfl

/-- The word in front of another one, scrambled where a round key ends with it. -/
def keyAddend (key : Block) (index : Nat) : Column :=
  let last := Vector.ofFn (keyWord key (index - 1))
  if index % 4 = 0 then Aes.scramble (roundConstant (index / 4 - 1)) last else last

theorem keyWord_eq (key : Block) {index : Nat} (later : 4 ≤ index) (row : Fin 4) :
    keyWord key index row = keyWord key (index - 4) row ^^^ (keyAddend key index).get row := by
  have last (row : Fin 4) :
      (Vector.ofFn (keyWord key (index - 1))).get row = keyWord key (index - 1) row :=
    Vector.getElem_ofFn row.isLt
  rw [keyWord, if_neg (Nat.not_lt.2 later), keyAddend]
  split
  · rw [Standard.get_scramble, last, Standard.roundConstant_eq]
  · rw [last]

theorem word_of_expanded {index : Nat} (bound : index < 44)
    (expanded : Expanded key (index * 4 + 4) bytes) :
    word bytes (index * 4) = .ok (Vector.ofFn (keyWord key index)) := by
  have entry (row : Fin 4) : get bytes (index * 4 + row.val) = .ok (keyWord key index row) := by
    have place_bound : index * 4 + row.val < 176 := by omega
    rw [get_of_lt bytes place_bound, expanded _ place_bound (by omega), keyByte_eq]
  have first : get bytes (index * 4) = .ok (keyWord key index 0) := entry 0
  have second : get bytes (index * 4 + 1) = .ok (keyWord key index 1) := entry 1
  have third : get bytes (index * 4 + 2) = .ok (keyWord key index 2) := entry 2
  have fourth : get bytes (index * 4 + 3) = .ok (keyWord key index 3) := entry 3
  rw [word, first, ok_bind, second, ok_bind, third, ok_bind, fourth, ok_bind]
  rfl

theorem expanded_expandByte {index row : Nat} (later : 4 ≤ index) (bound : index < 44)
    (row_bound : row < 4) (expanded : Expanded key (index * 4 + row) bytes) :
    ∃ next, expandByte index (keyAddend key index) bytes row = .ok next ∧
      Expanded key (index * 4 + (row + 1)) next := by
  have old_bound : (index - 4) * 4 + row < 176 := by omega
  have place_bound : index * 4 + row < 176 := by omega
  have byte : bytes[(index - 4) * 4 + row] ^^^ (keyAddend key index)[row] =
      keyByte key (index * 4 + row) := by
    have recurrence := keyWord_eq key later ⟨row, row_bound⟩
    rw [← keyByte_eq key index, ← keyByte_eq key (index - 4)] at recurrence
    rw [expanded _ old_bound (by omega)]
    exact recurrence.symm
  refine ⟨bytes.set (index * 4 + row) (keyByte key (index * 4 + row)), ?_, ?_⟩
  · rw [expandByte, subtract_of_le later, ok_bind, get_of_lt bytes old_bound, ok_bind,
      get_of_lt _ row_bound, ok_bind, byte, set_of_lt bytes place_bound]
  · intro earlier earlier_bound before
    rw [Vector.getElem_set]
    split
    next same => rw [same]
    next different => exact expanded earlier earlier_bound (by omega)

theorem addend_eq (key : Block) {index : Nat} (later : 4 ≤ index) (bound : index < 44) :
    addend index (Vector.ofFn (keyWord key (index - 1))) = .ok (keyAddend key index) := by
  rw [addend, keyAddend]
  split
  · exact scramble_eq later bound _
  · rfl

theorem expanded_expandWord {index : Nat} (later : 4 ≤ index) (bound : index < 44)
    (expanded : Expanded key (index * 4) bytes) :
    ∃ next, expandWord bytes index = .ok next ∧ Expanded key ((index + 1) * 4) next := by
  have before : Expanded key ((index - 1) * 4 + 4) bytes := by
    rw [← Nat.succ_mul, Nat.succ_eq_add_one, Nat.sub_add_cancel (by omega)]
    exact expanded
  obtain ⟨next, ran, ended⟩ := exists_foldlM_range
    (expandByte index (keyAddend key index)) (fun row => Expanded key (index * 4 + row)) 0 4
    (fun row bytes _ row_bound expanded => expanded_expandByte later bound row_bound expanded)
    expanded
  refine ⟨next, ?_, ?_⟩
  · rw [expandWord, subtract_of_le (by omega), ok_bind, word_of_expanded (by omega) before, ok_bind,
      addend_eq key later bound, ok_bind, ran]
  · rw [Nat.succ_mul]
    exact ended

theorem expanded_overwrite_key (key : Block) :
    Expanded key (4 * 4) ((Octets.zeros 176).overwrite 0 key.toList) := by
  intro earlier bound before
  have fits : 0 + key.toList.length ≤ 176 := by
    rw [Vector.length_toList]
    decide
  have inside : earlier < ((Octets.zeros 176).overwrite 0 key.toList).toList.length := by
    rw [Vector.length_toList]
    exact bound
  have entry : ((Octets.zeros 176).overwrite 0 key.toList)[earlier] = key[earlier] := by
    rw [← Vector.getElem_toList inside]
    simp only [Octets.toList_overwrite _ fits, List.take_zero, List.nil_append]
    rw [List.getElem_append_left (by rw [Vector.length_toList]; exact before),
      Vector.getElem_toList]
  have start := Standard.keyWord_start key ⟨earlier / 4, by omega⟩ (Fin.ofNat 4 earlier)
  have position : 4 * (earlier / 4) + earlier % 4 = earlier := by omega
  simp only [Standard.ofBlock, Fin.val_ofNat, position] at start
  rw [entry, keyByte, start]

theorem expand_eq (key : Block) : expand key = .ok (Schedule.expand key).toBytes := by
  obtain ⟨last, ran, ended⟩ := exists_foldlM_range expandWord
    (fun index => Expanded key (index * 4)) 4 (4 * rounds)
    (fun index bytes later bound expanded => expanded_expandWord later bound expanded)
    (expanded_overwrite_key key)
  rw [expand, overwrite_of_length _ (Nat.zero_le 16) (by decide) Vector.length_toList, ok_bind, ran,
    toBytes_eq_of_expanded ended]

/-! Blocks. -/

theorem addRoundKey_eq (schedule : Schedule) (block : Block) {round : Nat} (bound : round < 11) :
    addRoundKey schedule.toBytes round block = .ok (block.xor schedule.roundKeys[round]) := by
  have inside : (round + 1) * 16 ≤ schedule.toBytes.toList.length := by
    rw [Vector.length_toList]
    omega
  have key : (schedule.toBytes.toList.take ((round + 1) * 16)).drop (round * 16) =
      schedule.roundKeys[round].toList := by
    have part := Schedule.part_eq schedule ⟨round, bound⟩
    rw [Schedule.part, Nat.mul_comm] at part
    rw [List.drop_take, Nat.succ_mul, Nat.add_sub_cancel_left, part]
    rfl
  rw [addRoundKey, slice_of_le (by omega) inside, ok_bind, key, Octets.overwrite_xor,
    Octets.padded_toList]

theorem substituteBytes_eq (block : Block) :
    substituteBytes block = .ok (Aes.substituteBytes block) := by
  have total : substitute = fun byte => pure (Aes.substitute byte) :=
    funext substitute_eq
  rw [substituteBytes, total, Vector.mapM_pure]
  rfl

theorem exchange_eq (block : Block) {here there : Nat} (bound : here < 16)
    (other_bound : there < 16) : exchange block (here, there) = .ok (block.swap here there) := by
  rw [exchange]
  simp only [get_of_lt block bound, get_of_lt block other_bound, set_of_lt _ bound,
    set_of_lt _ other_bound, ok_bind]
  rfl

theorem shiftRows_eq (block : Block) : shiftRows block = .ok (Aes.shiftRows block) := by
  simp (disch := decide) only [shiftRows, List.foldlM_cons, List.foldlM_nil, exchange_eq, ok_bind]
  refine congrArg Except.ok (Vector.ext fun index bound => ?_)
  interval_cases index
  all_goals
    simp only [Aes.shiftRows, Vector.getElem_ofFn, Vector.getElem_swap]
    rfl

theorem mixColumn_eq (column : Column) :
    mixColumn column.toList = .ok (Aes.mixColumn column).toList := by
  have entry (row : Fin 4) : byteAt column.toList row.val = .ok (column.get row) := by
    have bound : row.val < column.toList.length := by
      rw [Vector.length_toList]
      exact row.isLt
    rw [byteAt_of_lt bound, Vector.getElem_toList]
    rfl
  have first : byteAt column.toList 0 = .ok (column.get 0) := entry 0
  have second : byteAt column.toList 1 = .ok (column.get 1) := entry 1
  have third : byteAt column.toList 2 = .ok (column.get 2) := entry 2
  have fourth : byteAt column.toList 3 = .ok (column.get 3) := entry 3
  have mixed : (Aes.mixColumn column).toList =
      [(Aes.mixColumn column).get 0, (Aes.mixColumn column).get 1, (Aes.mixColumn column).get 2,
        (Aes.mixColumn column).get 3] := rfl
  have mixed_row (row : Fin 4) : (Aes.mixColumn column).get row =
      double (column.get row) ^^^ (double (column.get (row + 1)) ^^^ column.get (row + 1)) ^^^
        column.get (row + 2) ^^^ column.get (row + 3) := Vector.getElem_ofFn row.isLt
  rw [mixColumn, first, ok_bind, second, ok_bind, third, ok_bind, fourth, ok_bind]
  refine (replace_of_length Vector.length_toList.symm).trans (congrArg Except.ok ?_)
  rw [mixed]
  simp only [mixed_row, Fin.isValue, Fin.reduceAdd]
  ac_rfl

theorem mixColumns_eq (block : Block) : mixColumns block = .ok (Aes.mixColumns block) := by
  have cut : Bytes.chunks 4 block.toList = block.columns.toList.map Vector.toList := by
    rw [← Octets.chunks_flatMap_toList, ← Block.toList_ofColumns, Block.ofColumns_columns]
  have mixed : (block.columns.toList.map Vector.toList).mapM mixColumn =
      .ok ((block.columns.map Aes.mixColumn).toList.map Vector.toList) := by
    have total : mixColumn ∘ Vector.toList = fun column => pure (Aes.mixColumn column).toList :=
      funext mixColumn_eq
    rw [Vector.toList_map, List.map_map, List.mapM_map, total, List.mapM_pure]
    rfl
  rw [mixColumns, cut, mixed, ok_bind, ← List.flatMap_def, ← Block.toList_ofColumns,
    Octets.padded_toList]
  rfl

theorem round_eq (schedule : Schedule) (block : Block) (index : Fin 10) :
    round schedule.toBytes block (1 + index.val) =
      .ok (if index.val < 9 then Aes.fullRound (schedule.roundKeys.get index.succ) block
        else Aes.lastRound (schedule.roundKeys.get (Fin.last 10)) block) := by
  have bound : 1 + index.val < 11 := by omega
  rw [round, substituteBytes_eq, ok_bind, shiftRows_eq, ok_bind, rounds]
  split
  next inner =>
    have early : index.val < 9 := by omega
    rw [mixColumns_eq, ok_bind, addRoundKey_eq schedule _ bound, if_pos early]
    simp only [Nat.add_comm 1]
    rfl
  next last =>
    have late : ¬index.val < 9 := by omega
    have number : 1 + index.val = 10 := by omega
    rw [ok_bind, addRoundKey_eq schedule _ bound, if_neg late]
    simp only [number]
    rfl

theorem encrypt_eq (schedule : Schedule) (block : Block) :
    encrypt schedule.toBytes block = .ok (schedule.encrypt block) := by
  rw [encrypt, addRoundKey_eq schedule block (by decide), ok_bind, rounds,
    foldlM_range_eq 1 (round_eq schedule), Fin.foldl_succ_last]
  simp only [Fin.val_castSucc, Fin.is_lt, if_true, Fin.val_last, lt_irrefl, if_false]
  rfl

end Aes.Strict

end SealedFrame
