import SealedFrame.Proofs.Aes.Cipher

namespace SealedFrame

namespace Octets

variable {size : Nat}

theorem xor_xor_cancel (octets mask : Octets size) : (octets.xor mask).xor mask = octets := by
  apply Vector.ext
  intro index bound
  simp only [Octets.xor, Vector.getElem_zipWith]
  rw [UInt8.xor_assoc, UInt8.xor_self, UInt8.xor_zero]

instance : Finite (Octets size) := by
  apply Finite.of_injective fun (octets : Octets size) (index : Fin size) => octets.get index
  intro octets other same
  apply Vector.ext
  intro index bound
  exact congrFun same ⟨index, bound⟩

end Octets

namespace Aes

/-! The cipher run backwards. Every step of a round can be undone under any round key: bytes by the
inverse of the affine map and the inverse in the field, columns by the inverse of the matrix they
are multiplied by. The rounds are undone from the last one to the first. -/

section Steps

variable {α β : Type} {size count : Nat}

theorem map_map_of_undone {forth : α → β} {back : β → α}
    (undone : ∀ value, back (forth value) = value) (values : Vector α size) :
    (values.map forth).map back = values := by
  apply Vector.ext
  intro index bound
  rw [Vector.getElem_map, Vector.getElem_map, undone]

theorem foldr_foldl_of_undone {step : α → Fin count → α} {undo : Fin count → α → α}
    (undone : ∀ index value, undo index (step value index) = value) (start : α) :
    Fin.foldr count undo (Fin.foldl count step start) = start := by
  induction count generalizing start with
  | zero => rfl
  | succ count induction =>
      rw [Fin.foldl_succ_last, Fin.foldr_succ_last, undone]
      apply induction
      intro index value
      exact undone index.castSucc value

end Steps

/-! Bytes. -/

theorem Field.inverse_inverse (byte : UInt8) : inverse (inverse byte) = byte := by
  have inverted (byte : UInt8) : inverse byte = ((⟨byte⟩ : Element)⁻¹).byte :=
    inverse_eq_reciprocal byte
  rw [inverted, inverted]
  exact congrArg Element.byte (inv_inv (⟨byte⟩ : Element))

def unsubstitute (byte : UInt8) : UInt8 :=
  Field.inverse (Field.affineInverse byte)

theorem unsubstitute_substitute (byte : UInt8) : unsubstitute (substitute byte) = byte := by
  have inverted : Field.affineInverse (substitute byte) = Field.inverse byte :=
    (Field.inverse_eq_reciprocal byte).symm
  rw [unsubstitute, inverted, Field.inverse_inverse]

def unsubstituteBytes (block : Block) : Block :=
  block.map unsubstitute

theorem unsubstituteBytes_substituteBytes (block : Block) :
    unsubstituteBytes (substituteBytes block) = block :=
  map_map_of_undone unsubstitute_substitute block

/-! Rows. -/

/-- Thirteen is the inverse of five modulo sixteen. -/
def unshiftRows (block : Block) : Block :=
  Vector.ofFn fun index => block.get ⟨13 * index.val % 16, Nat.mod_lt _ (by decide)⟩

theorem unshiftRows_shiftRows (block : Block) : unshiftRows (shiftRows block) = block := by
  have place : ∀ index : Fin 16,
      5 * (⟨13 * index.val % 16, Nat.mod_lt _ (by decide)⟩ : Fin 16) = index := by
    decide
  apply Vector.ext
  intro index bound
  simp only [unshiftRows, shiftRows, Vector.get_eq_getElem, Vector.getElem_ofFn, Fin.getElem_fin]
  congr 1
  exact congrArg Fin.val (place ⟨index, bound⟩)

/-! Columns, as vectors over the field. -/

def vectorOf (column : Column) : Fin 4 → Field.Element :=
  fun row => ⟨column.get row⟩

def columnOf (vector : Fin 4 → Field.Element) : Column :=
  Vector.ofFn fun row => (vector row).byte

theorem columnOf_vectorOf (column : Column) : columnOf (vectorOf column) = column := by
  apply Vector.ext
  intro row bound
  exact Vector.getElem_ofFn bound

theorem vectorOf_columnOf (vector : Fin 4 → Field.Element) :
    vectorOf (columnOf vector) = vector := by
  funext row
  exact Field.Element.ext (Vector.getElem_ofFn row.isLt)

def mixingMatrix : Matrix (Fin 4) (Fin 4) Field.Element :=
  fun row column => ⟨Standard.mixing (column - row)⟩

theorem mixColumn_eq_mulVec (column : Column) :
    mixColumn column = columnOf (mixingMatrix.mulVec (vectorOf column)) := by
  apply Vector.ext
  intro row bound
  have entry := Standard.get_mixColumn column ⟨row, bound⟩
  rw [columnOf, Vector.getElem_ofFn, Matrix.mulVec, dotProduct, Fin.sum_univ_four]
  exact entry

/-- The first row of the inverse matrix, which is circulant too. -/
def unmixing : Fin 4 → UInt8
  | 0 => 14
  | 1 => 11
  | 2 => 13
  | 3 => 9

def unmixingMatrix : Matrix (Fin 4) (Fin 4) Field.Element :=
  fun row column => ⟨unmixing (column - row)⟩

theorem unmixingMatrix_mul_mixingMatrix : unmixingMatrix * mixingMatrix = 1 := by
  ext row column
  revert row column
  decide +kernel

def unmixColumn (column : Column) : Column :=
  columnOf (unmixingMatrix.mulVec (vectorOf column))

theorem unmixColumn_mixColumn (column : Column) : unmixColumn (mixColumn column) = column := by
  rw [mixColumn_eq_mulVec, unmixColumn, vectorOf_columnOf, Matrix.mulVec_mulVec,
    unmixingMatrix_mul_mixingMatrix, Matrix.one_mulVec, columnOf_vectorOf]

def unmixColumns (block : Block) : Block :=
  Block.ofColumns (block.columns.map unmixColumn)

theorem unmixColumns_mixColumns (block : Block) : unmixColumns (mixColumns block) = block := by
  rw [unmixColumns, mixColumns, Block.columns_ofColumns,
    map_map_of_undone unmixColumn_mixColumn, Block.ofColumns_columns]

/-! Rounds. -/

def undoFullRound (roundKey block : Block) : Block :=
  unsubstituteBytes (unshiftRows (unmixColumns (block.xor roundKey)))

def undoLastRound (roundKey block : Block) : Block :=
  unsubstituteBytes (unshiftRows (block.xor roundKey))

theorem undoFullRound_fullRound (roundKey block : Block) :
    undoFullRound roundKey (fullRound roundKey block) = block := by
  rw [undoFullRound, fullRound, Octets.xor_xor_cancel, unmixColumns_mixColumns,
    unshiftRows_shiftRows, unsubstituteBytes_substituteBytes]

theorem undoLastRound_lastRound (roundKey block : Block) :
    undoLastRound roundKey (lastRound roundKey block) = block := by
  rw [undoLastRound, lastRound, Octets.xor_xor_cancel, unshiftRows_shiftRows,
    unsubstituteBytes_substituteBytes]

namespace Schedule

variable (schedule : Schedule)

def decrypt (block : Block) : Block :=
  let mixed := undoLastRound (schedule.roundKeys.get 10) block
  let whitened := Fin.foldr 9
    (fun round state => undoFullRound (schedule.roundKeys.get round.succ.castSucc) state) mixed
  whitened.xor (schedule.roundKeys.get 0)

theorem decrypt_encrypt (block : Block) : schedule.decrypt (schedule.encrypt block) = block := by
  have unwhitened : (block.xor schedule.roundKeys[0]).xor (schedule.roundKeys.get 0) = block :=
    Octets.xor_xor_cancel block _
  have unmixed (state : Block) : undoLastRound (schedule.roundKeys.get 10)
      (lastRound schedule.roundKeys[10] state) = state :=
    undoLastRound_lastRound _ state
  simp only [decrypt, encrypt, unmixed]
  rw [foldr_foldl_of_undone, unwhitened]
  intro round state
  exact undoFullRound_fullRound _ state

theorem encrypt_injective : Function.Injective schedule.encrypt :=
  Function.LeftInverse.injective schedule.decrypt_encrypt

/-- Under any round keys, every block is the encryption of exactly one block. -/
theorem encrypt_bijective : Function.Bijective schedule.encrypt :=
  Finite.injective_iff_bijective.1 schedule.encrypt_injective

end Schedule

end Aes

end SealedFrame
