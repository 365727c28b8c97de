import SealedFrame.Octets

namespace SealedFrame

/-- Sixteen bytes, read as four columns of four. -/
abbrev Block := Octets 16

abbrev Column := Octets 4

/-- Rows and columns are counted modulo four. -/
@[instance] theorem neZeroFour : @NeZero Nat ⟨0⟩ 4 := ⟨by decide⟩

namespace Block

theorem row_lt (index : Fin 16) : index.val % 4 < 4 :=
  Nat.mod_lt _ (by decide)

theorem column_lt (index : Fin 16) : index.val / 4 < 4 := by
  omega

def columns (block : Block) : Vector Column 4 :=
  Vector.ofFn fun column => Vector.ofFn fun row => block[4 * column.val + row.val]

def ofColumns (columns : Vector Column 4) : Block :=
  Vector.ofFn fun index => columns[index.val / 4][index.val % 4]

@[simp] theorem getElem_columns (block : Block) (column row : Fin 4) :
    block.columns[column][row] = block[4 * column.val + row.val] := by
  simp [columns]

@[simp] theorem ofColumns_columns (block : Block) : ofColumns block.columns = block := by
  apply Vector.ext
  intro index bound
  simp only [ofColumns, columns, Vector.getElem_ofFn]
  congr 1
  omega

@[simp] theorem columns_ofColumns (columns : Vector Column 4) :
    (ofColumns columns).columns = columns := by
  apply Vector.ext
  intro column columnBound
  apply Vector.ext
  intro row rowBound
  simp only [Block.columns, ofColumns, Vector.getElem_ofFn]
  congr 1
  · congr 1
    omega
  · omega

end Block

end SealedFrame
