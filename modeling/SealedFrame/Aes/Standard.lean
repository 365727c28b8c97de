import SealedFrame.Block
import SealedFrame.Aes.Field

/-!
The block cipher as the standard words it, on four rows and four columns of field elements, with
the round keys by the recurrence of their words.
-/

namespace SealedFrame.Aes.Standard

abbrev Matrix := Fin 4 → Fin 4 → UInt8

/-- A block read column by column. -/
def ofBlock (block : Block) : Matrix :=
  fun row column => block[4 * column.val + row.val]

/-- A matrix written column by column. -/
def toBlock (matrix : Matrix) : Block :=
  Vector.ofFn fun index =>
    matrix ⟨index.val % 4, Block.row_lt index⟩ ⟨index.val / 4, Block.column_lt index⟩

def substituteBytes (matrix : Matrix) : Matrix :=
  fun row column => Field.substitute (matrix row column)

def shiftRows (matrix : Matrix) : Matrix :=
  fun row column => matrix row (column + row)

/-- The first row of the matrix that columns are multiplied by; each further row is the one above
turned right by one. -/
def mixing : Fin 4 → UInt8
  | 0 => 2
  | 1 => 3
  | 2 => 1
  | 3 => 1

/-- Each column multiplied by the circulant matrix. -/
def mixColumns (matrix : Matrix) : Matrix :=
  fun row column =>
    Field.mul (mixing (0 - row)) (matrix 0 column) ^^^
      Field.mul (mixing (1 - row)) (matrix 1 column) ^^^
      Field.mul (mixing (2 - row)) (matrix 2 column) ^^^
      Field.mul (mixing (3 - row)) (matrix 3 column)

def add (left right : Matrix) : Matrix :=
  fun row column => left row column ^^^ right row column

/-- A word of the round keys, by rows. The first four are the columns of the key; each later one
adds a function of the word before it to the word four before it. -/
def keyWord (key : Block) (index : Nat) (row : Fin 4) : UInt8 :=
  if index < 4 then ofBlock key row (Fin.ofNat 4 index)
  else if index % 4 = 0 then
    keyWord key (index - 4) row ^^^ (Field.substitute (keyWord key (index - 1) (row + 1)) ^^^
      if row = 0 then Field.power 2 (index / 4 - 1) else 0)
  else keyWord key (index - 4) row ^^^ keyWord key (index - 1) row
termination_by index
decreasing_by all_goals omega

def roundKey (key : Block) (round : Nat) : Matrix :=
  fun row column => keyWord key (4 * round + column.val) row

def afterRounds (key : Block) (matrix : Matrix) : Nat → Matrix
  | 0 => add matrix (roundKey key 0)
  | round + 1 =>
      add (mixColumns (shiftRows (substituteBytes (afterRounds key matrix round))))
        (roundKey key (round + 1))

/-- Nine full rounds, and a last one without mixing. -/
def encrypt (key block : Block) : Block :=
  toBlock (add (shiftRows (substituteBytes (afterRounds key (ofBlock block) 9)))
    (roundKey key 10))

end SealedFrame.Aes.Standard
