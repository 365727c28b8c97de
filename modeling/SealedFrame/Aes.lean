import SealedFrame.Aes.Schedule

namespace SealedFrame.Aes

def substituteBytes (block : Block) : Block :=
  block.map substitute

/-- Row `r` turned left by `r` columns: the byte at `i` comes from four places further on for
each row down, which is `5 * i` counted modulo sixteen. -/
def shiftRows (block : Block) : Block :=
  Vector.ofFn fun index => block[5 * index]

/-- Twice a byte, three times the next below it, and the other two, cyclically. -/
def mixColumn (column : Column) : Column :=
  Vector.ofFn fun row =>
    double (column.get row) ^^^ (double (column.get (row + 1)) ^^^ column.get (row + 1)) ^^^
      column.get (row + 2) ^^^ column.get (row + 3)

def mixColumns (block : Block) : Block :=
  Block.ofColumns (block.columns.map mixColumn)

def fullRound (roundKey block : Block) : Block :=
  (mixColumns (shiftRows (substituteBytes block))).xor roundKey

def lastRound (roundKey block : Block) : Block :=
  (shiftRows (substituteBytes block)).xor roundKey

def Schedule.encrypt (schedule : Schedule) (block : Block) : Block :=
  let whitened := block.xor schedule.roundKeys[0]
  let mixed := Fin.foldl 9
    (fun state round => fullRound schedule.roundKeys[round.val + 1] state) whitened
  lastRound schedule.roundKeys[10] mixed

end SealedFrame.Aes
