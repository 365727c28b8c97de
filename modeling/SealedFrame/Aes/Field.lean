import Mathlib.Algebra.Group.Nat.Defs
import SealedFrame.Bytes

/-!
Bytes as the elements of the field with 256 elements: polynomials of degree below eight over the
field with two elements, modulo x ^ 8 + x ^ 4 + x ^ 3 + x + 1. Bit `i` of a byte is the coefficient
of x ^ i, and addition is the exclusive or.
-/

namespace SealedFrame.Aes.Field

def modulus : Nat := 0x11b

def product (left right : Nat) : Nat :=
  (List.range 8).foldl (fun sum degree =>
    if right.testBit degree then sum ^^^ (left <<< degree) else sum) 0

/-- The remainder of a polynomial of degree below fifteen: its terms from x ^ 14 down to x ^ 8 are
cancelled one after the other. -/
def reduce (polynomial : Nat) : Nat :=
  (List.range 7).foldr (fun degree rest =>
    if rest.testBit (degree + 8) then rest ^^^ (modulus <<< degree) else rest) polynomial

def mul (left right : UInt8) : UInt8 :=
  UInt8.ofNat (reduce (product left.toNat right.toNat))

def power (base : UInt8) : Nat → UInt8
  | 0 => 1
  | exponent + 1 => mul (power base exponent) base

/-- The inverse of an element, and zero for zero: the group of units has 255 elements. -/
def inverse (element : UInt8) : UInt8 :=
  power element 254

/-- The affine map on the bits of a byte: each is added to the four bits below it, cyclically,
and to a bit of a constant. -/
def affine (byte : UInt8) : UInt8 :=
  UInt8.ofNat ((List.range 8).foldl (fun sum bit =>
    let parity := (List.range 5).foldl (fun parity offset =>
      parity ^^ byte.toNat.testBit ((bit + [0, 4, 5, 6, 7].getD offset 0) % 8)) false
    if parity ^^ (0x63 : Nat).testBit bit then sum + 2 ^ bit else sum) 0)

/-- The substitution of a byte: inverted in the field, then mapped. -/
def substitute (byte : UInt8) : UInt8 :=
  affine (inverse byte)

end SealedFrame.Aes.Field
