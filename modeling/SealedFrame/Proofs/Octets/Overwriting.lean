import SealedFrame.Proofs.Octets.Cutting

namespace SealedFrame

/-! Strings written over a fixed one, in one piece or piece after piece. -/

/-- A string that ends early leaves the rest as it is, like the zeros it could be filled with. -/
theorem Bytes.xor_filled (target piece : Bytes) :
    Bytes.xor target (piece.take target.length ++
        List.replicate (target.length - piece.length) 0) =
      Bytes.xor target piece ++ target.drop (min target.length piece.length) := by
  induction target generalizing piece with
  | nil => rfl
  | cons byte rest induction =>
      cases piece with
      | nil =>
          have unchanged := induction []
          simp only [List.take_nil, List.nil_append, List.length_nil, Nat.sub_zero, Nat.min_zero,
            List.drop_zero, Bytes.xor, List.zipWith_nil_right] at unchanged ⊢
          rw [List.length_cons, List.replicate_succ, List.zipWith_cons_cons, unchanged,
            UInt8.xor_zero]
      | cons first further =>
          have later := induction further
          simp only [Bytes.xor, List.length_cons, List.take_succ_cons, List.cons_append,
            List.zipWith_cons_cons, Nat.add_sub_add_right, Nat.add_min_add_right,
            List.drop_succ_cons] at later ⊢
          rw [later]

namespace Octets

variable {size : Nat} (octets : Octets size) {start : Nat}

theorem length_take_append {bytes : Bytes} (fits : start + bytes.length ≤ size) :
    (octets.toList.take start ++ bytes).length = start + bytes.length := by
  rw [List.length_append, List.length_take, Vector.length_toList]
  omega

theorem take_overwrite {bytes : Bytes} (fits : start + bytes.length ≤ size) :
    (octets.overwrite start bytes).toList.take (start + bytes.length) =
      octets.toList.take start ++ bytes := by
  rw [toList_overwrite octets fits]
  exact List.take_left' (length_take_append octets fits)

theorem drop_overwrite {bytes : Bytes} (fits : start + bytes.length ≤ size) :
    (octets.overwrite start bytes).toList.drop (start + bytes.length) =
      octets.toList.drop (start + bytes.length) := by
  rw [toList_overwrite octets fits]
  exact List.drop_left' (length_take_append octets fits)

theorem toList_overwrite_end {bytes : Bytes} (fills : start + bytes.length = size) :
    (octets.overwrite start bytes).toList = octets.toList.take start ++ bytes := by
  have nothing : octets.toList.drop (start + bytes.length) = [] :=
    List.drop_eq_nil_of_le (Nat.le_of_eq (Vector.length_toList.trans fills.symm))
  rw [toList_overwrite octets (Nat.le_of_eq fills), nothing, List.append_nil]

theorem overwrite_whole {bytes : Bytes} (length : bytes.length = size) :
    octets.overwrite 0 bytes = ofBytes bytes length := by
  apply Vector.toList_inj.1
  rw [toList_overwrite_end octets (by rw [Nat.zero_add, length]), List.take_zero, List.nil_append,
    toList_ofBytes]

theorem overwrite_zeros {bytes : Bytes} (fits : bytes.length ≤ size) :
    (zeros size).overwrite 0 bytes = padded size bytes := by
  apply Vector.toList_inj.1
  rw [toList_overwrite _ (by rw [Nat.zero_add]; exact fits), toList_padded, toList_zeros,
    List.take_zero, List.nil_append, Nat.zero_add, List.drop_replicate, List.take_of_length_le fits]

theorem overwrite_overwrite {next : Nat} {first second : Bytes}
    (follows : start + first.length = next) (fits : next + second.length ≤ size) :
    (octets.overwrite start first).overwrite next second =
      octets.overwrite start (first ++ second) := by
  subst follows
  have first_fits : start + first.length ≤ size := by omega
  have both : start + (first ++ second).length = start + first.length + second.length := by
    rw [List.length_append, Nat.add_assoc]
  have behind : (octets.overwrite start first).toList.drop (start + first.length + second.length) =
      octets.toList.drop (start + first.length + second.length) := by
    rw [← List.drop_drop, drop_overwrite octets first_fits, List.drop_drop]
  apply Vector.toList_inj.1
  rw [toList_overwrite octets (both ▸ fits), toList_overwrite _ fits,
    take_overwrite octets first_fits, behind, both, List.append_assoc _ first second]

/-- Of two strings as long as each other the later one stands. -/
theorem overwrite_again {bytes later : Bytes} (same : later.length = bytes.length)
    (fits : start + bytes.length ≤ size) :
    (octets.overwrite start bytes).overwrite start later = octets.overwrite start later := by
  have in_front : (octets.overwrite start bytes).toList.take start = octets.toList.take start := by
    have length : (octets.toList.take start).length = start := by
      rw [List.length_take, Vector.length_toList]
      omega
    rw [toList_overwrite octets fits, List.append_assoc]
    exact List.take_left' length
  apply Vector.toList_inj.1
  rw [toList_overwrite (octets.overwrite start bytes) (same ▸ fits), in_front, same,
    drop_overwrite octets fits, toList_overwrite octets (same ▸ fits), same]

theorem set_eq_overwrite {place : Nat} (bound : place < size) (byte : UInt8) :
    octets.set place byte = octets.overwrite place [byte] := by
  have inside : place < octets.toList.length := by
    rw [Vector.length_toList]
    exact bound
  apply Vector.toList_inj.1
  rw [toList_overwrite octets bound, Vector.toList_set, List.set_eq_take_append_cons_drop,
    if_pos inside, List.append_assoc]
  rfl

theorem overwrite_xor (piece : Bytes) :
    octets.overwrite 0 (Bytes.xor octets.toList piece) = octets.xor (padded size piece) := by
  have fits : 0 + (Bytes.xor octets.toList piece).length ≤ size := by
    rw [Bytes.length_xor, Vector.length_toList]
    omega
  have filled := Bytes.xor_filled octets.toList piece
  rw [Vector.length_toList] at filled
  apply Vector.toList_inj.1
  rw [toList_overwrite octets fits, toList_xor, toList_padded, filled, List.take_zero,
    List.nil_append, Nat.zero_add, Bytes.length_xor, Vector.length_toList]

end Octets

end SealedFrame
