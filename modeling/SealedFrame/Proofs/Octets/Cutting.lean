import Mathlib.Algebra.GroupWithZero.Nat
import SealedFrame.Octets

namespace SealedFrame.Octets

/-! Strings cut into whole blocks, and whole blocks strung together. -/

/-- The whole blocks that a string starts with, in order. What remains at its end is left out. -/
def cut (size : Nat) (bytes : Bytes) : List (Octets size) :=
  (List.range (bytes.length / size)).map fun index => padded size (bytes.drop (size * index))

/-- What cutting leaves out. -/
def remainder (size : Nat) (bytes : Bytes) : Bytes :=
  bytes.drop (size * (bytes.length / size))

variable {size : Nat}

theorem padded_take (bytes : Bytes) : padded size (bytes.take size) = padded size bytes := by
  apply Vector.toList_inj.1
  rw [toList_padded, toList_padded, List.take_take, Nat.min_self, List.length_take]
  congr 2
  omega

theorem padded_append_of_le {first : Bytes} (long : size ≤ first.length) (second : Bytes) :
    padded size (first ++ second) = padded size first := by
  rw [← padded_take, List.take_append_of_le_length long, padded_take]

theorem padded_toList_append (octets : Octets size) (bytes : Bytes) :
    padded size (octets.toList ++ bytes) = octets := by
  rw [padded_append_of_le (Nat.le_of_eq Vector.length_toList.symm), padded_toList]

theorem toList_padded_of_le {bytes : Bytes} (long : size ≤ bytes.length) :
    (padded size bytes).toList = bytes.take size := by
  rw [toList_padded, Nat.sub_eq_zero_of_le long, List.replicate_zero, List.append_nil]

theorem cut_of_lt {bytes : Bytes} (short : bytes.length < size) : cut size bytes = [] := by
  rw [cut, Nat.div_eq_of_lt short]
  rfl

theorem remainder_of_lt {bytes : Bytes} (short : bytes.length < size) :
    remainder size bytes = bytes := by
  rw [remainder, Nat.div_eq_of_lt short]
  rfl

@[simp] theorem length_remainder (bytes : Bytes) :
    (remainder size bytes).length = bytes.length % size := by
  have split := Nat.mod_add_div bytes.length size
  rw [remainder, List.length_drop]
  omega

/-- Every string is a shorter string than a block with whole blocks in front. -/
theorem blockwise [NeZero size] {motive : Bytes → Prop}
    (short : ∀ bytes : Bytes, bytes.length < size → motive bytes)
    (block : ∀ (octets : Octets size) (rest : Bytes), motive rest →
      motive (octets.toList ++ rest)) (bytes : Bytes) : motive bytes := by
  by_cases long : size ≤ bytes.length
  · have front : (padded size bytes).toList = bytes.take size := toList_padded_of_le long
    have split : bytes = (padded size bytes).toList ++ bytes.drop size := by
      rw [front, List.take_append_drop]
    rw [split]
    exact block _ _ (blockwise short block (bytes.drop size))
  · exact short bytes (Nat.lt_of_not_le long)
termination_by bytes.length
decreasing_by
  have positive := Nat.pos_of_neZero size
  rw [List.length_drop]
  omega

theorem length_toList_append_div [NeZero size] (octets : Octets size) (bytes : Bytes) :
    (octets.toList ++ bytes).length / size = bytes.length / size + 1 := by
  rw [List.length_append, Vector.length_toList, Nat.add_comm,
    Nat.add_div_right _ (Nat.pos_of_neZero size)]

theorem drop_toList_append (octets : Octets size) (bytes : Bytes) (count : Nat) :
    (octets.toList ++ bytes).drop (size * (count + 1)) = bytes.drop (size * count) := by
  rw [List.drop_append, Vector.length_toList, Nat.mul_succ, Nat.add_sub_cancel,
    List.drop_eq_nil_of_le (by rw [Vector.length_toList]; omega), List.nil_append]

theorem cut_toList_append [NeZero size] (octets : Octets size) (bytes : Bytes) :
    cut size (octets.toList ++ bytes) = octets :: cut size bytes := by
  simp only [cut, length_toList_append_div, List.range_succ_eq_map, List.map_cons,
    List.map_map, Nat.mul_zero, List.drop_zero, padded_toList_append]
  congr 1
  apply List.map_congr_left
  intro index _
  exact congrArg (padded size) (drop_toList_append octets bytes index)

theorem cut_toList [NeZero size] (octets : Octets size) :
    cut size octets.toList = [octets] := by
  have single := cut_toList_append octets []
  have nothing : cut size [] = [] := cut_of_lt (Nat.pos_of_neZero size)
  rwa [List.append_nil, nothing] at single

theorem remainder_toList_append [NeZero size] (octets : Octets size) (bytes : Bytes) :
    remainder size (octets.toList ++ bytes) = remainder size bytes := by
  rw [remainder, length_toList_append_div, drop_toList_append, remainder]

/-- The blocks of a string carry on from what an earlier cut of it left out. -/
theorem cut_append [NeZero size] (first second : Bytes) :
    cut size (first ++ second) =
      cut size first ++ cut size (remainder size first ++ second) := by
  induction first using @blockwise size _ with
  | short first short => rw [cut_of_lt short, remainder_of_lt short, List.nil_append]
  | block octets rest induction =>
      rw [List.append_assoc, cut_toList_append, induction, cut_toList_append,
        remainder_toList_append, List.cons_append]

theorem remainder_append [NeZero size] (first second : Bytes) :
    remainder size (first ++ second) = remainder size (remainder size first ++ second) := by
  induction first using @blockwise size _ with
  | short first short => rw [remainder_of_lt short]
  | block octets rest induction =>
      rw [List.append_assoc, remainder_toList_append, induction, remainder_toList_append]

theorem cut_append_of_whole [NeZero size] {first : Bytes}
    (whole : first.length % size = 0) (second : Bytes) :
    cut size (first ++ second) = cut size first ++ cut size second := by
  have nothing : remainder size first = [] :=
    List.length_eq_zero_iff.1 ((length_remainder first).trans whole)
  rw [cut_append, nothing, List.nil_append]

theorem flatMap_cut [NeZero size] (bytes : Bytes) :
    (cut size bytes).flatMap Vector.toList ++ remainder size bytes = bytes := by
  induction bytes using @blockwise size _ with
  | short bytes short =>
      rw [cut_of_lt short, remainder_of_lt short]
      rfl
  | block octets rest induction =>
      rw [cut_toList_append, remainder_toList_append, List.flatMap_cons, List.append_assoc,
        induction]

/-- A string of whole blocks is its blocks strung together. -/
theorem flatMap_cut_of_whole [NeZero size] {bytes : Bytes} (whole : bytes.length % size = 0) :
    (cut size bytes).flatMap Vector.toList = bytes := by
  have nothing : remainder size bytes = [] :=
    List.length_eq_zero_iff.1 ((length_remainder bytes).trans whole)
  have split := @flatMap_cut size _ bytes
  rwa [nothing, List.append_nil] at split

theorem getElem_flatMap_toList [NeZero size] (blocks : List (Octets size)) (index : Nat)
    (bound : index < (blocks.flatMap Vector.toList).length)
    (block_bound : index / size < blocks.length) :
    (blocks.flatMap Vector.toList)[index] =
      (blocks[index / size]).toList.getD (index % size) 0 := by
  induction blocks generalizing index with
  | nil => exact absurd block_bound (Nat.not_lt_zero _)
  | cons block rest induction =>
      have length : block.toList.length = size := Vector.length_toList
      simp only [List.flatMap_cons]
      by_cases inside : index < size
      · rw [List.getElem_append_left (by omega)]
        simp only [Nat.div_eq_of_lt inside, Nat.mod_eq_of_lt inside, List.getElem_cons_zero]
        exact (List.getElem_eq_getD 0)
      · obtain ⟨further, rfl⟩ : ∃ further, index = further + size :=
          ⟨index - size, by omega⟩
        have position : (further + size) / size = further / size + 1 :=
          Nat.add_div_right further (Nat.pos_of_neZero size)
        rw [List.getElem_append_right (by omega)]
        simp only [length, Nat.add_sub_cancel, position, Nat.add_mod_right,
          List.getElem_cons_succ]
        exact induction further _ (by
          rw [position, List.length_cons] at block_bound
          omega)

theorem chunks_eq_map (size : Nat) (bytes : Bytes) :
    Bytes.chunks size bytes = (List.range ((bytes.length + (size - 1)) / size)).map fun index =>
      (bytes.drop (size * index)).take size := by
  have pieces (count : Nat) (rest : Bytes) : Bytes.chunks.pieces size count rest =
      (List.range count).map fun index => (rest.drop (size * index)).take size := by
    induction count generalizing rest with
    | zero => rfl
    | succ count induction =>
        rw [Bytes.chunks.pieces, induction, List.range_succ_eq_map, List.map_cons, List.map_map]
        congr 1
        apply List.map_congr_left
        intro index _
        rw [Function.comp_apply, List.drop_drop, Nat.succ_eq_add_one, Nat.mul_succ, Nat.add_comm]
  exact pieces _ bytes

theorem chunks_flatMap_toList [NeZero size] (blocks : List (Octets size)) :
    Bytes.chunks size (blocks.flatMap Vector.toList) = blocks.map Vector.toList := by
  have positive := Nat.pos_of_neZero size
  induction blocks with
  | nil => exact Bytes.chunks_nil positive
  | cons block rest induction =>
      have length : block.toList.length = size := Vector.length_toList
      have nonempty : block.toList ++ rest.flatMap Vector.toList ≠ [] := by
        intro empty
        rw [(List.append_eq_nil_iff.1 empty).1, List.length_nil] at length
        omega
      rw [List.flatMap_cons, Bytes.chunks_of_ne_nil positive nonempty, List.take_left' length,
        List.drop_left' length, induction, List.map_cons]

end SealedFrame.Octets
