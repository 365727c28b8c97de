import SealedFrame.Ccm.Counter
import SealedFrame.Ccm.Standard
import SealedFrame.Proofs.BigEndian
import SealedFrame.Proofs.Octets.Cutting

namespace SealedFrame

/-! The mask byte by byte. Each byte of a text meets one byte of one key block, whatever the
other bytes are, so masking twice gives the text back. -/

theorem Bytes.xor_xor_cancel {text mask : Bytes} (covered : text.length ≤ mask.length) :
    Bytes.xor (Bytes.xor text mask) mask = text := by
  induction text generalizing mask with
  | nil => rfl
  | cons byte rest induction =>
      cases mask with
      | nil => exact absurd covered (by simp)
      | cons key keys =>
          have head_eq : byte ^^^ key ^^^ key = byte := by
            rw [UInt8.xor_assoc, UInt8.xor_self, UInt8.xor_zero]
          have tail_eq : Bytes.xor (Bytes.xor rest keys) keys = rest :=
            induction (by simpa using covered)
          simp only [Bytes.xor, List.zipWith_cons_cons, head_eq]
          exact congrArg (List.cons byte) tail_eq

namespace Ccm

theorem counterBlock_ofNat (nonce : Nonce) (index : Nat) :
    counterBlock nonce (UInt16.ofNat index) =
      Octets.ofBytes (1 :: (nonce.toList ++ bigEndian 2 index)) (by simp) := by
  apply Vector.toList_inj.1
  have field : bigEndian 2 (UInt16.ofNat index).toNat = bigEndian 2 index := by
    rw [UInt16.toNat_ofNat']
    exact bigEndian_mod 2 index
  simp only [counterBlock, counterFlags, Octets.toList_ofBytes, field]

/-- The running number, which wraps at sixteen bits, against the true number of the block. -/
theorem counterBlocks_eq_map (nonce : Nonce) (start count : Nat) :
    counterBlocks nonce (UInt16.ofNat start) count =
      (List.range count).map fun offset =>
        counterBlock nonce (UInt16.ofNat (start + offset)) := by
  induction count generalizing start with
  | zero => rfl
  | succ count induction =>
      have next : UInt16.ofNat start + 1 = UInt16.ofNat (start + 1) :=
        (UInt16.ofNat_add start 1).symm
      simp only [counterBlocks, next, induction, List.range_succ_eq_map, List.map_cons,
        List.map_map, Nat.add_zero]
      congr 1
      apply List.map_congr_left
      intro offset _
      simp only [Function.comp_apply, Nat.succ_eq_add_one, Nat.add_assoc, Nat.add_comm 1]

variable (cipher : Block → Block) (nonce : Nonce)

theorem cipher_counterBlock (index : Nat) :
    cipher (counterBlock nonce (UInt16.ofNat index)) = Standard.keyBlock cipher nonce index := by
  rw [counterBlock_ofNat]
  rfl

theorem keystream_eq (length : Nat) :
    keystream cipher nonce length =
      ((List.range (blockCount length)).map fun offset =>
        Standard.keyBlock cipher nonce (1 + offset)).flatMap Vector.toList := by
  have blocks := counterBlocks_eq_map nonce 1 (blockCount length)
  change (counterBlocks nonce (UInt16.ofNat 1) _).flatMap _ = _
  rw [blocks, List.flatMap_map, List.flatMap_map]
  simp only [cipher_counterBlock]

theorem getElem_keystream (length index : Nat)
    (bound : index < (keystream cipher nonce length).length) :
    (keystream cipher nonce length)[index] =
      (Standard.keyBlock cipher nonce (index / 16 + 1)).toList.getD (index % 16) 0 := by
  have block_bound : index / 16 < blockCount length := by
    rw [length_keystream, blockSize] at bound
    omega
  simp only [keystream_eq]
  rw [Octets.getElem_flatMap_toList _ _ _ (by simpa using block_bound)]
  simp only [List.getElem_map, List.getElem_range, Nat.add_comm 1]

/-- The byte that byte number `index` of every text meets. -/
def maskByte (index : Nat) : UInt8 :=
  (Standard.keyBlock cipher nonce (index / 16 + 1)).toList.getD (index % 16) 0

theorem applyKeystream_eq_mapIdx (text : Bytes) :
    applyKeystream cipher nonce text =
      text.mapIdx fun index byte => byte ^^^ maskByte cipher nonce index := by
  apply List.ext_getElem
  · rw [length_applyKeystream, List.length_mapIdx]
  · intro index masked_bound text_bound
    simp only [applyKeystream, Bytes.xor, List.getElem_zipWith, List.getElem_mapIdx,
      getElem_keystream, maskByte]

theorem getD_applyKeystream {text : Bytes} {index : Nat} (bound : index < text.length) :
    (applyKeystream cipher nonce text).getD index 0 =
      text.getD index 0 ^^^ maskByte cipher nonce index := by
  simp only [applyKeystream_eq_mapIdx, List.getD_eq_getElem?_getD, List.getElem?_mapIdx,
    List.getElem?_eq_getElem bound, Option.map_some, Option.getD_some]

theorem applyKeystream_take (text : Bytes) (count : Nat) :
    applyKeystream cipher nonce (text.take count) =
      (applyKeystream cipher nonce text).take count := by
  apply List.ext_getElem?
  intro index
  simp only [applyKeystream_eq_mapIdx, List.getElem?_mapIdx, List.getElem?_take]
  split
  · rfl
  · rfl

theorem applyKeystream_applyKeystream (text : Bytes) :
    applyKeystream cipher nonce (applyKeystream cipher nonce text) = text := by
  have covered : text.length ≤ (keystream cipher nonce text.length).length := by
    rw [length_keystream, blockSize, blockCount, blockSize]
    omega
  rw [applyKeystream, length_applyKeystream, applyKeystream, Bytes.xor_xor_cancel covered]

end Ccm

end SealedFrame
