import Mathlib.Data.List.Nodup
import SealedFrame.Proofs.Ccm.Decryption

namespace SealedFrame.Ccm

/-! The counter blocks of a call: which of them masks what, and what keeps any two of them, and any
of them and a first block of the chain, apart. -/

/-- The counter blocks that a call over a payload encrypts, in the order of their numbers: number
zero for the tag, the others for the payload. -/
def maskBlocks (nonce : Nonce) (length : Nat) : List Block :=
  counterBlock nonce 0 :: counterBlocks nonce 1 (blockCount length)

/-- A sealed text got from a payload and its code with the given counter blocks: the first one
masks the tag, each of the others sixteen bytes of the payload. -/
structure MaskedUnder (cipher : Block → Block) (blocks : List Block) (payload : Bytes)
    (code : Block) (text : Bytes) : Prop where
  count : blocks.length = (payload.length + 15) / 16 + 1
  payload_eq : text.take payload.length =
    Bytes.xor payload ((blocks.drop 1).flatMap fun block => (cipher block).toList)
  tag_eq : text.drop payload.length =
    (Bytes.xor code.toList ((blocks.take 1).flatMap fun block => (cipher block).toList)).take 8

@[simp] theorem length_maskBlocks (nonce : Nonce) (length : Nat) :
    (maskBlocks nonce length).length = blockCount length + 1 := by
  rw [maskBlocks, List.length_cons, length_counterBlocks]

theorem maskedUnder_sealed (cipher : Block → Block) (nonce : Nonce)
    (associated payload : Bytes) :
    MaskedUnder cipher (maskBlocks nonce payload.length) payload
      (mac cipher nonce associated payload) (sealed cipher nonce associated payload) where
  count := length_maskBlocks nonce payload.length
  payload_eq := by
    rw [sealed, ← length_applyKeystream cipher nonce payload, List.take_left,
      length_applyKeystream]
    rfl
  tag_eq := by
    rw [sealed, ← length_applyKeystream cipher nonce payload, List.drop_left, tag,
      Octets.toList_first, Octets.toList_xor, maskBlocks, List.take_succ_cons, List.take_zero,
      List.flatMap_singleton]

theorem maskedUnder_encryptInto {cipher : Block → Block} {nonce : Nonce}
    {associated payload buffer : Bytes} {total : Nat}
    (accepted : (encryptInto cipher nonce associated payload buffer).answer = .ok total) :
    MaskedUnder cipher (maskBlocks nonce payload.length) payload
      (mac cipher nonce associated payload)
      ((encryptInto cipher nonce associated payload buffer).buffer.take total) := by
  obtain ⟨payload_fits, associated_fits, room, rfl⟩ := fits_of_answer_encryptInto accepted
  rw [encryptInto_of_fits cipher nonce payload_fits associated_fits room, Written.buffer_accept,
    ← length_sealed cipher nonce associated payload, Bytes.take_overwriteFront]
  exact maskedUnder_sealed cipher nonce associated payload

theorem maskedUnder_decryptInto {cipher : Block → Block} {nonce : Nonce}
    {associated input buffer : Bytes} {count : Nat}
    (accepted : (decryptInto cipher nonce associated input buffer).answer = .ok count) :
    let payload := (decryptInto cipher nonce associated input buffer).buffer.take count
    MaskedUnder cipher (maskBlocks nonce count) payload (mac cipher nonce associated payload)
      input := by
  intro payload
  obtain ⟨length, input_eq⟩ := eq_sealed_of_answer_decryptInto cipher nonce accepted
  have masked := maskedUnder_sealed cipher nonce associated payload
  rwa [← input_eq, length] at masked

theorem counterBlock_inj {nonce other : Nonce} {number otherNumber : UInt16} :
    counterBlock nonce number = counterBlock other otherNumber ↔
      nonce = other ∧ number = otherNumber := by
  have nonces : nonce.toList.length = other.toList.length := by
    rw [Vector.length_toList, Vector.length_toList]
  have numbers : bigEndian 2 number.toNat = bigEndian 2 otherNumber.toNat ↔
      number = otherNumber :=
    (bigEndian_inj number.toNat_lt otherNumber.toNat_lt).trans UInt16.toNat_inj
  rw [← Vector.toList_inj, counterBlock, counterBlock, Octets.toList_ofBytes,
    Octets.toList_ofBytes, List.cons.injEq, List.append_eq_append_iff_of_size_eq_left nonces,
    numbers, Vector.toList_inj]
  exact ⟨fun same => same.2, fun same => ⟨rfl, same⟩⟩

/-- The flags in front of a block tell the two halves of the mode apart. -/
theorem counterBlock_ne_firstBlock (nonce other : Nonce) (number : UInt16)
    (associated payload : Bytes) :
    counterBlock nonce number ≠ firstBlock other associated payload := by
  intro same
  have lists := congrArg Vector.toList same
  rw [counterBlock, Octets.toList_ofBytes, Standard.toList_firstBlock] at lists
  have flags : counterFlags = Standard.flags associated := List.head_eq_of_cons_eq lists
  by_cases empty : associated = []
  · rw [Standard.flags, if_pos empty] at flags
    exact absurd flags (by decide)
  · rw [Standard.flags, if_neg empty] at flags
    exact absurd flags (by decide)

theorem eq_counterBlock_of_getElem? {nonce : Nonce} {length index : Nat} {block : Block}
    (found : (maskBlocks nonce length)[index]? = some block) :
    index ≤ blockCount length ∧ block = counterBlock nonce (UInt16.ofNat index) := by
  have numbered : maskBlocks nonce length =
      (List.range (blockCount length + 1)).map fun offset =>
        counterBlock nonce (UInt16.ofNat (0 + offset)) :=
    counterBlocks_eq_map nonce 0 (blockCount length + 1)
  rw [numbered, List.getElem?_map, Option.map_eq_some_iff] at found
  obtain ⟨offset, at_offset, rfl⟩ := found
  obtain ⟨bound, rfl⟩ := List.getElem?_eq_some_iff.1 at_offset
  rw [List.length_range] at bound
  rw [List.getElem_range, Nat.zero_add]
  exact ⟨Nat.le_of_lt_succ bound, rfl⟩

/-- The running number has sixteen bits, and a payload that fits never uses them up. -/
theorem index_inj_of_fits {length otherLength index otherIndex : Nat}
    (fits : length ≤ maxPayload) (other_fits : otherLength ≤ maxPayload)
    (bound : index ≤ blockCount length) (other_bound : otherIndex ≤ blockCount otherLength)
    (same : UInt16.ofNat index = UInt16.ofNat otherIndex) : index = otherIndex := by
  rw [blockCount, blockSize] at bound other_bound
  rw [maxPayload] at fits other_fits
  have numbers := congrArg UInt16.toNat same
  rw [UInt16.toNat_ofNat', UInt16.toNat_ofNat'] at numbers
  omega

theorem maskBlocks_inj {nonce other : Nonce} {length otherLength index otherIndex : Nat}
    {block : Block} (fits : length ≤ maxPayload) (other_fits : otherLength ≤ maxPayload)
    (found : (maskBlocks nonce length)[index]? = some block)
    (other_found : (maskBlocks other otherLength)[otherIndex]? = some block) :
    index = otherIndex ∧ nonce = other := by
  obtain ⟨bound, rfl⟩ := eq_counterBlock_of_getElem? found
  obtain ⟨other_bound, same⟩ := eq_counterBlock_of_getElem? other_found
  obtain ⟨nonces, numbers⟩ := counterBlock_inj.1 same
  exact ⟨index_inj_of_fits fits other_fits bound other_bound numbers, nonces⟩

theorem nodup_maskBlocks (nonce : Nonce) {length : Nat} (fits : length ≤ maxPayload) :
    (maskBlocks nonce length).Nodup := by
  rw [List.nodup_iff_getElem?_ne_getElem?]
  intro index later before bound same
  have found := List.getElem?_eq_getElem bound
  exact absurd (maskBlocks_inj fits fits (same.trans found) found).1 (Nat.ne_of_lt before)

theorem ne_firstBlock_of_mem {nonce : Nonce} {length : Nat} {block : Block}
    (member : block ∈ maskBlocks nonce length) (other : Nonce) (associated payload : Bytes) :
    block ≠ firstBlock other associated payload := by
  obtain ⟨index, found⟩ := List.mem_iff_getElem?.1 member
  obtain ⟨-, rfl⟩ := eq_counterBlock_of_getElem? found
  exact counterBlock_ne_firstBlock nonce other _ associated payload

end SealedFrame.Ccm
