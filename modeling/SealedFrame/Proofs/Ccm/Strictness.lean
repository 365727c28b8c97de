import SealedFrame.Ccm.Strict
import SealedFrame.Proofs.Ccm.Decryption
import SealedFrame.Proofs.Checked
import SealedFrame.Proofs.Octets.Overwriting

namespace SealedFrame

open Checked

theorem Bytes.xor_append_right (text front rest : Bytes) :
    Bytes.xor text (front ++ rest) =
      Bytes.xor (text.take front.length) front ++ Bytes.xor (text.drop front.length) rest := by
  induction front generalizing text with
  | nil => rfl
  | cons key keys induction =>
      cases text with
      | nil => rfl
      | cons byte further =>
          have later := induction further
          simp only [Bytes.xor, List.cons_append, List.zipWith_cons_cons, List.length_cons,
            List.take_succ_cons, List.drop_succ_cons] at later ⊢
          rw [later]

theorem Bytes.xor_take (first second : Bytes) (count : Nat) :
    Bytes.xor (first.take count) second = (Bytes.xor first second).take count := by
  induction first generalizing second count with
  | nil => simp only [Bytes.xor, List.take_nil, List.zipWith_nil_left]
  | cons byte rest induction =>
      cases count with
      | zero => rfl
      | succ count =>
          cases second with
          | nil => rfl
          | cons key keys =>
              have later := induction keys count
              simp only [Bytes.xor, List.take_succ_cons, List.zipWith_cons_cons] at later ⊢
              rw [later]

namespace Ccm.Strict

variable (nonce : Nonce)

theorem numberedBlock_eq (flags : UInt8) {closing : Bytes} (length : closing.length = 2) :
    numberedBlock nonce flags closing =
      .ok (Octets.ofBytes (flags :: (nonce.toList ++ closing)) (by simp [length])) := by
  have flagged : set (Octets.zeros 16) 0 flags = .ok ((Octets.zeros 16).overwrite 0 [flags]) := by
    rw [set_of_lt _ (by decide), Octets.set_eq_overwrite]
  have nonce_length : nonce.toList.length = 13 := Vector.length_toList
  have named : ((Octets.zeros 16).overwrite 0 [flags]).overwrite 1 nonce.toList =
      (Octets.zeros 16).overwrite 0 (flags :: nonce.toList) :=
    Octets.overwrite_overwrite _ rfl (by rw [nonce_length]; decide)
  have closed : ((Octets.zeros 16).overwrite 0 (flags :: nonce.toList)).overwrite 14 closing =
      (Octets.zeros 16).overwrite 0 (flags :: (nonce.toList ++ closing)) :=
    Octets.overwrite_overwrite _ (by simp) (Nat.le_of_eq (by rw [length]))
  rw [numberedBlock, flagged, ok_bind, overwrite_of_length _ (by decide) (by decide) nonce_length,
    ok_bind, named, subtract_of_le (by decide), ok_bind,
    overwrite_of_length _ (by decide) (by decide) length]
  exact congrArg Except.ok (closed.trans (Octets.overwrite_whole _ (by simp [length])))

theorem counterBlock_eq (index : UInt16) :
    counterBlock nonce index = .ok (Ccm.counterBlock nonce index) :=
  numberedBlock_eq nonce counterFlags (length_bigEndian 2 index.toNat)

variable {cipher : Block → Checked Block} {plain : Block → Block}
  (total : ∀ block, cipher block = .ok (plain block))

/-! The mask. -/

theorem fill_xor {place piece : Bytes} (same : place.length = piece.length)
    (short : piece.length ≤ 16) (key : Block) :
    place.fill (Bytes.xor piece key.toList) = Bytes.xor piece key.toList := by
  have length : (Bytes.xor piece key.toList).length = place.length := by
    rw [Bytes.length_xor, Vector.length_toList, Nat.min_eq_left short, same]
  rw [Bytes.fill_of_le (Nat.le_of_eq length.symm), ← length, List.take_length]

/-- Both numbers that the code narrows have passed the check of the lengths. -/
theorem short_of_lengthError? {associated : Bytes} {length : Nat}
    (passed : lengthError? associated length = none) :
    associated.length < shortLimit ∧ length < shortLimit := by
  obtain ⟨payload_fits, associated_fits⟩ := lengths_fit_of_lengthError? passed
  rw [maxPayload] at payload_fits
  rw [maxAssociated] at associated_fits
  rw [shortLimit]
  omega

include total

theorem maskPieces_eq (index : UInt16) {text output : Bytes} (same : output.length = text.length)
    (fits : index.toNat + blockCount text.length < shortLimit) :
    ∃ pieces, maskPieces cipher nonce index (Bytes.chunks blockSize text)
        (Bytes.chunks blockSize output) = .ok pieces ∧
      pieces.flatten = Bytes.xor text
        ((counterBlocks nonce index (blockCount text.length)).flatMap fun block =>
          (plain block).toList) := by
  by_cases empty : text = []
  · subst empty
    have nothing : output = [] := List.length_eq_zero_iff.1 same
    subst nothing
    rw [Bytes.chunks_nil (by decide)]
    exact ⟨[], rfl, rfl⟩
  · have length_pos := List.length_pos_iff.2 empty
    have output_nonempty : output ≠ [] := List.length_pos_iff.1 (same ▸ length_pos)
    have count : blockCount text.length = blockCount (text.drop blockSize).length + 1 := by
      simp only [blockCount, blockSize, List.length_drop]
      omega
    have narrow_fits : index.toNat + 1 < shortLimit := by omega
    have next : UInt16.ofNat (index.toNat + 1) = index + 1 := by
      rw [UInt16.ofNat_add, UInt16.ofNat_toNat]
      rfl
    have next_toNat : (index + 1).toNat = index.toNat + 1 := by
      rw [← next, UInt16.toNat_ofNat']
      exact Nat.mod_eq_of_lt narrow_fits
    have rest_same : (output.drop blockSize).length = (text.drop blockSize).length := by
      rw [List.length_drop, List.length_drop, same]
    obtain ⟨pieces, masked, flattened⟩ := maskPieces_eq (index + 1) rest_same (by omega)
    have place_same : (output.take blockSize).length = (text.take blockSize).length := by
      rw [List.length_take, List.length_take, same]
    refine ⟨Bytes.xor (text.take blockSize) (plain (Ccm.counterBlock nonce index)).toList :: pieces,
      ?_, ?_⟩
    · rw [Bytes.chunks_of_ne_nil (by decide) empty,
        Bytes.chunks_of_ne_nil (by decide) output_nonempty, maskPieces, counterBlock_eq, ok_bind,
        total, ok_bind, narrow_of_lt narrow_fits, ok_bind, next, masked, ok_bind,
        fill_xor place_same (List.length_take_le _ _)]
    · rw [List.flatten_cons, flattened, count, counterBlocks, List.flatMap_cons,
        Bytes.xor_append_right, Vector.length_toList]
      rfl
termination_by text.length
decreasing_by
  rw [List.length_drop, blockSize]
  omega

theorem maskInto_eq {text output : Bytes} (same : output.length = text.length)
    (fits : text.length < shortLimit) :
    maskInto cipher nonce text output = .ok (applyKeystream plain nonce text) := by
  -- At most 4096 pieces, so the number of the block never comes near its limit.
  have blocks_fit : (1 : UInt16).toNat + blockCount text.length < shortLimit := by
    rw [shortLimit] at fits ⊢
    change 1 + (text.length + 15) / 16 < 65536
    omega
  obtain ⟨pieces, masked, flattened⟩ := maskPieces_eq nonce total 1 same blocks_fit
  rw [maskInto, masked, ok_bind, flattened, applyKeystream, keystream]

/-! The code. -/

theorem absorb_eq (link : Block) (piece : Bytes) :
    absorb cipher link piece = .ok (plain (link.xor (Octets.padded 16 piece))) := by
  rw [absorb, Octets.overwrite_xor, total]

theorem foldlM_absorb (link : Block) (pieces : List Bytes) :
    pieces.foldlM (absorb cipher) link =
      .ok ((pieces.map (Octets.padded 16)).foldl (fun link block => plain (link.xor block))
        link) := by
  have each : absorb cipher = fun link piece =>
      pure (plain (link.xor (Octets.padded 16 piece))) :=
    funext₂ (absorb_eq total)
  rw [each, List.foldlM_pure, List.foldl_map]
  rfl

theorem absorbAssociated_eq (link : Block) {associated : Bytes} (nonempty : associated ≠ [])
    (fits : associated.length < shortLimit) :
    absorbAssociated cipher link associated =
      .ok ((associatedBlocks associated).foldl (fun link block => plain (link.xor block))
        link) := by
  have blocks : associatedBlocks associated =
      Octets.padded 16 (bigEndian 2 associated.length ++ associated.take 14) ::
        (Bytes.chunks blockSize (associated.drop 14)).map (Octets.padded 16) := by
    rw [associatedBlocks, List.isEmpty_eq_false_iff.2 nonempty]
    rfl
  have room : subtract blockSize 2 = .ok 14 := rfl
  obtain ⟨count, count_eq⟩ : ∃ count, count = min associated.length 14 := ⟨_, rfl⟩
  have front : associated.take count = associated.take 14 :=
    List.take_eq_take_iff.2 (by omega)
  have front_length : (associated.take count).length = count := by
    rw [List.length_take]
    omega
  have rest : associated.drop count = associated.drop 14 := by
    by_cases long : 14 ≤ associated.length
    · rw [count_eq, Nat.min_eq_right long]
    · rw [List.drop_eq_nil_of_le (by omega), List.drop_eq_nil_of_le (by omega)]
  have counted : ((Octets.zeros 16).overwrite 0 (bigEndian 2 associated.length)).overwrite 2
      (associated.take count) =
        Octets.padded 16 (bigEndian 2 associated.length ++ associated.take 14) := by
    rw [Octets.overwrite_overwrite _ (by rw [length_bigEndian]) (by omega), Octets.overwrite_zeros,
      front]
    rw [List.length_append, length_bigEndian]
    omega
  rw [absorbAssociated, narrow_of_lt fits, ok_bind,
    overwrite_of_length _ (by decide) (by decide) (length_bigEndian 2 _), ok_bind, room, ok_bind,
    ← count_eq]
  change slice associated 0 count >>= _ = _
  rw [slice_of_le (Nat.zero_le _) (by omega), ok_bind, List.drop_zero,
    overwrite_of_length _ (by omega) (by omega) (by omega), ok_bind, counted, absorb_eq total,
    ok_bind, Octets.padded_toList, slice_of_le (by omega) (Nat.le_refl _), ok_bind,
    List.take_length, rest, foldlM_absorb total, blocks, List.foldl_cons]

theorem mac_eq {associated payload : Bytes}
    (fits : associated.length < shortLimit ∧ payload.length < shortLimit) :
    mac cipher nonce associated payload = .ok (Ccm.mac plain nonce associated payload) := by
  have first_block : (Octets.zeros 16).xor (firstBlock nonce associated payload) =
      firstBlock nonce associated payload := by
    apply Vector.ext
    intro index bound
    simp only [Octets.xor, Octets.zeros, Vector.getElem_zipWith, Vector.getElem_replicate,
      UInt8.zero_xor]
  have link (first : Block) : (if associated.isEmpty then Except.ok first
      else absorbAssociated cipher first associated) =
        .ok ((associatedBlocks associated).foldl (fun link block => plain (link.xor block))
          first) := by
    by_cases empty : associated = []
    · subst empty
      rfl
    · rw [absorbAssociated_eq total first empty fits.1, List.isEmpty_eq_false_iff.2 empty]
      rfl
  rw [mac, narrow_of_lt fits.2, ok_bind, numberedBlock_eq nonce _ (length_bigEndian 2 _), ok_bind,
    total, ok_bind, link, ok_bind, foldlM_absorb total, Ccm.mac, chain, macBlocks, List.foldl_cons,
    first_block, List.foldl_append]
  rfl

omit total in
theorem fits_of_mac {associated payload : Bytes} {code : Block}
    (made : mac cipher nonce associated payload = .ok code) :
    associated.length < shortLimit ∧ payload.length < shortLimit := by
  rw [mac] at made
  obtain ⟨length, payload_narrowed, made⟩ := exists_of_bind_eq_ok made
  obtain ⟨block, -, made⟩ := exists_of_bind_eq_ok made
  obtain ⟨first, -, made⟩ := exists_of_bind_eq_ok made
  obtain ⟨link, absorbed, -⟩ := exists_of_bind_eq_ok made
  refine ⟨?_, lt_of_narrow payload_narrowed⟩
  split at absorbed
  next empty =>
    rw [List.isEmpty_iff.1 empty]
    decide
  next nonempty =>
    rw [absorbAssociated] at absorbed
    obtain ⟨length, narrowed, -⟩ := exists_of_bind_eq_ok absorbed
    exact lt_of_narrow narrowed

/-- The code is refused exactly where a length does not fit into its two bytes. -/
theorem exists_mac_iff (associated payload : Bytes) :
    (∃ code, mac cipher nonce associated payload = .ok code) ↔
      associated.length < shortLimit ∧ payload.length < shortLimit :=
  ⟨fun ⟨_, made⟩ => fits_of_mac nonce made, fun fits => ⟨_, mac_eq nonce total fits⟩⟩

/-! Sealing and opening. -/

omit total in
theorem fill_tag {place : Bytes} (length : place.length = 8) (code key : Block) :
    place.fill (Bytes.xor code.toList key.toList) = ((code.xor key).first 8).toList := by
  have long : place.length ≤ (Bytes.xor code.toList key.toList).length := by
    rw [length, Bytes.length_xor, Vector.length_toList, Vector.length_toList]
    decide
  rw [Bytes.fill_of_le long, length, Octets.toList_first, Octets.toList_xor]

omit total in
/-- Masking what was received or masking what was expected settles the same test. -/
theorem tag_test_iff {sentTag : Bytes} (length : sentTag.length = 8) (code key : Block) :
    code.toList.take 8 = Bytes.xor sentTag key.toList ↔
      ((code.xor key).first 8).toList = sentTag := by
  have covered : sentTag.length ≤ key.toList.length := by
    rw [length, Vector.length_toList]
    decide
  have code_covered : (code.toList.take 8).length ≤ key.toList.length := by
    rw [List.length_take, Vector.length_toList, Vector.length_toList]
    decide
  rw [Octets.toList_first, Octets.toList_xor, ← Bytes.xor_take]
  constructor
  · intro same
    rw [same, Bytes.xor_xor_cancel covered]
  · intro same
    rw [← same, Bytes.xor_xor_cancel code_covered]

theorem writeSealed_eq {associated payload buffer : Bytes}
    (fits : associated.length < shortLimit ∧ payload.length < shortLimit)
    (room : payload.length + tagSize ≤ buffer.length) :
    writeSealed cipher nonce associated payload buffer (payload.length + tagSize) =
      .ok (.accept (payload.length + tagSize)
        (buffer.overwriteFront (sealed plain nonce associated payload))) := by
  obtain ⟨place, place_eq⟩ : ∃ place, place = buffer.take (payload.length + tagSize) := ⟨_, rfl⟩
  have place_length : place.length = payload.length + tagSize := by
    rw [place_eq, List.length_take, Nat.min_eq_left room]
  have text_length : (place.take payload.length).length = payload.length := by
    rw [List.length_take, place_length, Nat.min_eq_left (Nat.le_add_right _ _)]
  have tag_length : (place.drop payload.length).length = 8 := by
    rw [List.length_drop, place_length, Nat.add_sub_cancel_left, tagSize]
  rw [writeSealed, mac_eq nonce total fits, ok_bind, slice_of_le (Nat.zero_le _) room, ok_bind,
    List.drop_zero, ← place_eq, split_of_le (by omega), ok_bind]
  simp only []
  rw [maskInto_eq nonce total text_length fits.2, ok_bind, counterBlock_eq, ok_bind, total, ok_bind,
    fill_tag tag_length, Bytes.overwriteFront, length_sealed, sealed, tag]

theorem encryptInto_eq (associated payload buffer : Bytes) :
    encryptInto cipher nonce associated payload buffer =
      .ok (Ccm.encryptInto plain nonce associated payload buffer) := by
  cases checked : lengthError? associated payload.length with
  | some error => simp only [encryptInto, Ccm.encryptInto, checked]
  | none =>
      simp only [encryptInto, Ccm.encryptInto, checked]
      split
      next => rfl
      next room =>
        exact writeSealed_eq nonce total (short_of_lengthError? checked) (Nat.not_lt.1 room)

theorem readSealed_eq {associated input buffer : Bytes} {length : Nat}
    (fits : associated.length < shortLimit ∧ length < shortLimit)
    (whole : length + 8 = input.length) (room : length ≤ buffer.length) :
    let payload := applyKeystream plain nonce (input.take length)
    readSealed cipher nonce associated input buffer length =
      .ok (if (tag plain nonce associated payload).toList = input.drop length then
          .accept length (buffer.overwriteFront payload)
        else .reject .decryptionFailed ((buffer.overwriteFront payload).wipeFront length)) := by
  intro payload
  have text_length : (input.take length).length = length := by
    rw [List.length_take]
    omega
  have place_length : (buffer.take length).length = (input.take length).length := by
    rw [text_length, List.length_take, Nat.min_eq_left room]
  have payload_length : payload.length = length :=
    (length_applyKeystream plain nonce (input.take length)).trans text_length
  have payload_fits : payload.length < shortLimit := by
    rw [payload_length]
    exact fits.2
  have tag_length : (input.drop length).length = 8 := by
    rw [List.length_drop]
    omega
  have received : Bytes.fill (Octets.zeros tagSize).toList (Bytes.xor (input.drop length)
      (plain (Ccm.counterBlock nonce 0)).toList) =
        Bytes.xor (input.drop length) (plain (Ccm.counterBlock nonce 0)).toList :=
    fill_xor (Vector.length_toList.trans tag_length.symm) (by omega) _
  have wiped := Bytes.wipeFront_overwriteFront buffer payload
  rw [payload_length] at wiped
  rw [readSealed, split_of_le (by omega), ok_bind]
  simp only []
  rw [counterBlock_eq, ok_bind, total, ok_bind, slice_of_le (Nat.zero_le _) room, ok_bind,
    List.drop_zero, maskInto_eq nonce total place_length (by omega), ok_bind,
    mac_eq nonce total ⟨fits.1, payload_fits⟩, ok_bind,
    slice_of_le (Nat.zero_le _) (by rw [Vector.length_toList]; decide), ok_bind, List.drop_zero,
    received, payload_length, wiped, Bytes.overwriteFront, payload_length, ← apply_ite Except.ok]
  exact congrArg Except.ok (if_congr (tag_test_iff tag_length _ _) rfl rfl)

theorem decryptInto_eq (associated input buffer : Bytes) :
    decryptInto cipher nonce associated input buffer =
      .ok (Ccm.decryptInto plain nonce associated input buffer) := by
  by_cases short : input.length < tagSize
  · simp only [decryptInto, Ccm.decryptInto, if_pos short]
  · have whole : input.length - tagSize + tagSize = input.length :=
      Nat.sub_add_cancel (Nat.not_lt.1 short)
    simp only [decryptInto, Ccm.decryptInto, if_neg short, subtract_of_le (Nat.not_lt.1 short),
      ok_bind]
    cases checked : lengthError? associated (input.length - tagSize) with
    | some error => rfl
    | none =>
        simp only []
        split
        next => rfl
        next room =>
          exact readSealed_eq nonce total (short_of_lengthError? checked) whole (Nat.not_lt.1 room)

end Ccm.Strict

end SealedFrame
