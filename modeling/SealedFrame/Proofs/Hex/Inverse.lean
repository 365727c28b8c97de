import SealedFrame.Key
import SealedFrame.Proofs.Hex.Grammar

namespace SealedFrame.Hex

/-! Writing and reading undo each other, up to the case of the letters A to F. The calls that make
a buffer of their own, and the keys spelled in digits, follow the calls that are given one. -/

def lowerLetter (character : Char) : Char :=
  if 'A' ≤ character ∧ character ≤ 'F' then character.toLower else character

/-- The text with its letters A to F in lower case. -/
def lowered (text : String) : String :=
  String.ofList (text.toList.map lowerLetter)

/-- The texts that can be read: whole pairs of digits. -/
def IsHex (text : String) : Prop :=
  (Bytes.ofText text).length % 2 = 0 ∧ OnlyDigits (Bytes.ofText text)

instance (text : String) : Decidable (IsHex text) :=
  inferInstanceAs (Decidable (_ ∧ _))

/-- What is read into a buffer: as many bytes of its front as the answer counts. -/
def readOut (written : Written Nat) : Except Error Bytes :=
  match written.answer with
  | .ok count => .ok (written.buffer.take count)
  | .error error => .error error

/-! One byte and its two digits. -/

theorem digitsOf_spells (byte : UInt8) :
    let high := digit (byte >>> 4)
    let low := digit (byte &&& 15)
    (IsDigit high ∧ IsDigit low) ∧
      UInt8.ofNat (16 * digitPlace high + digitPlace low) = byte := by
  have check : ∀ bits : BitVec 8,
      let high := digit (UInt8.ofBitVec bits >>> 4)
      let low := digit (UInt8.ofBitVec bits &&& 15)
      (IsDigit high ∧ IsDigit low) ∧
        UInt8.ofNat (16 * digitPlace high + digitPlace low) = UInt8.ofBitVec bits := by
    decide +kernel
  exact check byte.toBitVec

theorem digitsOf_halves {high low : Nat} (high_lt : high < 16) (low_lt : low < 16) :
    digitsOf (UInt8.ofNat (16 * high + low)) =
      [digit (UInt8.ofNat high), digit (UInt8.ofNat low)] := by
  have check : ∀ high < 16, ∀ low < 16, digitsOf (UInt8.ofNat (16 * high + low)) =
      [digit (UInt8.ofNat high), digit (UInt8.ofNat low)] := by
    decide +kernel
  exact check high high_lt low low_lt

theorem ofUInt8_digit_digitPlace {code : UInt8} (isDigit : IsDigit code) :
    Char.ofUInt8 (digit (UInt8.ofNat (digitPlace code))) = lowerLetter (Char.ofUInt8 code) := by
  have check : ∀ code ∈ lowerDigits ++ upperDigits,
      Char.ofUInt8 (digit (UInt8.ofNat (digitPlace code))) =
        lowerLetter (Char.ofUInt8 code) := by
    decide +kernel
  exact check code (List.mem_append.2 isDigit)

/-! Texts that were written. -/

variable {text : String} {bytes buffer : Bytes}

theorem ofText_encode (bytes : Bytes) :
    Bytes.ofText (encode bytes) = bytes.flatMap digitsOf := by
  have code : (encode bytes).toUTF8 = (bytes.flatMap digitsOf).toByteArray :=
    toByteArray_encode bytes
  rw [Bytes.ofText, code, List.toList_data_toByteArray]

theorem length_ofText_encode (bytes : Bytes) :
    (Bytes.ofText (encode bytes)).length = 2 * bytes.length := by
  rw [ofText_encode, length_flatMap_digitsOf]

theorem isHex_encode (bytes : Bytes) : IsHex (encode bytes) := by
  refine ⟨by rw [length_ofText_encode, Nat.mul_mod_right], ?_⟩
  rw [ofText_encode]
  intro code member
  obtain ⟨byte, -, digit⟩ := List.mem_flatMap.1 member
  obtain ⟨⟨high, low⟩, -⟩ := digitsOf_spells byte
  simp only [digitsOf, List.mem_cons, List.not_mem_nil, or_false] at digit
  rcases digit with rfl | rfl
  · exact high
  · exact low

theorem spelled_ofText_encode (bytes : Bytes) : spelled (Bytes.ofText (encode bytes)) = bytes := by
  rw [ofText_encode]
  induction bytes with
  | nil => rfl
  | cons byte rest induction =>
      rw [List.flatMap_cons, digitsOf, List.cons_append, List.cons_append, List.nil_append,
        spelled_cons_cons, (digitsOf_spells byte).2, induction]

/-! Texts that were read. -/

theorem map_digitsOf_spelled (codes : Bytes) (even : codes.length % 2 = 0)
    (digits : OnlyDigits codes) :
    ((spelled codes).flatMap digitsOf).map Char.ofUInt8 =
      (codes.map Char.ofUInt8).map lowerLetter := by
  induction codes, even using pairwise with
  | empty => rfl
  | pair high low rest even induction =>
      obtain ⟨⟨high_digit, low_digit⟩, rest_digits⟩ := onlyDigits_cons_cons.1 digits
      rw [spelled_cons_cons, List.flatMap_cons, digitsOf_halves (digitPlace_lt high_digit)
        (digitPlace_lt low_digit), List.map_append, induction rest_digits]
      simp only [List.map_cons, List.map_nil, List.cons_append, List.nil_append,
        ofUInt8_digit_digitPlace high_digit, ofUInt8_digit_digitPlace low_digit]

theorem encode_spelled (hex : IsHex text) :
    encode (spelled (Bytes.ofText text)) = lowered text := by
  have ascii : ∀ code ∈ Bytes.ofText text, code.toNat < 128 := fun code member =>
    toNat_lt_of_isDigit (hex.2 code member)
  rw [encode, lowered, Bytes.toList_eq_map_ofUInt8 ascii, map_digitsOf_spelled _ hex.1 hex.2]

/-! Reading with room for all the bytes. -/

theorem decodeInto_of_isHex (hex : IsHex text)
    (room : (Bytes.ofText text).length / 2 ≤ buffer.length) :
    decodeInto text buffer =
      .accept ((Bytes.ofText text).length / 2)
        (spelled (Bytes.ofText text) ++ buffer.drop ((Bytes.ofText text).length / 2)) := by
  obtain ⟨even, digits⟩ := hex
  have decided := decodeInto_eq_guarded text buffer
  dsimp only at decided
  have not_odd : ¬(Bytes.ofText text).length % 2 = 1 := by omega
  rwa [Written.guarded_cons_of_not not_odd, Written.guarded_cons_of_not (Nat.not_lt.2 room),
    Written.guarded_nil, if_pos digits] at decided

theorem answer_decodeInto_of_not_isHex (other : ¬IsHex text)
    (room : (Bytes.ofText text).length / 2 ≤ buffer.length) :
    (decodeInto text buffer).answer = .error .invalidHex := by
  have decided := decodeInto_eq_guarded text buffer
  dsimp only at decided
  rw [decided, Written.guarded_cons]
  split
  · rfl
  · rename_i even
    have bad : ¬OnlyDigits (Bytes.ofText text) := fun digits => other ⟨by omega, digits⟩
    rw [Written.guarded_cons_of_not (Nat.not_lt.2 room), Written.guarded_nil, if_neg bad,
      Written.answer_reject]

theorem readOut_decodeInto (room : (Bytes.ofText text).length / 2 ≤ buffer.length) :
    readOut (decodeInto text buffer) =
      if IsHex text then .ok (spelled (Bytes.ofText text)) else .error .invalidHex := by
  by_cases hex : IsHex text
  · rw [if_pos hex, decodeInto_of_isHex hex room, readOut, Written.answer_accept,
      Written.buffer_accept]
    simp only [List.take_left' (length_spelled (Bytes.ofText text))]
  · rw [if_neg hex]
    simp only [readOut, answer_decodeInto_of_not_isHex hex room]

/-- A buffer that is made for a text has just the room for its bytes. -/
theorem decode_eq (text : String) :
    decode text =
      if IsHex text then .ok (spelled (Bytes.ofText text)) else .error .invalidHex := by
  have room : (Bytes.ofText text).length / 2 ≤
      (List.replicate ((Bytes.ofText text).length / 2) (0 : UInt8)).length :=
    Nat.le_of_eq List.length_replicate.symm
  by_cases hex : IsHex text
  · rw [if_pos hex, decode, Written.contents, decodeInto_of_isHex hex room, Written.answer_accept,
      Written.buffer_accept]
    simp only [List.drop_replicate, Nat.sub_self, List.replicate_zero, List.append_nil]
  · rw [if_neg hex]
    simp only [decode, Written.contents, answer_decodeInto_of_not_isHex hex room]

theorem isHex_of_decode (read : decode text = .ok bytes) :
    IsHex text ∧ bytes = spelled (Bytes.ofText text) := by
  rw [decode_eq] at read
  split at read
  · rename_i hex
    exact ⟨hex, (Except.ok.inj read).symm⟩
  · cases read

theorem decodeInto_encode (room : bytes.length ≤ buffer.length) :
    decodeInto (encode bytes) buffer =
      .accept bytes.length (bytes ++ buffer.drop bytes.length) := by
  have count : (Bytes.ofText (encode bytes)).length / 2 = bytes.length := by
    rw [length_ofText_encode]
    omega
  have enough : (Bytes.ofText (encode bytes)).length / 2 ≤ buffer.length := by
    rwa [count]
  rw [decodeInto_of_isHex (isHex_encode bytes) enough, spelled_ofText_encode, count]

theorem decode_encode (bytes : Bytes) : decode (encode bytes) = .ok bytes := by
  rw [decode_eq, if_pos (isHex_encode bytes), spelled_ofText_encode]

/-! Writing. -/

theorem exists_answer_encodeInto_iff :
    (∃ written : String, (encodeInto bytes buffer).answer = .ok written) ↔
      2 * bytes.length ≤ buffer.length := by
  rw [encodeInto_eq]
  split
  · rename_i small
    exact iff_of_false (fun ⟨written, accepted⟩ => nomatch accepted) (Nat.not_le.2 small)
  · rename_i room
    exact iff_of_true ⟨encode bytes, rfl⟩ (Nat.not_lt.1 room)

theorem eq_encode_of_answer_encodeInto {written : String}
    (accepted : (encodeInto bytes buffer).answer = .ok written) : written = encode bytes := by
  rw [encodeInto_eq] at accepted
  split at accepted
  · cases accepted
  · exact (Except.ok.inj accepted).symm

/-- What is written always is a text. -/
theorem fromUTF8?_encodeInto (room : 2 * bytes.length ≤ buffer.length) :
    String.fromUTF8? ((encodeInto bytes buffer).buffer.take (2 * bytes.length)).toByteArray =
      some (encode bytes) := by
  rw [encodeInto_eq, if_neg (Nat.not_lt.2 room), Written.buffer_accept,
    take_overwriteFront_digits, fromUTF8?_digits]

end SealedFrame.Hex

namespace SealedFrame

/-! Keys. -/

theorem Key.ofHex_encode (bytes : Bytes) : ofHex (Hex.encode bytes) = ofBytes bytes := by
  rw [ofHex, Hex.length_ofText_encode]
  by_cases whole : bytes.length = size
  · have capacity : (Octets.zeros size).toList.length = bytes.length :=
      Vector.length_toList.trans whole.symm
    have room : bytes.length ≤ (Octets.zeros size).toList.length := Nat.le_of_eq capacity.symm
    have filled : (Octets.zeros size).toList.drop bytes.length = [] :=
      List.drop_eq_nil_of_le (Nat.le_of_eq capacity)
    have sized : ¬2 * bytes.length ≠ 2 * size := fun other => other (congrArg (2 * ·) whole)
    have same : (⟨Octets.padded size bytes⟩ : Key) = ⟨Octets.ofBytes bytes whole⟩ :=
      congrArg Key.mk (Vector.toList_inj.1 (Octets.toList_padded_of_length whole))
    rw [if_neg sized, ofBytes, dif_pos whole, Hex.decodeInto_encode room, filled, List.append_nil]
    exact congrArg Except.ok same
  · have sized : 2 * bytes.length ≠ 2 * size := by omega
    rw [if_pos sized, ofBytes, dif_neg whole]

namespace Hex

theorem codec_inverts_both_ways (bytes : Bytes) (text : String) :
    (∀ buffer : Bytes,
      ((∃ written : String, (encodeInto bytes buffer).answer = .ok written) ↔
          2 * bytes.length ≤ buffer.length) ∧
        (2 * bytes.length ≤ buffer.length →
          String.fromUTF8?
              ((encodeInto bytes buffer).buffer.take (2 * bytes.length)).toByteArray =
            some (encode bytes)) ∧
        ∀ written : String,
          (encodeInto bytes buffer).answer = .ok written → written = encode bytes) ∧
      (∀ buffer : Bytes, bytes.length ≤ buffer.length →
        decodeInto (encode bytes) buffer =
          .accept bytes.length (bytes ++ buffer.drop bytes.length)) ∧
      decode (encode bytes) = .ok bytes ∧
      (∀ read : Bytes, decode text = .ok read → encode read = lowered text) ∧
      (∀ buffer : Bytes, (Bytes.ofText text).length / 2 ≤ buffer.length →
        decode text = readOut (decodeInto text buffer)) ∧
      decode text ≠ .error .bufferTooSmall ∧
      Key.ofHex (encode bytes) = Key.ofBytes bytes := by
  refine ⟨fun buffer => ⟨exists_answer_encodeInto_iff, fromUTF8?_encodeInto,
    fun written => eq_encode_of_answer_encodeInto⟩, fun buffer => decodeInto_encode,
    decode_encode bytes, ?_, ?_, ?_, Key.ofHex_encode bytes⟩
  · intro read accepted
    obtain ⟨hex, rfl⟩ := isHex_of_decode accepted
    exact encode_spelled hex
  · intro buffer room
    rw [decode_eq, readOut_decodeInto room]
  · rw [decode_eq]
    split
    · nofun
    · nofun

/-- A text in both cases, read with a byte of room to spare, and its bytes written back. -/
theorem codec_inverts_both_ways_mixed_case :
    encode [0xab, 0x9f] = lowered "aB9F" ∧
      decode "aB9F" = readOut (decodeInto "aB9F" [1, 2, 3]) ∧
      decodeInto (encode [0xab, 0x9f]) [1, 2, 3] = .accept 2 [0xab, 0x9f, 3] ∧
      String.fromUTF8? ((encodeInto [0xab, 0x9f] [1, 2, 3, 4, 5]).buffer.take 4).toByteArray =
        some (encode [0xab, 0x9f]) ∧
      ∃ written : String,
        (encodeInto [0xab, 0x9f] [1, 2, 3, 4, 5]).answer = .ok written ∧
          written = encode [0xab, 0x9f] := by
  obtain ⟨writes, reads, -, lowers, agrees, -⟩ := codec_inverts_both_ways [0xab, 0x9f] "aB9F"
  obtain ⟨succeeds, isText, same⟩ := writes [1, 2, 3, 4, 5]
  have room : 2 * ([0xab, 0x9f] : Bytes).length ≤ ([1, 2, 3, 4, 5] : Bytes).length := by decide
  obtain ⟨written, accepted⟩ := succeeds.2 room
  exact ⟨lowers [0xab, 0x9f] rfl, agrees [1, 2, 3] (by decide +kernel),
    reads [1, 2, 3] (by decide), isText room, written, accepted, same written accepted⟩

end Hex

end SealedFrame
