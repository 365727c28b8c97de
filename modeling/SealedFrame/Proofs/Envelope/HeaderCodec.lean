import Mathlib.Logic.Function.Defs
import SealedFrame.Envelope.Flags
import SealedFrame.Envelope.Header
import SealedFrame.Proofs.BigEndian
import SealedFrame.Proofs.Octets.Cutting

namespace SealedFrame

/-! The header and its flags, written and read back in both directions. -/

namespace Header

@[simp] theorem counter_field (counter : UInt32) :
    UInt32.ofNat (ofBigEndian (bigEndian counterSize counter.toNat)) = counter := by
  have fits : counter.toNat % 256 ^ counterSize = counter.toNat :=
    Nat.mod_eq_of_lt counter.toNat_lt
  rw [ofBigEndian_bigEndian, fits, UInt32.ofNat_toNat]

/-- A written header reads back, whatever follows it. -/
theorem ofBytes_toBytes_append (header : Header) (rest : Bytes) :
    ofBytes (header.toBytes.toList ++ rest) = .ok header := by
  have long : ¬(header.toBytes.toList ++ rest).length < size := by
    rw [List.length_append, Vector.length_toList, size]
    omega
  have counter : (((header.toBytes.toList ++ rest).drop 1).take counterSize) =
      bigEndian counterSize header.counter.toNat := by
    simp [toList_toBytes, counterSize]
  have auth : Octets.padded hashSize ((header.toBytes.toList ++ rest).drop 5) =
      header.authHash := by
    have field : (header.toBytes.toList ++ rest).drop 5 =
        header.authHash.toList ++ (header.deviceHash.toList ++ rest) := by
      simp [toList_toBytes, counterSize]
    rw [field]
    exact Octets.padded_toList_append header.authHash _
  have device : Octets.padded hashSize ((header.toBytes.toList ++ rest).drop 13) =
      header.deviceHash := by
    have field : (header.toBytes.toList ++ rest).drop 13 =
        header.deviceHash.toList ++ rest := by
      simp [toList_toBytes, counterSize, List.drop_append]
    rw [field]
    exact Octets.padded_toList_append header.deviceHash _
  rw [ofBytes, if_neg long, counter, auth, device, counter_field]
  rfl

theorem size_le_of_ofBytes {bytes : Bytes} {header : Header}
    (parsed : ofBytes bytes = .ok header) : size ≤ bytes.length := by
  unfold ofBytes at parsed
  split at parsed
  · cases parsed
  · rename_i long
    exact Nat.not_lt.1 long

theorem toBytes_of_ofBytes {bytes : Bytes} {header : Header}
    (parsed : ofBytes bytes = .ok header) : header.toBytes.toList = bytes.take size := by
  have long : size ≤ bytes.length := size_le_of_ofBytes parsed
  rw [ofBytes, if_neg (Nat.not_lt.2 long)] at parsed
  cases parsed
  rw [size] at long
  have flags : bytes.take 1 = [bytes.headD 0] := by
    cases bytes with
    | nil => exact absurd long (by decide)
    | cons byte rest => rfl
  have counter : bigEndian counterSize
      (UInt32.ofNat (ofBigEndian ((bytes.drop 1).take counterSize))).toNat =
        (bytes.drop 1).take 4 := by
    have length : ((bytes.drop 1).take counterSize).length = counterSize := by
      rw [List.length_take, List.length_drop, counterSize]
      omega
    rw [UInt32.toNat_ofNat', show 2 ^ 32 = 256 ^ counterSize from rfl, bigEndian_mod,
      bigEndian_ofBigEndian length]
    rfl
  have hash (start : Nat) (inside : start + 8 ≤ 21) :
      (Octets.padded hashSize (bytes.drop start)).toList = (bytes.drop start).take 8 :=
    Octets.toList_padded_of_le (by rw [List.length_drop, hashSize]; omega)
  rw [toList_toBytes]
  calc
    bytes.headD 0 :: (bigEndian counterSize
          (UInt32.ofNat (ofBigEndian ((bytes.drop 1).take counterSize))).toNat ++
        (Octets.padded hashSize (bytes.drop 5)).toList ++
        (Octets.padded hashSize (bytes.drop 13)).toList) =
        bytes.take 1 ++ (bytes.drop 1).take 4 ++ (bytes.drop 5).take 8 ++
          (bytes.drop 13).take 8 := by
      rw [flags, counter, hash 5 (by decide), hash 13 (by decide)]
      simp only [List.append_assoc, List.cons_append, List.nil_append]
    _ = bytes.take 21 := by
      rw [← List.take_add, ← List.take_add, ← List.take_add]

theorem eq_flags_cons_of_ofBytes {bytes : Bytes} {header : Header}
    (parsed : ofBytes bytes = .ok header) : ∃ rest : Bytes, bytes = header.flags :: rest := by
  have front := toBytes_of_ofBytes parsed
  rw [toList_toBytes] at front
  cases bytes with
  | nil => cases front
  | cons first rest => exact ⟨rest, by rw [(List.cons.inj front).1]⟩

/-- Nothing behind its own bytes has a part in what a header is read as. -/
theorem ofBytes_congr {bytes other : Bytes} (front : bytes.take size = other.take size) :
    ofBytes bytes = ofBytes other := by
  cases parsed : ofBytes bytes with
  | error error =>
      obtain ⟨short, rfl⟩ := (ofBytes_eq_error_iff bytes error).1 parsed
      have other_short : other.length < size := by
        have lengths := congrArg List.length front
        rw [List.length_take, List.length_take] at lengths
        omega
      exact ((ofBytes_eq_error_iff other _).2 ⟨other_short, rfl⟩).symm
  | ok header =>
      have whole : other = header.toBytes.toList ++ other.drop size := by
        rw [toBytes_of_ofBytes parsed, front, List.take_append_drop]
      rw [whole, ofBytes_toBytes_append]

theorem exists_toBytes_eq (bytes : Octets 21) : ∃ header : Header, header.toBytes = bytes := by
  have length : bytes.toList.length = size := Vector.length_toList
  cases parsed : ofBytes bytes.toList with
  | error error =>
      have short := ((ofBytes_eq_error_iff bytes.toList error).1 parsed).1
      exact absurd length (Nat.ne_of_lt short)
  | ok header =>
      refine ⟨header, Vector.toList_inj.1 ?_⟩
      rw [toBytes_of_ofBytes parsed, List.take_of_length_le (Nat.le_of_eq length)]

theorem toBytes_injective : Function.Injective toBytes := by
  intro header other same
  have read := ofBytes_toBytes_append header []
  rw [same, ofBytes_toBytes_append other []] at read
  exact (Except.ok.inj read).symm

/-- Headers are strings of twenty-one bytes in another form. A string reads as the header that
its front was written from, whatever stands behind it, and only a shorter one is refused. -/
theorem codec_bijective :
    Function.Bijective toBytes ∧
      (∀ (header : Header) (rest : Bytes),
        ofBytes (header.toBytes.toList ++ rest) = .ok header) ∧
      (∀ bytes : Bytes, 21 ≤ bytes.length →
        ∃ header : Header, ofBytes bytes = .ok header ∧
          header.toBytes.toList = bytes.take 21) ∧
      ∀ (bytes : Bytes) (error : Error),
        ofBytes bytes = .error error ↔ bytes.length < 21 ∧ error = .envelopeTooShort := by
  refine ⟨⟨toBytes_injective, exists_toBytes_eq⟩, ofBytes_toBytes_append, ?_,
    ofBytes_eq_error_iff⟩
  intro bytes long
  cases parsed : ofBytes bytes with
  | error error =>
      have short : bytes.length < 21 := ((ofBytes_eq_error_iff bytes error).1 parsed).1
      exact absurd long (Nat.not_le.2 short)
  | ok header => exact ⟨header, rfl, toBytes_of_ofBytes parsed⟩

/-- A header with the greatest counter in front of other bytes, a string of letters with more than
a header's worth of them, and one with a letter too few. -/
theorem codec_bijective_greatest_counter :
    let header : Header := ⟨0x83, 0xffffffff, Octets.zeros 8, Octets.zeros 8⟩
    header.toBytes.toList = [0x83, 0xff, 0xff, 0xff, 0xff] ++ List.replicate 16 0 ∧
      ofBytes (header.toBytes.toList ++ [1, 2, 3]) = .ok header ∧
      (∃ lettered : Header, ofBytes (List.replicate 24 0x41) = .ok lettered ∧
        lettered.toBytes.toList = List.replicate 21 0x41) ∧
      ofBytes (List.replicate 20 0x41) = .error .envelopeTooShort := by
  intro header
  obtain ⟨-, reads, long, short⟩ := codec_bijective
  have refused := (short (List.replicate 20 0x41) .envelopeTooShort).2 ⟨by decide, rfl⟩
  exact ⟨by decide, reads header [1, 2, 3], long (List.replicate 24 0x41) (by decide), refused⟩

/-- What of a header enters its nonce: flags, counter and half of the device hash, and no more. -/
theorem nonceOf_inj {flags otherFlags : UInt8} {deviceHash otherHash : ShortHash}
    {counter otherCounter : UInt32} :
    nonceOf flags deviceHash counter = nonceOf otherFlags otherHash otherCounter ↔
      flags = otherFlags ∧ deviceHash.toList.take 4 = otherHash.toList.take 4 ∧
        counter = otherCounter := by
  have halves : (List.replicate 4 0 ++ deviceHash.toList.take 4).length =
      (List.replicate 4 0 ++ otherHash.toList.take 4).length := by
    simp only [List.length_append, List.length_take, Vector.length_toList]
  have counters : bigEndian counterSize counter.toNat = bigEndian counterSize otherCounter.toNat ↔
      counter = otherCounter :=
    (bigEndian_inj counter.toNat_lt otherCounter.toNat_lt).trans UInt32.toNat_inj
  rw [← Vector.toList_inj, nonceOf, nonceOf, Octets.toList_ofBytes, Octets.toList_ofBytes,
    List.cons.injEq, List.append_eq_append_iff_of_size_eq_left halves, counters,
    List.append_cancel_left_eq]

end Header

/-! Which numbers name a suite, and which a method. -/

theorem Suite.ofId_of_lt {id : UInt8} (unknown : 4 < id.toNat) :
    ofId id = .error .unsupportedCipher := by
  have apart (known : UInt8) (small : known.toNat ≤ 4) : id ≠ known := by
    rintro rfl
    exact absurd small (Nat.not_le.2 unknown)
  rw [ofId, if_neg (apart 0 (by decide)), if_neg (apart 1 (by decide)),
    if_neg (apart 2 (by decide)), if_neg (apart 3 (by decide)), if_neg (apart 4 (by decide))]

theorem Suite.exists_ofId {id : UInt8} (known : id.toNat ≤ 4) :
    ∃ suite : Suite, ofId id = .ok suite := by
  have id_eq : id = UInt8.ofNat id.toNat := UInt8.ofNat_toNat.symm
  rw [id_eq]
  match id.toNat, known with
  | 0, _ => exact ⟨aes128Ccm, rfl⟩
  | 1, _ => exact ⟨aes128Gcm, rfl⟩
  | 2, _ => exact ⟨aes256Ccm, rfl⟩
  | 3, _ => exact ⟨aes256Gcm, rfl⟩
  | 4, _ => exact ⟨chaCha20Poly1305, rfl⟩

theorem Method.ofId_of_lt {id : UInt8} (unknown : 3 < id.toNat) :
    ofId id = .error .invalidMethod := by
  have apart (known : UInt8) (small : known.toNat ≤ 3) : id ≠ known := by
    rintro rfl
    exact absurd small (Nat.not_le.2 unknown)
  rw [ofId, if_neg (apart 0 (by decide)), if_neg (apart 1 (by decide)),
    if_neg (apart 2 (by decide)), if_neg (apart 3 (by decide))]

theorem Method.exists_ofId {id : UInt8} (known : id.toNat ≤ 3) :
    ∃ method : Method, ofId id = .ok method := by
  have id_eq : id = UInt8.ofNat id.toNat := UInt8.ofNat_toNat.symm
  rw [id_eq]
  match id.toNat, known with
  | 0, _ => exact ⟨push, rfl⟩
  | 1, _ => exact ⟨pull, rfl⟩
  | 2, _ => exact ⟨ping, rfl⟩
  | 3, _ => exact ⟨ack, rfl⟩

theorem Method.id_inj {method other : Method} : method.id = other.id ↔ method = other := by
  constructor
  · intro same
    have read := congrArg ofId same
    rw [ofId_id, ofId_id] at read
    exact Except.ok.inj read
  · intro same
    rw [same]

theorem Suite.supported_eq (suite : Suite) :
    suite.supported = decide (suite.id.toNat = 0) := by
  cases suite <;> rfl

namespace Flags

/-- The flags of an envelope that this side seals: its own suite, version zero. -/
theorem encode_aes128Ccm (method : Method) :
    encode ⟨.aes128Ccm, 0, method⟩ = .ok method.id := by
  cases method <;> rfl

theorem decode_id (method : Method) : decode method.id = .ok ⟨.aes128Ccm, 0, method⟩ := by
  cases method <;> rfl

theorem eq_of_fields_eq_zero (byte : UInt8) (version : (byte &&& versionMask) >>> versionShift = 0)
    (suite : (byte &&& suiteMask) >>> suiteShift = 0) : byte &&& methodMask = byte := by
  have check : ∀ bits : BitVec 8, (bits &&& 0x18) >>> 3 = 0 → (bits &&& 0xe0) >>> 5 = 0 →
      bits &&& 0x07 = bits := by
    decide +kernel
  apply UInt8.toBitVec_inj.1
  exact check byte.toBitVec (congrArg UInt8.toBitVec version) (congrArg UInt8.toBitVec suite)

theorem ofId_fields_of_decode {byte : UInt8} {flags : Flags} (decoded : decode byte = .ok flags) :
    Suite.ofId ((byte &&& suiteMask) >>> suiteShift) = .ok flags.suite ∧
      flags.version = (byte &&& versionMask) >>> versionShift ∧
      Method.ofId (byte &&& methodMask) = .ok flags.method := by
  unfold decode at decoded
  split at decoded
  · cases decoded
  · split at decoded
    · cases decoded
    · rename_i suite suite_found
      split at decoded
      · cases decoded
      · rename_i method method_found
        cases decoded
        exact ⟨suite_found, rfl, method_found⟩

/-- Of the bytes that name the supported suite and version zero, each is just its method. -/
theorem eq_id_of_decode {byte : UInt8} {flags : Flags} (decoded : decode byte = .ok flags)
    (version : flags.version = 0) (supported : flags.suite.supported = true) :
    byte = flags.method.id := by
  obtain ⟨suite_found, version_eq, method_found⟩ := ofId_fields_of_decode decoded
  have suite_eq : flags.suite = .aes128Ccm := by
    cases found : flags.suite with
    | aes128Ccm => rfl
    | _ => rw [found] at supported; cases supported
  have suite_zero : (byte &&& suiteMask) >>> suiteShift = 0 := by
    rw [← Suite.id_of_ofId suite_found, suite_eq]
    rfl
  have low := eq_of_fields_eq_zero byte (version_eq.symm.trans version) suite_zero
  rw [Method.id_of_ofId method_found, low]

/-! The three fields of the byte as numbers, and what each of them is refused for. -/

theorem toNat_suiteField (byte : UInt8) :
    ((byte &&& suiteMask) >>> suiteShift).toNat = byte.toNat / 32 := by
  have check : ∀ bits : BitVec 8, ((bits &&& 0xe0) >>> 5).toNat = bits.toNat / 32 := by
    decide +kernel
  exact check byte.toBitVec

theorem toNat_versionField (byte : UInt8) :
    ((byte &&& versionMask) >>> versionShift).toNat = byte.toNat / 8 % 4 := by
  have check : ∀ bits : BitVec 8, ((bits &&& 0x18) >>> 3).toNat = bits.toNat / 8 % 4 := by
    decide +kernel
  exact check byte.toBitVec

theorem toNat_methodField (byte : UInt8) : (byte &&& methodMask).toNat = byte.toNat % 8 := by
  have check : ∀ bits : BitVec 8, (bits &&& 0x07).toNat = bits.toNat % 8 := by
    decide +kernel
  exact check byte.toBitVec

theorem decode_of_unknown_suite {byte : UInt8} (plain : byte ≠ reserved)
    (unknown : 4 < byte.toNat / 32) : decode byte = .error .unsupportedCipher := by
  rw [← toNat_suiteField] at unknown
  simp only [decode, if_neg plain, Suite.ofId_of_lt unknown]

theorem decode_of_unknown_method {byte : UInt8} (plain : byte ≠ reserved)
    (suite_known : byte.toNat / 32 ≤ 4) (unknown : 3 < byte.toNat % 8) :
    decode byte = .error .invalidMethod := by
  rw [← toNat_suiteField] at suite_known
  rw [← toNat_methodField] at unknown
  obtain ⟨suite, suite_found⟩ := Suite.exists_ofId suite_known
  simp only [decode, if_neg plain, suite_found, Method.ofId_of_lt unknown]

theorem decode_of_fields {byte : UInt8} (plain : byte ≠ reserved)
    (suite_known : byte.toNat / 32 ≤ 4) (method_known : byte.toNat % 8 ≤ 3) :
    ∃ flags : Flags, decode byte = .ok flags ∧
      flags.suite.id.toNat = byte.toNat / 32 ∧
      flags.version.toNat = byte.toNat / 8 % 4 ∧
      flags.method.id.toNat = byte.toNat % 8 := by
  rw [← toNat_suiteField] at suite_known ⊢
  rw [← toNat_methodField] at method_known ⊢
  obtain ⟨suite, suite_found⟩ := Suite.exists_ofId suite_known
  obtain ⟨method, method_found⟩ := Method.exists_ofId method_known
  refine ⟨⟨suite, (byte &&& versionMask) >>> versionShift, method⟩, ?_, ?_, ?_, ?_⟩
  · simp only [decode, if_neg plain, suite_found, method_found]
  · rw [Suite.id_of_ofId suite_found]
  · exact toNat_versionField byte
  · rw [Method.id_of_ofId method_found]

/-- Reading the flags finds faults with what they name. -/
theorem mem_of_decode {byte : UInt8} {error : Error} (refused : decode byte = .error error) :
    error ∈ [.reservedFlagsValue, .unsupportedCipher, .invalidMethod] := by
  by_cases plain : byte = reserved
  · rw [decode, if_pos plain] at refused
    cases refused
    decide
  · rcases Nat.lt_or_ge 4 (byte.toNat / 32) with suite_unknown | suite_known
    · rw [decode_of_unknown_suite plain suite_unknown] at refused
      cases refused
      decide
    · rcases Nat.lt_or_ge 3 (byte.toNat % 8) with method_unknown | method_known
      · rw [decode_of_unknown_method plain suite_known method_unknown] at refused
        cases refused
        decide
      · obtain ⟨flags, decoded, -⟩ := decode_of_fields plain suite_known method_known
        rw [decoded] at refused
        cases refused

theorem decode_ne_decryptionFailed (byte : UInt8) :
    decode byte ≠ .error .decryptionFailed := fun refused =>
  absurd (mem_of_decode refused) (by decide)

theorem ne_reserved_of_decode {byte : UInt8} {flags : Flags} (decoded : decode byte = .ok flags) :
    byte ≠ reserved := by
  rintro rfl
  cases decoded

end Flags

end SealedFrame
