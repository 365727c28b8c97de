import SealedFrame.Derivation
import SealedFrame.Proofs.Hmac.History
import SealedFrame.Proofs.Text

namespace SealedFrame.Derivation

/-! What a token and a serial number are made into, by the standards for both hashes. The mark of a
token plays no part in it, unless it is there twice. -/

def Marked (token : String) : Prop :=
  ['a', 't'] <+: token.toList

/-- The token without its mark. A second mark, behind the first, stays. -/
def unmarked (token : String) : String :=
  match token.toList with
  | 'a' :: 't' :: rest => String.ofList rest
  | _ => token

/-! The mark. -/

variable {token : String}

theorem exists_append_of_marked (marked : Marked token) :
    ∃ text : String, token = "at" ++ text := by
  obtain ⟨rest, characters⟩ := marked
  refine ⟨String.ofList rest, String.toList_inj.1 ?_⟩
  rw [String.toList_append, @String.toList_ofList rest]
  exact characters.symm

theorem unmarked_append (text : String) : unmarked ("at" ++ text) = text := by
  have characters : ("at" ++ text).toList = 'a' :: 't' :: text.toList := String.toList_append
  rw [unmarked, characters]
  exact String.ofList_toList

theorem unmarked_of_not_marked (plain : ¬Marked token) : unmarked token = token := by
  unfold unmarked
  split
  · rename_i rest characters
    exact absurd ⟨rest, characters.symm⟩ plain
  · rfl

/-- The bytes that are hashed are those of the token without its mark. -/
theorem tokenBytes_eq (token : String) : tokenBytes token = Bytes.ofText (unmarked token) := by
  have ascii : ∀ sign ∈ tokenMark.toList, sign.toNat < 128 := by simp [tokenMark]
  by_cases marked : Marked token
  · obtain ⟨text, rfl⟩ := exists_append_of_marked marked
    have starts : (Bytes.ofText tokenMark).isPrefixOf (Bytes.ofText ("at" ++ text)) = true :=
      List.isPrefixOf_iff_prefix.2 ((Bytes.ofText_prefix_iff ascii).2 marked)
    have bytes : Bytes.ofText ("at" ++ text) = Bytes.ofText tokenMark ++ Bytes.ofText text :=
      Bytes.ofText_append "at" text
    calc
      tokenBytes ("at" ++ text) =
          (Bytes.ofText ("at" ++ text)).drop (Bytes.ofText tokenMark).length := by
        simp only [tokenBytes, if_pos starts]
      _ = Bytes.ofText (unmarked ("at" ++ text)) := by
        rw [bytes, List.drop_left, unmarked_append]
  · have starts : ¬(Bytes.ofText tokenMark).isPrefixOf (Bytes.ofText token) = true := fun found =>
      marked ((Bytes.ofText_prefix_iff ascii).1 (List.isPrefixOf_iff_prefix.1 found))
    rw [unmarked_of_not_marked marked]
    exact if_neg starts

theorem tokenBytes_append (text : String) : tokenBytes ("at" ++ text) = Bytes.ofText text := by
  rw [tokenBytes_eq, unmarked_append]

theorem tokenBytes_append_of_not_marked (plain : ¬Marked token) :
    tokenBytes ("at" ++ token) = tokenBytes token := by
  rw [tokenBytes_append, tokenBytes_eq, unmarked_of_not_marked plain]

/-! The short hashes. -/

theorem toList_deviceHash (serial : String) :
    (deviceHash serial).toList =
      (Sha256.Standard.hash (Bytes.ofText serial)).toList.take 8 := by
  rw [deviceHash, Octets.toList_first, Sha256.hash_eq_standard]

theorem authHash_append (text : String) : authHash ("at" ++ text) = deviceHash text := by
  rw [authHash, tokenBytes_append, deviceHash]

/-! The keys. -/

theorem keyMaterial_eq (token serial : String) :
    keyMaterial token serial =
      Hmac.Standard.mac Sha256.Standard.hash (Bytes.ofText (unmarked token))
        (Bytes.ofText serial) := by
  rw [keyMaterial, Hmac.mac_eq_standard, tokenBytes_eq]

theorem keyInto_eq (token serial : String) (buffer : Bytes) :
    keyInto token serial buffer =
      if buffer.length > 32 then .reject .invalidKeySize buffer
      else .accept () ((keyMaterial token serial).toList.take buffer.length) := by
  by_cases large : buffer.length > 32
  · rw [if_pos large]
    exact if_pos large
  · have length : ((keyMaterial token serial).toList.take buffer.length).length =
        buffer.length := by
      rw [List.length_take, Vector.length_toList]
      exact Nat.min_eq_left (Nat.not_lt.1 large)
    have filled : buffer.overwriteFront ((keyMaterial token serial).toList.take buffer.length) =
        (keyMaterial token serial).toList.take buffer.length := by
      rw [Bytes.overwriteFront, length, List.drop_length, List.append_nil]
    have fits : ¬buffer.length > maxKeySize := large
    rw [if_neg large, keyInto, if_neg fits, filled]

theorem buffer_keyInto {buffer : Bytes} (fits : buffer.length ≤ 32) (token serial : String) :
    (keyInto token serial buffer).buffer =
      (keyMaterial token serial).toList.take buffer.length := by
  rw [keyInto_eq, if_neg (Nat.not_lt.2 fits), Written.buffer_accept]

theorem derives_from_unmarked_token (token serial : String) :
    unmarked ("at" ++ token) = token ∧
      (¬Marked token → unmarked token = token) ∧
      (∀ buffer : Bytes,
        keyInto token serial buffer =
          if buffer.length > 32 then .reject .invalidKeySize buffer
          else
            .accept ()
              ((Hmac.Standard.mac Sha256.Standard.hash (Bytes.ofText (unmarked token))
                (Bytes.ofText serial)).toList.take buffer.length)) ∧
      (∀ buffer : Bytes, buffer.length = 16 →
        keyInto token serial buffer = .accept () (key token serial).octets.toList) ∧
      (∀ short long : Bytes, short.length ≤ long.length → long.length ≤ 32 →
        (keyInto token serial short).buffer <+: (keyInto token serial long).buffer) ∧
      authHash ("at" ++ token) = deviceHash token ∧
      (deviceHash token).toList = (Sha256.Standard.hash (Bytes.ofText token)).toList.take 8 ∧
      (¬Marked token →
        authHash ("at" ++ token) = authHash token ∧
          key ("at" ++ token) serial = key token serial ∧
          ∀ buffer : Bytes,
            keyInto ("at" ++ token) serial buffer = keyInto token serial buffer) := by
  refine ⟨unmarked_append token, unmarked_of_not_marked, ?_, ?_, ?_, authHash_append token,
    toList_deviceHash token, ?_⟩
  · intro buffer
    rw [keyInto_eq, keyMaterial_eq]
  · intro buffer length
    rw [keyInto_eq, length]
    rfl
  · intro short long shorter fits
    rw [buffer_keyInto (Nat.le_trans shorter fits), buffer_keyInto fits]
    exact List.take_prefix_take_left shorter
  · intro plain
    have same := tokenBytes_append_of_not_marked plain
    have material_eq : keyMaterial ("at" ++ token) serial = keyMaterial token serial := by
      rw [keyMaterial, keyMaterial, same]
    refine ⟨?_, ?_, fun buffer => ?_⟩
    · rw [authHash, authHash, same]
    · rw [key, key, material_eq]
    · rw [keyInto_eq, keyInto_eq, material_eq]

/-- A mark in front of half a mark, and a token that first gets its mark. -/
theorem derives_from_unmarked_token_ata :
    let short : Bytes := List.replicate 16 7
    let long : Bytes := List.replicate 32 7
    unmarked "ata" = "a" ∧ unmarked "ta" = "ta" ∧
      keyInto "ta" "dev-7" short = .accept () (key "ta" "dev-7").octets.toList ∧
      (keyInto "ta" "dev-7" short).buffer <+: (keyInto "ta" "dev-7" long).buffer ∧
      authHash "atta" = authHash "ta" ∧ key "atta" "dev-7" = key "ta" "dev-7" ∧
      keyInto "atta" "dev-7" long = keyInto "ta" "dev-7" long := by
  intro short long
  have plain : ¬Marked "ta" := by
    rw [Marked]
    decide
  obtain ⟨stripped, -⟩ := derives_from_unmarked_token "a" "dev-7"
  obtain ⟨-, kept, -, sized, longer, -, -, alike⟩ := derives_from_unmarked_token "ta" "dev-7"
  obtain ⟨hashes, keys, buffers⟩ := alike plain
  exact ⟨stripped, kept plain, sized short (by decide), longer short long (by decide) (by decide),
    hashes, keys, buffers long⟩

end SealedFrame.Derivation
