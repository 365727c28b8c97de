import SealedFrame.Bytes

namespace SealedFrame.Bytes

/-! Texts and the bytes of their UTF-8 code. A character of ASCII is a byte of its own, and none of
the bytes of another character is one of ASCII. -/

theorem ofText_eq_flatMap (text : String) :
    ofText text = text.toList.flatMap String.utf8EncodeChar := by
  have encoded : text.toUTF8 = text.toList.utf8Encode := String.utf8Encode_toList.symm
  rw [ofText, encoded, List.utf8Encode, List.toList_data_toByteArray]

theorem ofText_append (first second : String) :
    ofText (first ++ second) = ofText first ++ ofText second := by
  simp only [ofText_eq_flatMap, String.toList_append, List.flatMap_append]

/-! One character. -/

variable {character : Char}

theorem utf8EncodeChar_of_ascii (ascii : character.toNat < 128) :
    String.utf8EncodeChar character = [UInt8.ofNat character.toNat] := by
  change character.val.toNat < 128 at ascii
  simp only [String.utf8EncodeChar, if_pos (show character.val.toNat ≤ 127 by omega)]
  rfl

theorem ofUInt8_ofNat_toNat (ascii : character.toNat < 128) :
    Char.ofUInt8 (UInt8.ofNat character.toNat) = character := by
  apply Char.ext
  apply UInt32.toNat_inj.1
  change (UInt8.ofNat character.toNat).toUInt32.toNat = character.toNat
  rw [UInt8.toNat_toUInt32, UInt8.toNat_ofNat', Nat.mod_eq_of_lt (by omega)]

theorem le_toNat_of_mem_utf8EncodeChar {code : UInt8} (beyond : 128 ≤ character.toNat)
    (member : code ∈ String.utf8EncodeChar character) : 128 ≤ code.toNat := by
  change 128 ≤ character.val.toNat at beyond
  simp only [String.utf8EncodeChar, if_neg (show ¬character.val.toNat ≤ 127 by omega)] at member
  have marked {number : Nat} (low : 128 ≤ number) (high : number < 256) :
      128 ≤ (UInt8.ofNat number).toNat := by
    rwa [UInt8.toNat_ofNat', Nat.mod_eq_of_lt high]
  -- One case for each length of the code, from two bytes to four.
  split at member
  · simp only [List.mem_cons, List.not_mem_nil, or_false] at member
    rcases member with rfl | rfl <;> exact marked (by omega) (by omega)
  · split at member
    · simp only [List.mem_cons, List.not_mem_nil, or_false] at member
      rcases member with rfl | rfl | rfl <;> exact marked (by omega) (by omega)
    · simp only [List.mem_cons, List.not_mem_nil, or_false] at member
      rcases member with rfl | rfl | rfl | rfl <;> exact marked (by omega) (by omega)

/-- The first byte of a character already tells whether it is ASCII. -/
theorem exists_utf8EncodeChar_of_beyond (beyond : 128 ≤ character.toNat) :
    ∃ (first : UInt8) (rest : Bytes),
      String.utf8EncodeChar character = first :: rest ∧ 128 ≤ first.toNat := by
  obtain ⟨first, rest, code⟩ := List.exists_cons_of_ne_nil (@String.utf8EncodeChar_ne_nil character)
  have member : first ∈ String.utf8EncodeChar character := by
    rw [code]
    exact List.mem_cons_self
  exact ⟨first, rest, code, le_toNat_of_mem_utf8EncodeChar beyond member⟩

/-! Whole texts. -/

theorem toNat_lt_of_ascii {text : String} (ascii : ∀ code ∈ ofText text, code.toNat < 128) :
    ∀ character ∈ text.toList, character.toNat < 128 := by
  intro character occurs
  apply Nat.lt_of_not_le
  intro beyond
  obtain ⟨first, rest, code, high⟩ := exists_utf8EncodeChar_of_beyond beyond
  have member : first ∈ ofText text := by
    rw [ofText_eq_flatMap]
    exact List.mem_flatMap.2 ⟨character, occurs, code ▸ List.mem_cons_self⟩
  exact absurd (ascii first member) (Nat.not_lt.2 high)

/-- A text that is coded in ASCII alone has the characters of its bytes. -/
theorem toList_eq_map_ofUInt8 {text : String} (ascii : ∀ code ∈ ofText text, code.toNat < 128) :
    text.toList = (ofText text).map Char.ofUInt8 := by
  have each := toNat_lt_of_ascii ascii
  rw [ofText_eq_flatMap]
  generalize text.toList = characters at each
  induction characters with
  | nil => rfl
  | cons character rest induction =>
      obtain ⟨character_ascii, rest_ascii⟩ := List.forall_mem_cons.1 each
      rw [List.flatMap_cons, utf8EncodeChar_of_ascii character_ascii, List.map_append,
        ← induction rest_ascii, List.map_cons, ofUInt8_ofNat_toNat character_ascii]
      rfl

/-- Whether a text starts with a mark of ASCII characters can be told from its bytes. -/
theorem flatMap_prefix_iff {mark : List Char} (ascii : ∀ sign ∈ mark, sign.toNat < 128)
    (characters : List Char) :
    mark.flatMap String.utf8EncodeChar <+: characters.flatMap String.utf8EncodeChar ↔
      mark <+: characters := by
  induction mark generalizing characters with
  | nil => exact iff_of_true List.nil_prefix List.nil_prefix
  | cons sign mark induction =>
      obtain ⟨sign_ascii, mark_ascii⟩ := List.forall_mem_cons.1 ascii
      rw [List.flatMap_cons, utf8EncodeChar_of_ascii sign_ascii, List.singleton_append]
      cases characters with
      | nil => simp
      | cons character rest =>
          rw [List.flatMap_cons, List.cons_prefix_cons]
          rcases Nat.lt_or_ge character.toNat 128 with character_ascii | beyond
          · have same : UInt8.ofNat sign.toNat = UInt8.ofNat character.toNat ↔
                sign = character := by
              constructor
              · intro codes
                rw [← ofUInt8_ofNat_toNat sign_ascii, codes, ofUInt8_ofNat_toNat character_ascii]
              · rintro rfl
                rfl
            rw [utf8EncodeChar_of_ascii character_ascii, List.singleton_append,
              List.cons_prefix_cons, induction mark_ascii, same]
          · obtain ⟨first, more, code, high⟩ := exists_utf8EncodeChar_of_beyond beyond
            have other_code : UInt8.ofNat sign.toNat ≠ first := by
              rintro rfl
              rw [UInt8.toNat_ofNat'] at high
              omega
            have other : sign ≠ character := by
              rintro rfl
              omega
            rw [code, List.cons_append, List.cons_prefix_cons]
            exact iff_of_false (fun starts => other_code starts.1) (fun starts => other starts.1)

theorem ofText_prefix_iff {mark text : String} (ascii : ∀ sign ∈ mark.toList, sign.toNat < 128) :
    ofText mark <+: ofText text ↔ mark.toList <+: text.toList := by
  rw [ofText_eq_flatMap, ofText_eq_flatMap]
  exact flatMap_prefix_iff ascii text.toList

end SealedFrame.Bytes
