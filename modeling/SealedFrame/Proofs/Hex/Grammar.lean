import Mathlib.Data.List.GetD
import SealedFrame.Proofs.Hex
import SealedFrame.Proofs.Text

namespace SealedFrame.Hex

/-! Reading against the grammar of its texts: the sixteen digits in either case, two of them to a
byte, the first with sixteen times the weight of the second. -/

def lowerDigits : Bytes := Bytes.ofText "0123456789abcdef"

def upperDigits : Bytes := Bytes.ofText "0123456789ABCDEF"

def IsDigit (code : UInt8) : Prop :=
  code ∈ lowerDigits ∨ code ∈ upperDigits

instance (code : UInt8) : Decidable (IsDigit code) :=
  inferInstanceAs (Decidable (_ ∨ _))

/-- The number that a digit stands for, which is its place among the sixteen. -/
def digitPlace (code : UInt8) : Nat :=
  if code ∈ lowerDigits then lowerDigits.idxOf code else upperDigits.idxOf code

def OnlyDigits (codes : Bytes) : Prop :=
  ∀ code ∈ codes, IsDigit code

instance (codes : Bytes) : Decidable (OnlyDigits codes) :=
  List.decidableBAll IsDigit codes

def PairOfDigits (codes : Bytes) (index : Nat) : Prop :=
  IsDigit (codes.getD (2 * index) 0) ∧ IsDigit (codes.getD (2 * index + 1) 0)

/-- What the pairs of a text spell, one byte each. -/
def spelled (codes : Bytes) : Bytes :=
  (List.range (codes.length / 2)).map fun index =>
    UInt8.ofNat (16 * digitPlace (codes.getD (2 * index) 0) +
      digitPlace (codes.getD (2 * index + 1) 0))

/-! The digits. -/

theorem digitValue?_eq (code : UInt8) :
    digitValue? code =
      if IsDigit code then some (UInt8.ofNat (digitPlace code)) else none := by
  have check : ∀ bits : BitVec 8, digitValue? ⟨bits⟩ =
      if IsDigit ⟨bits⟩ then some (UInt8.ofNat (digitPlace ⟨bits⟩)) else none := by
    decide +kernel
  exact check code.toBitVec

theorem isSome_digitValue?_iff (code : UInt8) :
    (digitValue? code).isSome = true ↔ IsDigit code := by
  rw [digitValue?_eq]
  split
  · rename_i digit
    exact iff_of_true rfl digit
  · rename_i other
    exact iff_of_false nofun other

theorem digitPlace_lt {code : UInt8} (digit : IsDigit code) : digitPlace code < 16 := by
  unfold digitPlace
  split
  · rename_i lower
    exact List.idxOf_lt_length_of_mem lower
  · rename_i other
    exact List.idxOf_lt_length_of_mem (digit.resolve_left other)

/-- Every digit is ASCII. -/
theorem toNat_lt_of_isDigit {code : UInt8} (digit : IsDigit code) : code.toNat < 128 := by
  have check : ∀ code ∈ lowerDigits ++ upperDigits, code.toNat < 128 := by
    decide +kernel
  exact check code (List.mem_append.2 digit)

/-- The two halves of a byte, put side by side or added with their weights. -/
theorem shiftLeft_or_eq {high low : Nat} (high_lt : high < 16) (low_lt : low < 16) :
    UInt8.ofNat high <<< 4 ||| UInt8.ofNat low = UInt8.ofNat (16 * high + low) := by
  have check : ∀ high < 16, ∀ low < 16,
      UInt8.ofNat high <<< 4 ||| UInt8.ofNat low = UInt8.ofNat (16 * high + low) := by
    decide +kernel
  exact check high high_lt low low_lt

/-! A text of digits, pair after pair. -/

variable {codes bytes : Bytes} {index : Nat}

@[simp] theorem length_spelled (codes : Bytes) : (spelled codes).length = codes.length / 2 := by
  simp [spelled]

theorem spelled_cons_cons (high low : UInt8) (rest : Bytes) :
    spelled (high :: low :: rest) =
      UInt8.ofNat (16 * digitPlace high + digitPlace low) :: spelled rest := by
  have count : (high :: low :: rest).length / 2 = rest.length / 2 + 1 := by
    rw [List.length_cons, List.length_cons]
    omega
  rw [spelled, count, List.range_succ_eq_map, List.map_cons, List.map_map]
  rfl

theorem onlyDigits_cons_cons {high low : UInt8} {rest : Bytes} :
    OnlyDigits (high :: low :: rest) ↔ (IsDigit high ∧ IsDigit low) ∧ OnlyDigits rest := by
  simp only [OnlyDigits, List.forall_mem_cons, and_assoc]

theorem writePairs_cons_cons (count : Nat) (high low : UInt8) (rest : Bytes) (index : Nat)
    (buffer : Array UInt8) :
    writePairs count (high :: low :: rest) index buffer =
      if IsDigit high ∧ IsDigit low then
        writePairs count rest (index + 1) (buffer.setIfInBounds index
          (UInt8.ofNat (16 * digitPlace high + digitPlace low)))
      else .reject .invalidHex (Bytes.wipeFront buffer.toList index) := by
  have high_eq := digitValue?_eq high
  have low_eq := digitValue?_eq low
  by_cases high_digit : IsDigit high
  · rw [if_pos high_digit] at high_eq
    by_cases low_digit : IsDigit low
    · rw [if_pos low_digit] at low_eq
      rw [if_pos ⟨high_digit, low_digit⟩, ← shiftLeft_or_eq (digitPlace_lt high_digit)
        (digitPlace_lt low_digit)]
      simp only [writePairs, high_eq, low_eq]
    · rw [if_neg low_digit] at low_eq
      simp only [writePairs, high_eq, low_eq, if_neg fun pair => low_digit (And.right pair)]
  · rw [if_neg high_digit] at high_eq
    simp only [writePairs, high_eq, if_neg fun pair => high_digit (And.left pair)]

theorem firstBadPair_cons_cons_eq (high low : UInt8) (rest : Bytes) :
    firstBadPair (high :: low :: rest) =
      if IsDigit high ∧ IsDigit low then firstBadPair rest + 1 else 0 := by
  rw [firstBadPair_cons_cons]
  simp only [Bool.and_eq_true, isSome_digitValue?_iff]

theorem even_cons_cons {rest : Bytes} (high low : UInt8) (even : rest.length % 2 = 0) :
    (high :: low :: rest).length % 2 = 0 := by
  rw [List.length_cons, List.length_cons]
  omega

/-- A string of whole pairs is empty, or a pair in front of another such string. -/
theorem pairwise {motive : (codes : Bytes) → codes.length % 2 = 0 → Prop}
    (empty : motive [] rfl)
    (pair : ∀ (high low : UInt8) (rest : Bytes) (even : rest.length % 2 = 0),
      motive rest even → motive (high :: low :: rest) (even_cons_cons high low even))
    (codes : Bytes) (even : codes.length % 2 = 0) : motive codes even := by
  match codes, even with
  | [], _ => exact empty
  | [_], even => exact absurd even (by simp)
  | high :: low :: rest, even =>
      have rest_even : rest.length % 2 = 0 := by
        rw [List.length_cons, List.length_cons] at even
        omega
      exact pair high low rest rest_even (pairwise empty pair rest rest_even)

/-- A write at the border between what is written and what is not moves the border by one. -/
theorem toList_setIfInBounds_border {buffer : Array UInt8} {before after : Bytes} {old : UInt8}
    (bordered : buffer.toList = before ++ old :: after) (new : UInt8) :
    (buffer.setIfInBounds before.length new).toList = (before ++ [new]) ++ after := by
  rw [Array.toList_setIfInBounds, bordered, List.set_append_right _ _ (Nat.le_refl _),
    Nat.sub_self, List.set_cons_zero, List.append_assoc, List.singleton_append]

/-- Reading spells out a text of digits behind what stands written, and at the first bad pair of any
other wipes all of it. -/
theorem writePairs_eq (count : Nat) (codes : Bytes) (even : codes.length % 2 = 0)
    {buffer : Array UInt8} {before after : Bytes} (bordered : buffer.toList = before ++ after)
    (room : codes.length / 2 ≤ after.length) :
    writePairs count codes before.length buffer =
      if OnlyDigits codes then .accept count (before ++ after.overwriteFront (spelled codes))
      else .reject .invalidHex (List.replicate (before.length + firstBadPair codes) 0 ++
        after.drop (firstBadPair codes)) := by
  induction codes, even using pairwise generalizing buffer before after with
  | empty => exact congrArg (Written.accept count) bordered
  | pair high low rest even induction =>
      rw [writePairs_cons_cons, firstBadPair_cons_cons_eq, spelled_cons_cons]
      cases after with
      | nil => exact absurd room (by simp)
      | cons old after =>
          by_cases pair : IsDigit high ∧ IsDigit low
          · have rest_room : rest.length / 2 ≤ after.length := by
              simp only [List.length_cons] at room
              omega
            have later := induction (toList_setIfInBounds_border bordered
              (UInt8.ofNat (16 * digitPlace high + digitPlace low))) rest_room
            rw [List.length_append, List.length_singleton] at later
            rw [if_pos pair, if_pos pair, later]
            by_cases digits : OnlyDigits rest
            · rw [if_pos digits, if_pos (onlyDigits_cons_cons.2 ⟨pair, digits⟩), List.append_assoc]
              rfl
            · rw [if_neg digits, if_neg fun all => digits (onlyDigits_cons_cons.1 all).2,
                Nat.add_assoc, Nat.add_comm 1]
              rfl
          · rw [if_neg pair, if_neg pair, if_neg fun all => pair (onlyDigits_cons_cons.1 all).1,
              bordered, Bytes.wipeFront_eq, List.drop_left]
            rfl

theorem toNat_getD_spelled (digits : OnlyDigits codes)
    (bound : index < codes.length / 2) :
    ((spelled codes).getD index 0).toNat =
      16 * digitPlace (codes.getD (2 * index) 0) +
        digitPlace (codes.getD (2 * index + 1) 0) := by
  have place_lt {position : Nat} (inside : position < codes.length) :
      digitPlace (codes.getD position 0) < 16 := by
    rw [List.getD_eq_getElem _ _ inside]
    exact digitPlace_lt (digits _ (List.getElem_mem inside))
  have high_lt := place_lt (show 2 * index < codes.length by omega)
  have low_lt := place_lt (show 2 * index + 1 < codes.length by omega)
  rw [spelled, List.getD_eq_getElem?_getD, List.getElem?_map, List.getElem?_range bound,
    Option.map_some, Option.getD_some, UInt8.toNat_ofNat']
  omega

/-! The pair that a reader stops at. -/

theorem isPair_iff (bound : index < codes.length / 2) :
    isPair codes index = true ↔ PairOfDigits codes index := by
  have high_inside : 2 * index < codes.length := by omega
  have low_inside : 2 * index + 1 < codes.length := by omega
  rw [isPair, PairOfDigits, List.drop_eq_getElem_cons high_inside,
    List.drop_eq_getElem_cons low_inside, List.getD_eq_getElem _ _ high_inside,
    List.getD_eq_getElem _ _ low_inside]
  simp only [List.take_succ_cons, List.take_zero, List.all_cons, List.all_nil, Bool.and_true,
    Bool.and_eq_true, isSome_digitValue?_iff]

/-- In a text of whole pairs every code stands in one of them. -/
theorem exists_bad_pair (even : codes.length % 2 = 0) (bad : ∃ code ∈ codes, ¬IsDigit code) :
    ∃ index < codes.length / 2, ¬PairOfDigits codes index := by
  obtain ⟨code, member, other⟩ := bad
  obtain ⟨position, inside, rfl⟩ := List.mem_iff_getElem.1 member
  rw [← List.getD_eq_getElem codes 0 inside] at other
  refine ⟨position / 2, by omega, fun pair => ?_⟩
  rcases Nat.mod_two_eq_zero_or_one position with first | second
  · have place : 2 * (position / 2) = position := by omega
    exact other (place ▸ pair.1)
  · have place : 2 * (position / 2) + 1 = position := by omega
    exact other (place ▸ pair.2)

theorem firstBadPair_stops (even : codes.length % 2 = 0) (bad : ∃ code ∈ codes, ¬IsDigit code) :
    firstBadPair codes < codes.length / 2 ∧ ¬PairOfDigits codes (firstBadPair codes) ∧
      ∀ earlier < firstBadPair codes, PairOfDigits codes earlier := by
  obtain ⟨index, bound, unpaired⟩ := exists_bad_pair even bad
  have inside : firstBadPair codes < (List.range (codes.length / 2)).length :=
    List.findIdx_lt_length.2 ⟨index, List.mem_range.2 bound, by
      rw [Bool.not_eq_true', Bool.eq_false_iff]
      exact mt (isPair_iff bound).1 unpaired⟩
  obtain ⟨stopped, passed⟩ := (List.findIdx_eq inside).1 rfl
  simp only [List.getElem_range, Bool.not_eq_true', Bool.eq_false_iff] at stopped
  simp only [List.getElem_range, Bool.not_eq_false'] at passed
  rw [List.length_range] at inside
  refine ⟨inside, mt (isPair_iff inside).2 stopped, fun earlier before => ?_⟩
  exact (isPair_iff (Nat.lt_trans before inside)).1 (passed earlier before)

/-! Characters outside ASCII. None of their bytes is a digit. -/

theorem mem_ofText_of_mem {text : String} {character : Char} {code : UInt8}
    (occurs : character ∈ text.toList) (beyond : 128 ≤ character.toNat)
    (member : code ∈ String.utf8EncodeChar character) :
    code ∈ Bytes.ofText text ∧ ¬IsDigit code := by
  constructor
  · rw [Bytes.ofText_eq_flatMap]
    exact List.mem_flatMap.2 ⟨character, occurs, member⟩
  · intro digit
    exact Nat.not_lt.2 (Bytes.le_toNat_of_mem_utf8EncodeChar beyond member)
      (toNat_lt_of_isDigit digit)

/-! All that reading can do. -/

theorem decodeInto_of_even {text : String} (even : (Bytes.ofText text).length % 2 = 0)
    (buffer : Bytes) :
    let codes := Bytes.ofText text
    decodeInto text buffer =
      if buffer.length < codes.length / 2 then .reject .bufferTooSmall buffer
      else if OnlyDigits codes then
        .accept (codes.length / 2) (buffer.overwriteFront (spelled codes))
      else .reject .invalidHex (buffer.wipeFront (firstBadPair codes)) := by
  intro codes
  have not_odd : ¬codes.length % 2 ≠ 0 := Decidable.not_not.2 even
  rw [decodeInto, if_neg not_odd]
  by_cases small : buffer.length < codes.length / 2
  · rw [if_pos small, if_pos small]
  · rw [if_neg small, if_neg small]
    have bordered : buffer.toArray.toList = [] ++ buffer := rfl
    have read := writePairs_eq (codes.length / 2) codes even bordered (Nat.not_lt.1 small)
    rw [List.nil_append, List.length_nil, Nat.zero_add, ← Bytes.wipeFront_eq] at read
    exact read

theorem decodeInto_eq_guarded (text : String) (buffer : Bytes) :
    let codes := Bytes.ofText text
    decodeInto text buffer =
      .guarded [(codes.length % 2 = 1, .invalidHex),
          (buffer.length < codes.length / 2, .bufferTooSmall)] buffer
        (if OnlyDigits codes then
          .accept (codes.length / 2) (spelled codes ++ buffer.drop (codes.length / 2))
        else .reject .invalidHex (List.replicate (firstBadPair codes) 0 ++
          buffer.drop (firstBadPair codes))) := by
  intro codes
  rw [Written.guarded_cons]
  rcases Nat.mod_two_eq_zero_or_one codes.length with even | odd
  · have written : buffer.overwriteFront (spelled codes) =
        spelled codes ++ buffer.drop (codes.length / 2) := by
      rw [Bytes.overwriteFront, length_spelled]
    have not_odd : ¬codes.length % 2 = 1 := by omega
    rw [if_neg not_odd, decodeInto_of_even even, Written.guarded_cons, Written.guarded_nil,
      ← written, ← Bytes.wipeFront_eq]
  · have uneven : codes.length % 2 ≠ 0 := by omega
    rw [if_pos odd, decodeInto, if_pos uneven]

theorem decodeInto_decision (text : String) (buffer : Bytes) :
    let codes := Bytes.ofText text
    let count := codes.length / 2
    let stopped := firstBadPair codes
    decodeInto text buffer =
        .guarded [(codes.length % 2 = 1, .invalidHex),
            (buffer.length < count, .bufferTooSmall)] buffer
          (if OnlyDigits codes then
            .accept count (spelled codes ++ buffer.drop count)
          else .reject .invalidHex (List.replicate stopped 0 ++ buffer.drop stopped)) ∧
      (spelled codes).length = count ∧
      (OnlyDigits codes → ∀ index < count,
        ((spelled codes).getD index 0).toNat =
          16 * digitPlace (codes.getD (2 * index) 0) +
            digitPlace (codes.getD (2 * index + 1) 0)) ∧
      (codes.length % 2 = 0 → (∃ code ∈ codes, ¬IsDigit code) →
        stopped < count ∧ ¬PairOfDigits codes stopped ∧
          ∀ earlier < stopped, PairOfDigits codes earlier) ∧
      ∀ character ∈ text.toList, 128 ≤ character.toNat →
        ∀ code ∈ String.utf8EncodeChar character, code ∈ codes ∧ ¬IsDigit code := by
  intro codes count stopped
  refine ⟨decodeInto_eq_guarded text buffer, length_spelled codes, ?_, ?_, ?_⟩
  · intro digits index bound
    exact toNat_getD_spelled digits bound
  · intro even bad
    exact firstBadPair_stops even bad
  · intro character occurs beyond code member
    exact mem_ofText_of_mem occurs beyond member

/-- Digits of either case, and behind them a character of two bytes where the third pair would
stand. -/
theorem decodeInto_decision_beyond_ascii :
    decodeInto "aB9f" [1, 2, 3] = .accept 2 [0xab, 0x9f, 3] ∧
      decodeInto "aB9f\u00e9" [1, 2, 3, 4] = .reject .invalidHex [0, 0, 3, 4] ∧
      ((spelled (Bytes.ofText "aB9f")).getD 1 0).toNat = 16 * 9 + 15 ∧
      firstBadPair (Bytes.ofText "aB9f\u00e9") < 3 ∧ ¬IsDigit 0xa9 := by
  obtain ⟨read, -, spells, -, -⟩ := decodeInto_decision "aB9f" [1, 2, 3]
  obtain ⟨refused, -, -, stops, beyond⟩ := decodeInto_decision "aB9f\u00e9" [1, 2, 3, 4]
  obtain ⟨member, other⟩ := beyond (Char.ofNat 0xe9) (by decide +kernel) (by decide) 0xa9
    (by decide +kernel)
  exact ⟨read.trans rfl, refused.trans rfl, spells (by decide +kernel) 1 (by decide +kernel),
    (stops (by decide +kernel) ⟨_, member, other⟩).1, other⟩

end SealedFrame.Hex
