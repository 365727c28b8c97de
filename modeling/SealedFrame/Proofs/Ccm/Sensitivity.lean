import SealedFrame.Proofs.Aes.Inverse
import SealedFrame.Proofs.Ccm.Formatting

namespace SealedFrame

/-! A change in one block of what the chain is fed reaches its end: the cipher maps the two links
behind that block to different links, and every later step keeps them different. -/

/-- Two sequences that differ in one place. -/
inductive DifferOnce {α : Type} : List α → List α → Prop
  | here {first second : α} (different : first ≠ second) (behind : List α) :
      DifferOnce (first :: behind) (second :: behind)
  | there (head : α) {left right : List α} (rest : DifferOnce left right) :
      DifferOnce (head :: left) (head :: right)

namespace DifferOnce

variable {α : Type} {left right : List α}

theorem append_left (front : List α) (differ : DifferOnce left right) :
    DifferOnce (front ++ left) (front ++ right) := by
  induction front with
  | nil => exact differ
  | cons head front induction => exact .there head induction

theorem append_right (differ : DifferOnce left right) (behind : List α) :
    DifferOnce (left ++ behind) (right ++ behind) := by
  induction differ with
  | here different rest => exact .here different (rest ++ behind)
  | there head rest induction => exact .there head induction

theorem of_existsUnique (length : left.length = right.length)
    (unique : ∃! index : Nat, left[index]? ≠ right[index]?) : DifferOnce left right := by
  induction left generalizing right with
  | nil =>
      obtain ⟨index, different, -⟩ := unique
      obtain rfl := List.length_eq_zero_iff.1 length.symm
      exact absurd rfl different
  | cons first left induction =>
      cases right with
      | nil => cases length
      | cons second right =>
          obtain ⟨index, different, only⟩ := unique
          cases index with
          | zero =>
              -- Behind the place no index is left to differ at.
              have rest : left = right := by
                apply List.ext_getElem?
                intro later
                by_contra apart
                exact Nat.succ_ne_zero later (only (later + 1) apart)
              subst rest
              exact .here (fun same => different (congrArg some same)) left
          | succ index =>
              have same : first = second := by
                by_contra apart
                exact Nat.succ_ne_zero index
                  (only 0 fun found => apart (Option.some.inj found)).symm
              subst same
              apply DifferOnce.there
              apply induction (Nat.succ.inj length)
              refine ⟨index, different, ?_⟩
              intro later apart
              exact Nat.succ.inj (only (later + 1) apart)

end DifferOnce

namespace Octets

variable {size : Nat}

theorem xor_left_injective (mask : Octets size) :
    Function.Injective fun octets : Octets size => octets.xor mask :=
  Function.Involutive.injective fun octets => xor_xor_cancel octets mask

theorem xor_comm (left right : Octets size) : left.xor right = right.xor left := by
  apply Vector.ext
  intro index bound
  simp only [Octets.xor, Vector.getElem_zipWith]
  exact UInt8.xor_comm _ _

theorem xor_right_injective (octets : Octets size) : Function.Injective octets.xor := by
  intro mask other same
  rw [xor_comm octets, xor_comm octets] at same
  exact xor_left_injective octets same

end Octets

namespace Ccm

/-! The chain. -/

def link (cipher : Block → Block) (before block : Block) : Block :=
  cipher (before.xor block)

variable {cipher : Block → Block}

theorem foldl_link_injective (injective : Function.Injective cipher) (blocks : List Block) :
    Function.Injective fun start => blocks.foldl (link cipher) start := by
  induction blocks with
  | nil => exact Function.injective_id
  | cons block blocks induction =>
      intro start other same
      exact Octets.xor_left_injective block (injective (induction same))

theorem foldl_link_ne_of_differOnce (injective : Function.Injective cipher)
    {blocks others : List Block} (differ : DifferOnce blocks others) (start : Block) :
    blocks.foldl (link cipher) start ≠ others.foldl (link cipher) start := by
  induction differ generalizing start with
  | here different behind =>
      intro same
      apply different
      exact Octets.xor_right_injective start
        (injective (foldl_link_injective injective behind same))
  | there head rest induction => exact induction (link cipher start head)

theorem chain_ne_of_differOnce (injective : Function.Injective cipher)
    {blocks others : List Block} (differ : DifferOnce blocks others) :
    chain cipher blocks ≠ chain cipher others :=
  foldl_link_ne_of_differOnce injective differ (Octets.zeros 16)

/-! A string changed within one of its pieces of sixteen bytes. -/

theorem payloadBlocks_of_ne_nil {payload : Bytes} (nonempty : payload ≠ []) :
    payloadBlocks payload = Octets.padded 16 payload :: payloadBlocks (payload.drop 16) := by
  rw [← Standard.blocks_fill, Standard.blocks_fill_of_ne_nil nonempty, Standard.blocks_fill]

theorem ne_nil_of_ne {bytes other : Bytes} (length : bytes.length = other.length)
    (different : bytes ≠ other) : bytes ≠ [] := by
  rintro rfl
  exact different (List.length_eq_zero_iff.1 length.symm).symm

/-- Two strings of one length that agree outside the piece with the given number. -/
structure AgreeOutside (piece : Nat) (bytes other : Bytes) : Prop where
  length : bytes.length = other.length
  outside : ∀ position : Nat, position / 16 ≠ piece → bytes[position]? = other[position]?

namespace AgreeOutside

variable {piece : Nat} {bytes other : Bytes}

theorem drop_eq (agree : AgreeOutside 0 bytes other) : bytes.drop 16 = other.drop 16 := by
  apply List.ext_getElem?
  intro position
  rw [List.getElem?_drop, List.getElem?_drop]
  apply agree.outside
  omega

theorem take_eq (agree : AgreeOutside (piece + 1) bytes other) :
    bytes.take 16 = other.take 16 := by
  apply List.ext_getElem?
  intro position
  rw [List.getElem?_take, List.getElem?_take]
  split
  · apply agree.outside
    omega
  · rfl

theorem drop (agree : AgreeOutside (piece + 1) bytes other) :
    AgreeOutside piece (bytes.drop 16) (other.drop 16) where
  length := by rw [List.length_drop, List.length_drop, agree.length]
  outside position apart := by
    rw [List.getElem?_drop, List.getElem?_drop]
    apply agree.outside
    omega

theorem take_eq_of_padded_eq (agree : AgreeOutside piece bytes other)
    (same : Octets.padded 16 bytes = Octets.padded 16 other) :
    bytes.take 16 = other.take 16 := by
  have lists := congrArg Vector.toList same
  rw [Octets.toList_padded, Octets.toList_padded, agree.length] at lists
  exact List.append_cancel_right lists

end AgreeOutside

theorem differOnce_payloadBlocks {piece : Nat} {bytes other : Bytes}
    (agree : AgreeOutside piece bytes other) (different : bytes ≠ other) :
    DifferOnce (payloadBlocks bytes) (payloadBlocks other) := by
  have nonempty := ne_nil_of_ne agree.length different
  have other_nonempty := ne_nil_of_ne agree.length.symm different.symm
  rw [payloadBlocks_of_ne_nil nonempty, payloadBlocks_of_ne_nil other_nonempty]
  induction piece generalizing bytes other with
  | zero =>
      rw [agree.drop_eq]
      apply DifferOnce.here
      intro same
      apply different
      rw [← List.take_append_drop 16 bytes, agree.take_eq_of_padded_eq same, agree.drop_eq,
        List.take_append_drop]
  | succ piece induction =>
      have rest : bytes.drop 16 ≠ other.drop 16 := by
        intro same
        apply different
        rw [← List.take_append_drop 16 bytes, agree.take_eq, same, List.take_append_drop]
      have rest_nonempty := ne_nil_of_ne agree.drop.length rest
      have other_rest_nonempty := ne_nil_of_ne agree.drop.length.symm rest.symm
      rw [← Octets.padded_take bytes, agree.take_eq, Octets.padded_take,
        payloadBlocks_of_ne_nil rest_nonempty, payloadBlocks_of_ne_nil other_rest_nonempty]
      exact .there _ (induction agree.drop rest rest_nonempty other_rest_nonempty)

/-! The blocks of a call. -/

theorem associatedBlocks_of_ne_nil {associated : Bytes} (nonempty : associated ≠ []) :
    associatedBlocks associated =
      payloadBlocks (bigEndian 2 associated.length ++ associated) := by
  rw [← Standard.blocks_fill_associated nonempty, Standard.blocks_fill]

variable (nonce : Nonce) {associated otherAssociated payload otherPayload : Bytes} {piece : Nat}

theorem differOnce_macBlocks_payload (associated : Bytes)
    (agree : AgreeOutside piece payload otherPayload) (different : payload ≠ otherPayload) :
    DifferOnce (macBlocks nonce associated payload)
      (macBlocks nonce associated otherPayload) := by
  have first : firstBlock nonce associated payload = firstBlock nonce associated otherPayload := by
    rw [← Vector.toList_inj, Standard.toList_firstBlock, Standard.toList_firstBlock, agree.length]
  rw [macBlocks, macBlocks, first]
  apply DifferOnce.there
  apply DifferOnce.append_left
  exact differOnce_payloadBlocks agree different

/-- The length in front of associated data shifts it by two bytes. -/
theorem agreeOutside_associated (length : associated.length = otherAssociated.length)
    (outside : ∀ position : Nat, (position + 2) / 16 ≠ piece →
      associated[position]? = otherAssociated[position]?) :
    AgreeOutside piece (bigEndian 2 associated.length ++ associated)
      (bigEndian 2 otherAssociated.length ++ otherAssociated) where
  length := by
    rw [List.length_append, List.length_append, length_bigEndian, length_bigEndian, length]
  outside position apart := by
    rw [length]
    by_cases inside : position < 2
    · have in_length : position < (bigEndian 2 otherAssociated.length).length := by
        rwa [length_bigEndian]
      rw [List.getElem?_append_left in_length, List.getElem?_append_left in_length]
    · obtain ⟨behind, rfl⟩ := Nat.exists_eq_add_of_le' (Nat.not_lt.1 inside)
      have behind_length : (bigEndian 2 otherAssociated.length).length ≤ behind + 2 := by
        rw [length_bigEndian]
        exact Nat.le_add_left 2 behind
      rw [List.getElem?_append_right behind_length, List.getElem?_append_right behind_length,
        length_bigEndian, Nat.add_sub_cancel]
      exact outside behind apart

theorem differOnce_macBlocks_associated (payload : Bytes)
    (length : associated.length = otherAssociated.length)
    (outside : ∀ position : Nat, (position + 2) / 16 ≠ piece →
      associated[position]? = otherAssociated[position]?)
    (different : associated ≠ otherAssociated) :
    DifferOnce (macBlocks nonce associated payload)
      (macBlocks nonce otherAssociated payload) := by
  have nonempty := ne_nil_of_ne length different
  have other_nonempty := ne_nil_of_ne length.symm different.symm
  have first : firstBlock nonce associated payload = firstBlock nonce otherAssociated payload := by
    have flags : Standard.flags associated = Standard.flags otherAssociated := by
      rw [Standard.flags, Standard.flags, if_neg nonempty, if_neg other_nonempty]
    rw [← Vector.toList_inj, Standard.toList_firstBlock, Standard.toList_firstBlock, flags]
  have framed : bigEndian 2 associated.length ++ associated ≠
      bigEndian 2 otherAssociated.length ++ otherAssociated := by
    rw [length]
    intro same
    exact different (List.append_cancel_left same)
  rw [macBlocks, macBlocks, first, associatedBlocks_of_ne_nil nonempty,
    associatedBlocks_of_ne_nil other_nonempty]
  apply DifferOnce.there
  apply DifferOnce.append_right
  exact differOnce_payloadBlocks (agreeOutside_associated length outside) framed

theorem length_macBlocks_eq (nonce other : Nonce)
    (associated_length : associated.length = otherAssociated.length)
    (payload_length : payload.length = otherPayload.length) :
    (macBlocks nonce associated payload).length =
      (macBlocks other otherAssociated otherPayload).length := by
  have alike : associated = [] ↔ otherAssociated = [] := by
    rw [← List.length_eq_zero_iff, ← List.length_eq_zero_iff, associated_length]
  have formatted_length : (Standard.formatted nonce associated payload).length =
      (Standard.formatted other otherAssociated otherPayload).length := by
    by_cases empty : associated = []
    · simp [Standard.formatted, Standard.fill, empty, alike.1 empty, payload_length]
    · simp [Standard.formatted, Standard.fill, empty, mt alike.2 empty, associated_length,
        payload_length]
  simp only [← Standard.blocks_formatted, Standard.blocks, List.length_map, List.length_range,
    formatted_length]

theorem mac_ne_of_one_block (schedule : Aes.Schedule) :
    (∀ (nonce other : Nonce) (associated otherAssociated payload otherPayload : Bytes),
      associated.length = otherAssociated.length → payload.length = otherPayload.length →
      (∃! index : Nat, (macBlocks nonce associated payload)[index]? ≠
        (macBlocks other otherAssociated otherPayload)[index]?) →
      mac schedule.encrypt nonce associated payload ≠
        mac schedule.encrypt other otherAssociated otherPayload) ∧
    (∀ (nonce : Nonce) (associated payload otherPayload : Bytes) (piece : Nat),
      payload.length = otherPayload.length →
      (∀ position : Nat, position / 16 ≠ piece →
        payload[position]? = otherPayload[position]?) →
      payload ≠ otherPayload →
      mac schedule.encrypt nonce associated payload ≠
        mac schedule.encrypt nonce associated otherPayload) ∧
    (∀ (nonce : Nonce) (associated otherAssociated payload : Bytes) (piece : Nat),
      associated.length = otherAssociated.length →
      (∀ position : Nat, (position + 2) / 16 ≠ piece →
        associated[position]? = otherAssociated[position]?) →
      associated ≠ otherAssociated →
      mac schedule.encrypt nonce associated payload ≠
        mac schedule.encrypt nonce otherAssociated payload) := by
  have injective := schedule.encrypt_injective
  refine ⟨?_, ?_, ?_⟩
  · intro nonce other associated otherAssociated payload otherPayload associated_length
      payload_length unique
    apply chain_ne_of_differOnce injective
    apply DifferOnce.of_existsUnique _ unique
    exact length_macBlocks_eq nonce other associated_length payload_length
  · intro nonce associated payload otherPayload piece length outside different
    apply chain_ne_of_differOnce injective
    exact differOnce_macBlocks_payload nonce associated ⟨length, outside⟩ different
  · intro nonce associated otherAssociated payload piece length outside different
    apply chain_ne_of_differOnce injective
    exact differOnce_macBlocks_associated nonce payload length outside different

/-- A nonce, the last byte of a payload and the last byte of associated data, each changed under
the erased schedule. -/
theorem mac_ne_of_one_block_erase :
    let schedule := (Aes.Schedule.expand (Octets.zeros 16)).erase
    let nonce : Nonce := Octets.zeros 13
    let front : Bytes := List.replicate 16 2
    mac schedule.encrypt nonce [] [] ≠ mac schedule.encrypt (Vector.replicate 13 1) [] [] ∧
      mac schedule.encrypt nonce [5] (front ++ [3]) ≠
        mac schedule.encrypt nonce [5] (front ++ [4]) ∧
      mac schedule.encrypt nonce (front ++ [3]) [5] ≠
        mac schedule.encrypt nonce (front ++ [4]) [5] := by
  intro schedule nonce front
  have outside (position : Nat) (apart : position < 16 ∨ 17 ≤ position) :
      (front ++ [3])[position]? = (front ++ [4])[position]? := by
    obtain before | behind := apart
    · have inside : position < front.length := before
      rw [List.getElem?_append_left inside, List.getElem?_append_left inside]
    · rw [List.getElem?_eq_none behind, List.getElem?_eq_none behind]
  obtain ⟨one_block, one_piece, one_associated⟩ := mac_ne_of_one_block schedule
  refine ⟨?_, ?_, ?_⟩
  · refine one_block nonce (Vector.replicate 13 1) [] [] [] [] rfl rfl ⟨0, by decide, ?_⟩
    intro index different
    cases index with
    | zero => rfl
    | succ index => exact absurd rfl different
  · refine one_piece nonce [5] (front ++ [3]) (front ++ [4]) 1 rfl ?_ (by decide)
    intro position apart
    exact outside position (by omega)
  · refine one_associated nonce (front ++ [3]) (front ++ [4]) [5] 1 rfl ?_ (by decide)
    intro position apart
    exact outside position (by omega)

end Ccm

end SealedFrame
