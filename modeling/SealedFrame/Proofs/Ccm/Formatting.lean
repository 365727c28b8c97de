import SealedFrame.Ccm.Mac
import SealedFrame.Ccm.Standard
import SealedFrame.Proofs.Octets.Cutting

namespace SealedFrame.Ccm

/-! The blocks of the chain, made one by one, against the formatted string cut into blocks. -/

namespace Standard

theorem length_fill_mod (bytes : Bytes) : (fill bytes).length % 16 = 0 := by
  rw [fill, List.length_append, List.length_replicate]
  omega

theorem fill_nil : fill [] = [] := rfl

theorem fill_of_ne_nil {bytes : Bytes} (nonempty : bytes ≠ []) :
    fill bytes = (Octets.padded 16 bytes).toList ++ fill (bytes.drop 16) := by
  have positive := List.length_pos_iff.2 nonempty
  by_cases long : 16 ≤ bytes.length
  · have missing : (16 - bytes.length % 16) % 16 = (16 - (bytes.length - 16) % 16) % 16 := by
      omega
    rw [Octets.toList_padded_of_le long, fill, fill, List.length_drop, ← List.append_assoc,
      List.take_append_drop, missing]
  · have rest : bytes.drop 16 = [] := List.drop_eq_nil_of_le (by omega)
    have missing : (16 - bytes.length % 16) % 16 = 16 - bytes.length := by omega
    rw [Octets.toList_padded, List.take_of_length_le (by omega), rest, fill_nil,
      List.append_nil, fill, missing]

theorem blocks_fill_of_ne_nil {bytes : Bytes} (nonempty : bytes ≠ []) :
    blocks (fill bytes) = Octets.padded 16 bytes :: blocks (fill (bytes.drop 16)) := by
  rw [fill_of_ne_nil nonempty]
  exact Octets.cut_toList_append _ _

/-- Padding the pieces of a string cuts the same blocks as padding it as a whole. -/
theorem blocks_fill (bytes : Bytes) : blocks (fill bytes) = payloadBlocks bytes := by
  by_cases empty : bytes = []
  · subst empty
    rw [payloadBlocks, Bytes.chunks_nil (by decide)]
    rfl
  · have positive := List.length_pos_iff.2 empty
    rw [blocks_fill_of_ne_nil empty, payloadBlocks,
      Bytes.chunks_of_ne_nil (by decide) empty, List.map_cons, blocks_fill (bytes.drop 16)]
    exact congrArg (· :: payloadBlocks (bytes.drop 16)) (Octets.padded_take bytes).symm
termination_by bytes.length
decreasing_by
  rw [List.length_drop]
  omega

theorem blocks_fill_associated {associated : Bytes} (nonempty : associated ≠ []) :
    blocks (fill (bigEndian 2 associated.length ++ associated)) =
      associatedBlocks associated := by
  have front : (bigEndian 2 associated.length ++ associated).take 16 =
      bigEndian 2 associated.length ++ associated.take 14 := by
    rw [List.take_append, length_bigEndian, List.take_of_length_le (by simp)]
  have back : (bigEndian 2 associated.length ++ associated).drop 16 = associated.drop 14 := by
    rw [List.drop_append, length_bigEndian, List.drop_eq_nil_of_le (by simp)]
    rfl
  have some_associated : associated.isEmpty = false := List.isEmpty_eq_false_iff.2 nonempty
  rw [blocks_fill_of_ne_nil (by simp [nonempty]), back, blocks_fill, ← Octets.padded_take, front,
    associatedBlocks, some_associated]
  rfl

theorem flags_eq (associated : Bytes) :
    flags associated =
      if associated.isEmpty then macFlags else macFlags ||| associatedFlag := by
  cases associated with
  | nil => rfl
  | cons byte rest =>
      rw [flags, if_neg (List.cons_ne_nil byte rest)]
      rfl

theorem toList_firstBlock (nonce : Nonce) (associated payload : Bytes) :
    (firstBlock nonce associated payload).toList =
      flags associated :: (nonce.toList ++ bigEndian 2 payload.length) := by
  rw [flags_eq]
  rfl

theorem blocks_formatted (nonce : Nonce) (associated payload : Bytes) :
    blocks (formatted nonce associated payload) = macBlocks nonce associated payload := by
  have first : blocks (formatted nonce associated payload) =
      firstBlock nonce associated payload ::
        blocks ((if associated = [] then []
          else fill (bigEndian 2 associated.length ++ associated)) ++ fill payload) := by
    rw [formatted, ← toList_firstBlock, List.append_assoc]
    exact Octets.cut_toList_append _ _
  rw [first, macBlocks]
  apply congrArg (List.cons _)
  by_cases empty : associated = []
  · subst empty
    exact blocks_fill payload
  · rw [if_neg empty, ← blocks_fill_associated empty, ← blocks_fill payload]
    exact Octets.cut_append_of_whole (length_fill_mod _) _

end Standard

/-- The chain consumes exactly the formatted string. -/
theorem mac_eq_chain_formatted (cipher : Block → Block) (nonce : Nonce)
    (associated payload : Bytes) :
    mac cipher nonce associated payload =
      Standard.chain cipher (Standard.formatted nonce associated payload) := by
  rw [Standard.chain, Standard.blocks_formatted]
  rfl

end SealedFrame.Ccm
