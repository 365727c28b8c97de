import SealedFrame.Proofs.BigEndian
import SealedFrame.Proofs.Ccm.Formatting

namespace SealedFrame.Ccm

/-! What the chain is fed can be read from the front: its first block tells the nonce, the length of
the payload and whether there is associated data, and associated data tells its own length. So no
sequence of blocks goes on from another one. -/

namespace Standard

theorem length_formatted_mod (nonce : Nonce) (associated payload : Bytes) :
    (formatted nonce associated payload).length % 16 = 0 := by
  have payload_whole := length_fill_mod payload
  have associated_whole := length_fill_mod (bigEndian 2 associated.length ++ associated)
  have front : (flags associated :: (nonce.toList ++ bigEndian 2 payload.length)).length = 16 := by
    rw [List.length_cons, List.length_append, Vector.length_toList, length_bigEndian]
  rw [formatted, List.length_append, List.length_append, front]
  split
  · rw [List.length_nil]
    omega
  · omega

theorem flags_eq_iff {associated other : Bytes} :
    flags associated = flags other ↔ (associated = [] ↔ other = []) := by
  by_cases empty : associated = [] <;> by_cases other_empty : other = [] <;>
    simp [flags, empty, other_empty]

theorem eq_of_fill_prefix {payload other : Bytes} (length : payload.length = other.length)
    (front : fill payload <+: fill other) : payload = other :=
  ((List.prefix_append_inj_of_length_eq length).1 front).1

/-- Associated data is read off the front of any two strings that both have some, or both none. -/
theorem associated_eq_of_prefix {associated other behind otherBehind : Bytes}
    (alike : associated = [] ↔ other = []) (fits : associated.length < 256 ^ 2)
    (other_fits : other.length < 256 ^ 2)
    (front : (if associated = [] then []
        else fill (bigEndian 2 associated.length ++ associated)) ++ behind <+:
      (if other = [] then [] else fill (bigEndian 2 other.length ++ other)) ++ otherBehind) :
    associated = other ∧ behind <+: otherBehind := by
  by_cases empty : associated = []
  · have other_empty := alike.1 empty
    subst empty other_empty
    exact ⟨rfl, front⟩
  · rw [if_neg empty, if_neg (mt alike.2 empty)] at front
    simp only [fill, List.append_assoc] at front
    rw [List.prefix_append_inj_of_length_eq (by rw [length_bigEndian, length_bigEndian]),
      bigEndian_inj fits other_fits] at front
    obtain ⟨length, front⟩ := front
    rw [List.prefix_append_inj_of_length_eq length] at front
    obtain ⟨rfl, front⟩ := front
    exact ⟨rfl, (List.prefix_append_right_inj _).1 front⟩

end Standard

theorem flatMap_macBlocks (nonce : Nonce) (associated payload : Bytes) :
    (macBlocks nonce associated payload).flatMap Vector.toList =
      Standard.formatted nonce associated payload := by
  rw [← Standard.blocks_formatted]
  exact Octets.flatMap_cut_of_whole (Standard.length_formatted_mod nonce associated payload)

theorem formatted_prefix_of_macBlocks {nonce other : Nonce}
    {associated otherAssociated payload otherPayload : Bytes}
    (front : macBlocks nonce associated payload <+:
      macBlocks other otherAssociated otherPayload) :
    Standard.formatted nonce associated payload <+:
      Standard.formatted other otherAssociated otherPayload := by
  obtain ⟨behind, split⟩ := front
  refine ⟨behind.flatMap Vector.toList, ?_⟩
  rw [← flatMap_macBlocks, ← flatMap_macBlocks, ← split, List.flatMap_append]

theorem macBlocks_prefix_iff (nonce other : Nonce)
    (associated otherAssociated payload otherPayload : Bytes)
    (associated_fits : associated.length ≤ 65279)
    (other_associated_fits : otherAssociated.length ≤ 65279)
    (payload_fits : payload.length ≤ 65535) (other_payload_fits : otherPayload.length ≤ 65535) :
    macBlocks nonce associated payload <+: macBlocks other otherAssociated otherPayload ↔
      nonce = other ∧ associated = otherAssociated ∧ payload = otherPayload := by
  constructor
  · intro front
    have string_front := formatted_prefix_of_macBlocks front
    rw [Standard.formatted, Standard.formatted, List.append_assoc, List.append_assoc,
      List.prefix_append_inj_of_length_eq (by simp), List.cons.injEq] at string_front
    obtain ⟨⟨flags, header⟩, body⟩ := string_front
    obtain ⟨nonces, lengths⟩ := List.append_inj header (by
      rw [Vector.length_toList, Vector.length_toList])
    rw [bigEndian_inj (by omega) (by omega)] at lengths
    obtain ⟨rfl, payloads⟩ := Standard.associated_eq_of_prefix (Standard.flags_eq_iff.1 flags)
      (by omega) (by omega) body
    exact ⟨Vector.toList_inj.1 nonces, rfl, Standard.eq_of_fill_prefix lengths payloads⟩
  · rintro ⟨rfl, rfl, rfl⟩
    exact List.prefix_refl _

/-- Zeros written out at the end of a payload are not the zeros that fill its last block. -/
theorem macBlocks_prefix_iff_of_trailing_zero :
    ¬macBlocks (Octets.zeros 13) [5] [1] <+: macBlocks (Octets.zeros 13) [5] [1, 0] := by
  intro front
  have alike := (macBlocks_prefix_iff (Octets.zeros 13) (Octets.zeros 13) [5] [5] [1] [1, 0]
    (by decide) (by decide) (by decide) (by decide)).1 front
  exact absurd alike.2.2 (by decide)

end SealedFrame.Ccm
