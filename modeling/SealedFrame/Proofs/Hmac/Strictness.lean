import SealedFrame.Hmac.Strict
import SealedFrame.Proofs.Sha256.Strictness

namespace SealedFrame.Hmac.Strict

open Checked

/-! A key longer than a block is hashed first, so either way what is written fits into the block. -/

theorem blockKey_eq (key : Bytes) : blockKey key = .ok (Hmac.blockKey key) := by
  rw [blockKey, Hmac.blockKey]
  split
  next long =>
    have length : (Sha256.hash key).toList.length = Sha256.digestSize := Vector.length_toList
    have fits : (Sha256.hash key).toList.length ≤ 64 := by
      rw [length]
      decide
    rw [Sha256.Strict.hash_eq, ok_bind, Sha256.digestSize,
      overwrite_of_length _ (Nat.zero_le _) (by decide) length, Octets.overwrite_zeros fits]
  next short =>
    have fits : key.length ≤ 64 := Nat.not_lt.1 short
    rw [overwrite_of_length _ (Nat.zero_le _) fits rfl, Octets.overwrite_zeros fits]

/-- Nothing is left of what the pad held before. -/
theorem toList_pad (before : Octets 64) (key : Bytes) (mask : UInt8) :
    (pad before (Hmac.blockKey key) mask).toList = Hmac.pad key mask := by
  have length : ((Hmac.blockKey key).toList.map (· ^^^ mask)).length = 64 := by
    rw [List.length_map, Vector.length_toList]
  rw [pad, Octets.overwrite_whole _ length, Octets.toList_ofBytes, Hmac.pad]

theorem new_eq (key : Bytes) : new key = .ok (Hmac.new key) := by
  rw [new, blockKey_eq, ok_bind]
  simp only [toList_pad, Sha256.Strict.update_eq, ok_bind]
  rfl

theorem update_eq (hmac : Hmac) (bytes : Bytes) : update hmac bytes = .ok (hmac.update bytes) := by
  rw [update, Sha256.Strict.update_eq, ok_bind]
  rfl

theorem finalize_eq (hmac : Hmac) : finalize hmac = .ok hmac.finalize := by
  rw [finalize, Sha256.Strict.finalize_eq, ok_bind, Sha256.Strict.update_eq, ok_bind,
    Sha256.Strict.finalize_eq]
  rfl

theorem mac_eq (key message : Bytes) : mac key message = .ok (Hmac.mac key message) := by
  rw [mac, new_eq, ok_bind, update_eq, ok_bind, finalize_eq]
  rfl

end SealedFrame.Hmac.Strict
