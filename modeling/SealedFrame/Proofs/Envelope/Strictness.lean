import SealedFrame.Envelope.Strict
import SealedFrame.Proofs.Aes.Strictness
import SealedFrame.Proofs.Ccm.Strictness

namespace SealedFrame

open Checked

/-! A header is put together in place, field behind field, and taken apart by its places. -/

namespace Header.Strict

theorem toBytes_eq (header : Header) : toBytes header = .ok header.toBytes := by
  have auth_length : header.authHash.toList.length = 8 := Vector.length_toList
  have device_length : header.deviceHash.toList.length = 8 := Vector.length_toList
  have counter_length := length_bigEndian counterSize header.counter.toNat
  have counted : ((Octets.zeros 21).overwrite 0 [header.flags]).overwrite 1
      (bigEndian counterSize header.counter.toNat) =
        (Octets.zeros 21).overwrite 0
          (header.flags :: bigEndian counterSize header.counter.toNat) :=
    Octets.overwrite_overwrite _ rfl (by rw [counter_length]; decide)
  have named : ((Octets.zeros 21).overwrite 0
      (header.flags :: bigEndian counterSize header.counter.toNat)).overwrite 5
        header.authHash.toList =
          (Octets.zeros 21).overwrite 0
            (header.flags :: (bigEndian counterSize header.counter.toNat ++
              header.authHash.toList)) :=
    Octets.overwrite_overwrite _ (by rw [List.length_cons, counter_length]; rfl)
      (by rw [auth_length]; decide)
  have whole : ((Octets.zeros 21).overwrite 0
      (header.flags :: (bigEndian counterSize header.counter.toNat ++
        header.authHash.toList))).overwrite 13 header.deviceHash.toList =
          (Octets.zeros 21).overwrite 0 header.toBytes.toList := by
    rw [Octets.overwrite_overwrite _
      (by rw [List.length_cons, List.length_append, counter_length, auth_length]; rfl)
      (by rw [device_length])]
    rfl
  rw [toBytes, set_of_lt _ (by decide), Octets.set_eq_overwrite, ok_bind]
  change overwrite _ 1 5 _ >>= _ = _
  rw [overwrite_of_length _ (by decide) (by decide) counter_length, ok_bind, counted]
  change overwrite _ 5 13 _ >>= _ = _
  rw [overwrite_of_length _ (by decide) (by decide) auth_length, ok_bind, named]
  change overwrite _ 13 21 _ = _
  rw [overwrite_of_length _ (by decide) (by decide) device_length, whole,
    Octets.overwrite_whole _ Vector.length_toList]
  rfl

theorem ofBytes_eq (bytes : Bytes) : ofBytes bytes = .ok (Header.ofBytes bytes) := by
  rw [ofBytes, Header.ofBytes]
  split
  next => rfl
  next long =>
    rw [size, Nat.not_lt] at long
    have word : (bytes.drop 1).take counterSize = [bytes[1], bytes[2], bytes[3], bytes[4]] := by
      rw [counterSize, List.drop_eq_getElem_cons (by omega), List.take_succ_cons,
        List.drop_eq_getElem_cons (by omega), List.take_succ_cons,
        List.drop_eq_getElem_cons (by omega), List.take_succ_cons,
        List.drop_eq_getElem_cons (by omega), List.take_succ_cons, List.take_zero]
    have first : bytes[0] = bytes.headD 0 := by
      cases bytes with
      | nil => exact absurd long (by decide)
      | cons byte rest => rfl
    have hash {start stop : Nat} (ordered : start + 8 = stop) (bound : stop ≤ 21) :
        overwrite (Octets.zeros 8) 0 hashSize ((bytes.take stop).drop start) =
          .ok (Octets.padded 8 (bytes.drop start)) := by
      have length : ((bytes.take stop).drop start).length = 8 := by
        rw [List.length_drop, List.length_take]
        omega
      have front : (bytes.take stop).drop start = (bytes.drop start).take 8 := by
        rw [List.drop_take, ← ordered, Nat.add_sub_cancel_left]
      rw [hashSize, overwrite_of_length _ (Nat.zero_le _) (by decide) length,
        Octets.overwrite_zeros (Nat.le_of_eq length), front, Octets.padded_take]
    rw [byteAt_of_lt (by omega), ok_bind, byteAt_of_lt (by omega), ok_bind,
      byteAt_of_lt (by omega), ok_bind, byteAt_of_lt (by omega), ok_bind, byteAt_of_lt (by omega),
      ok_bind, slice_of_le (by decide) (by omega), ok_bind, hash rfl (by decide), ok_bind,
      slice_of_le (by decide) (by omega), ok_bind, hash rfl (by decide), ok_bind, word, first]
    rfl

theorem nonceOf_eq (flags : UInt8) (deviceHash : ShortHash) (counter : UInt32) :
    nonceOf flags deviceHash counter = .ok (Header.nonceOf flags deviceHash counter) := by
  have counter_length := length_bigEndian counterSize counter.toNat
  have half_length : (deviceHash.toList.take 4).length = 4 := by
    rw [List.length_take, Vector.length_toList]
    rfl
  have flagged : ((Octets.zeros 13).overwrite 0 [flags]).toList = flags :: List.replicate 12 0 := by
    rw [Octets.toList_overwrite _ (by rw [List.length_singleton]; decide), Octets.toList_zeros]
    rfl
  have named : (((Octets.zeros 13).overwrite 0 [flags]).overwrite 5
      (deviceHash.toList.take 4)).toList.take (5 + (deviceHash.toList.take 4).length) =
        flags :: (List.replicate 4 0 ++ deviceHash.toList.take 4) := by
    rw [Octets.take_overwrite _ (by rw [half_length]; decide), flagged]
    rfl
  rw [half_length] at named
  rw [nonceOf, set_of_lt _ (by decide), Octets.set_eq_overwrite, ok_bind,
    slice_of_le (by decide) (by rw [Vector.length_toList]; decide), ok_bind, List.drop_zero,
    overwrite_of_length _ (by decide) (by decide) half_length, ok_bind, nonceSize,
    overwrite_of_length _ (by decide) (by decide) counter_length]
  refine congrArg Except.ok (Vector.toList_inj.1 ?_)
  rw [Octets.toList_overwrite_end _ (by rw [counter_length]; rfl), named]
  rfl

end Header.Strict

/-! Each range of an envelope or a buffer lies inside it by a check that comes before: the room for
the whole envelope in sealing, the least length in opening. -/

namespace Envelope.Strict

theorem parseHeader_eq (envelope : Bytes) :
    parseHeader envelope = .ok (Envelope.parseHeader envelope) := by
  rw [parseHeader, Header.Strict.ofBytes_eq, ok_bind, Envelope.parseHeader]
  cases Header.ofBytes envelope with
  | error error => rfl
  | ok header =>
      simp only []
      cases Flags.decode header.flags with
      | error error => rfl
      | ok flags => rfl

theorem writeEnvelope_eq (frame : Bytes) (label : Label) (key : Key) {buffer : Bytes}
    (flags : UInt8) (room : lengthFor frame.length ≤ buffer.length) :
    let total := lengthFor frame.length
    let header := label.header flags
    let body := Ccm.encryptInto (Aes.Schedule.expand key.octets).encrypt header.nonce
      header.toBytes.toList frame ((buffer.take total).drop Header.size)
    writeEnvelope frame label key buffer flags =
      .ok (match body.answer with
        | .error error =>
            .silent (.reject error (buffer.take Header.size ++ body.buffer ++ buffer.drop total))
        | .ok _ =>
            .report (.sealedEnvelope label.counter total label.method)
              (.accept total (header.toBytes.toList ++ body.buffer ++ buffer.drop total))) := by
  intro total header body
  have header_le : Header.size ≤ (buffer.take total).length := by
    rw [List.length_take, Nat.min_eq_left room, lengthFor]
    omega
  have front : (buffer.take total).take Header.size = buffer.take Header.size := by
    rw [List.take_take, Nat.min_eq_left]
    rw [List.length_take] at header_le
    omega
  have head_length : header.toBytes.toList.length = (buffer.take Header.size).length := by
    rw [← front, List.length_take, Nat.min_eq_left header_le, Vector.length_toList]
    rfl
  have nonce : Header.nonceOf flags label.deviceHash label.counter = header.nonce := rfl
  have sealing := Ccm.Strict.encryptInto_eq header.nonce
    (Aes.Strict.encrypt_eq (Aes.Schedule.expand key.octets)) header.toBytes.toList frame
    ((buffer.take total).drop Header.size)
  rw [writeEnvelope, Header.Strict.toBytes_eq, ok_bind, Header.Strict.nonceOf_eq, ok_bind,
    Aes.Strict.expand_eq, ok_bind, slice_of_le (Nat.zero_le _) room, ok_bind, List.drop_zero,
    split_of_le header_le, ok_bind]
  simp only []
  rw [nonce, sealing, ok_bind, front, replace_of_length head_length, ok_bind]
  cases body.answer with
  | error error => rfl
  | ok count => rfl

theorem sealInto_eq (frame : Bytes) (label : Label) (key : Key) (buffer : Bytes) :
    sealInto frame label key buffer = .ok (Envelope.sealInto frame label key buffer) := by
  simp only [sealInto, Envelope.sealInto]
  split
  next => rfl
  next =>
    split
    next => rfl
    next room =>
      cases label.flags.encode with
      | error error => rfl
      | ok flags => exact writeEnvelope_eq frame label key flags (Nat.not_lt.1 room)

theorem sealed_eq (frame : Bytes) (label : Label) (key : Key) :
    sealed frame label key = .ok (Envelope.sealed frame label key) := by
  rw [sealed, Envelope.sealed]
  split
  next => rfl
  next => rw [sealInto_eq, ok_bind]

theorem readFrame_eq {envelope : Bytes} (sealedFrame : Bytes) (key : Key) (buffer : Bytes)
    (header : Header) (method : Method) (long : Header.size ≤ envelope.length) :
    let written := Ccm.decryptInto (Aes.Schedule.expand key.octets).encrypt header.nonce
      (envelope.take Header.size) sealedFrame buffer
    readFrame envelope sealedFrame key buffer header method =
      .ok (match written.answer with
        | .error error =>
            .report (.authenticationFailed header.counter) (.reject error written.buffer)
        | .ok count =>
            .report (.openedEnvelope header.counter count method)
              (.accept ⟨header, method, count⟩ written.buffer)) := by
  intro written
  have nonce : Header.nonceOf header.flags header.deviceHash header.counter = header.nonce := rfl
  have opening := Ccm.Strict.decryptInto_eq header.nonce
    (Aes.Strict.encrypt_eq (Aes.Schedule.expand key.octets)) (envelope.take Header.size)
    sealedFrame buffer
  rw [readFrame, slice_of_le (Nat.zero_le _) long, ok_bind, List.drop_zero,
    Header.Strict.nonceOf_eq, ok_bind, Aes.Strict.expand_eq, ok_bind, nonce, opening, ok_bind]
  cases written.answer with
  | error error => rfl
  | ok count => rfl

theorem openInto_eq (envelope : Bytes) (key : Key) (buffer : Bytes) :
    openInto envelope key buffer = .ok (Envelope.openInto envelope key buffer) := by
  simp only [openInto, Envelope.openInto]
  split
  next => rfl
  next long =>
    have long_enough : Header.size + Ccm.tagSize ≤ envelope.length := Nat.not_lt.1 long
    have size_le : Header.size ≤ envelope.length := Nat.le_of_add_right_le long_enough
    have tag_le : Ccm.tagSize ≤ (envelope.drop Header.size).length := by
      rw [List.length_drop]
      omega
    simp only [parseHeader_eq, ok_bind, slice_of_le size_le (Nat.le_refl _), List.take_length,
      subtract_of_le tag_le, readFrame_eq _ key buffer _ _ size_le]
    cases (Envelope.parseHeader envelope).value with
    | error error => rfl
    | ok header =>
        simp only []
        cases Flags.decode header.flags with
        | error error => rfl
        | ok flags =>
            simp only []
            split
            next => rfl
            next =>
              split
              next => rfl
              next =>
                split
                next => rfl
                next =>
                  split
                  next => rfl
                  next => rfl

theorem opened_eq (envelope : Bytes) (key : Key) :
    opened envelope key = .ok (Envelope.opened envelope key) := by
  rw [opened, openInto_eq, ok_bind]
  rfl

end Envelope.Strict

end SealedFrame
