import SealedFrame.Hmac

/-!
Several computations side by side, each in a numbered slot: started, fed, copied, erased and
finished in any order. A history of actions does not depend on the machine that carries it out,
so two machines can be compared over the same history.
-/

namespace SealedFrame

/-- A computation that starts from a seed, takes its message in pieces and ends in a digest. -/
class Incremental (Seed : outParam Type) (Machine : Type) where
  start : Seed → Machine
  update : Machine → Bytes → Machine
  erase : Machine → Machine
  finalize : Machine → Digest

instance : Incremental Unit Sha256.Hasher where
  start _ := Sha256.Hasher.new
  update := Sha256.Hasher.update
  erase := Sha256.Hasher.erase
  finalize := Sha256.Hasher.finalize

instance : Incremental Bytes Hmac where
  start := Hmac.new
  update := Hmac.update
  erase := Hmac.erase
  finalize := Hmac.finalize

inductive Action (Seed : Type) where
  | start (slot : Nat) (seed : Seed)
  | update (slot : Nat) (bytes : Bytes)
  | copy (source target : Nat)
  | erase (slot : Nat)
  | finish (slot : Nat)

def Slots (Machine : Type) := Nat → Option Machine

namespace Slots

variable {Seed Machine : Type}

def empty : Slots Machine := fun _ => none

def put (slots : Slots Machine) (slot : Nat) (content : Option Machine) : Slots Machine :=
  fun index => if index = slot then content else slots index

theorem put_of_ne (slots : Slots Machine) {slot index : Nat} (content : Option Machine)
    (different : index ≠ slot) : slots.put slot content index = slots index := by
  simp [put, different]

variable [Incremental Seed Machine]

/-- The slots after an action, and the digest the touched computation would end in now. There is
none where the action needs a computation and its slot is empty. -/
def step (slots : Slots Machine) : Action Seed → Option (Slots Machine × Digest)
  | .start slot seed =>
      let started : Machine := Incremental.start seed
      some (slots.put slot (some started), Incremental.finalize started)
  | .update slot bytes =>
      (slots slot).map fun machine =>
        let updated := Incremental.update machine bytes
        (slots.put slot (some updated), Incremental.finalize updated)
  | .copy source target =>
      (slots source).map fun machine =>
        (slots.put target (some machine), Incremental.finalize machine)
  | .erase slot =>
      (slots slot).map fun machine =>
        let erased := Incremental.erase machine
        (slots.put slot (some erased), Incremental.finalize erased)
  | .finish slot =>
      (slots slot).map fun machine => (slots.put slot none, Incremental.finalize machine)

/-- The slots after a history of actions and the digest after each of them. There is none where
an action finds its slot empty. -/
def run (slots : Slots Machine) : List (Action Seed) → Option (Slots Machine × List Digest)
  | [] => some (slots, [])
  | action :: rest =>
      match slots.step action with
      | none => none
      | some (next, digest) =>
          (run next rest).map fun (last, digests) => (last, digest :: digests)

end Slots

end SealedFrame
