import SealedFrame.Octets

/-!
Computations that stop at what they cannot do. Elsewhere in the library a range that leaves its
string is clipped, a difference ends at zero and a number that is too great wraps. Here each of them
is a fault, so that what is made of these operations shows whether it ever relies on the clipping.
-/

namespace SealedFrame

inductive Fault where
  | index (place length : Nat)
  | range (start stop length : Nat)
  | lengths (room found : Nat)
  | difference (left right : Nat)
  | width (value limit : Nat)
  deriving DecidableEq, Repr

abbrev Checked := Except Fault

/-- What a loop over both strings leaves in `target`: it ends with the shorter of the two. -/
def Bytes.fill (target source : Bytes) : Bytes :=
  target.overwriteFront (source.take target.length)

theorem Bytes.fill_of_le {target source : Bytes} (long : target.length ≤ source.length) :
    target.fill source = source.take target.length := by
  have whole : (source.take target.length).length = target.length := by
    rw [List.length_take, Nat.min_eq_left long]
  rw [Bytes.fill, Bytes.overwriteFront, whole, List.drop_length, List.append_nil]

namespace Checked

variable {α β : Type} {size : Nat}

@[simp] theorem ok_bind (value : α) (rest : α → Checked β) :
    (Except.ok value : Checked α) >>= rest = rest value := rfl

theorem exists_of_bind_eq_ok {first : Checked α} {rest : α → Checked β} {result : β}
    (ran : first >>= rest = .ok result) : ∃ value, first = .ok value ∧ rest value = .ok result := by
  cases first with
  | error fault => cases ran
  | ok value => exact ⟨value, rfl, ran⟩

def subtract (left right : Nat) : Checked Nat :=
  if right ≤ left then .ok (left - right) else .error (.difference left right)

/-- A number that has to stay below a limit. -/
def narrow (limit value : Nat) : Checked Nat :=
  if value < limit then .ok value else .error (.width value limit)

def get (values : Vector α size) (place : Nat) : Checked α :=
  if bound : place < size then .ok values[place] else .error (.index place size)

def set (values : Vector α size) (place : Nat) (value : α) : Checked (Vector α size) :=
  if bound : place < size then .ok (values.set place value bound) else .error (.index place size)

def byteAt (bytes : Bytes) (place : Nat) : Checked UInt8 :=
  if bound : place < bytes.length then .ok bytes[place] else .error (.index place bytes.length)

/-- The bytes from `start` up to `stop`. -/
def slice (bytes : Bytes) (start stop : Nat) : Checked Bytes :=
  if start ≤ stop ∧ stop ≤ bytes.length then .ok ((bytes.take stop).drop start)
  else .error (.range start stop bytes.length)

def split (bytes : Bytes) (middle : Nat) : Checked (Bytes × Bytes) :=
  if middle ≤ bytes.length then .ok (bytes.take middle, bytes.drop middle)
  else .error (.range 0 middle bytes.length)

/-- The whole of a string replaced by one that has to be as long. -/
def replace (target source : Bytes) : Checked Bytes :=
  if source.length = target.length then .ok source
  else .error (.lengths target.length source.length)

/-- The bytes from `start` up to `stop` replaced by as many. -/
def overwrite (octets : Octets size) (start stop : Nat) (source : Bytes) :
    Checked (Octets size) := do
  let target ← slice octets.toList start stop
  let written ← replace target source
  .ok (octets.overwrite start written)

theorem subtract_of_le {left right : Nat} (bound : right ≤ left) :
    subtract left right = .ok (left - right) :=
  if_pos bound

theorem narrow_of_lt {limit value : Nat} (fits : value < limit) :
    narrow limit value = .ok value :=
  if_pos fits

theorem lt_of_narrow {limit value kept : Nat} (narrowed : narrow limit value = .ok kept) :
    value < limit := by
  unfold narrow at narrowed
  split at narrowed
  next fits => exact fits
  next => cases narrowed

theorem get_of_lt (values : Vector α size) {place : Nat} (bound : place < size) :
    get values place = .ok values[place] :=
  dif_pos bound

theorem set_of_lt (values : Vector α size) {place : Nat} (bound : place < size) (value : α) :
    set values place value = .ok (values.set place value) :=
  dif_pos bound

theorem byteAt_of_lt {bytes : Bytes} {place : Nat} (bound : place < bytes.length) :
    byteAt bytes place = .ok bytes[place] :=
  dif_pos bound

theorem slice_of_le {bytes : Bytes} {start stop : Nat} (ordered : start ≤ stop)
    (bound : stop ≤ bytes.length) : slice bytes start stop = .ok ((bytes.take stop).drop start) :=
  if_pos ⟨ordered, bound⟩

example : slice [1, 2, 3] 2 4 = .error (.range 2 4 3) := rfl

theorem split_of_le {bytes : Bytes} {middle : Nat} (bound : middle ≤ bytes.length) :
    split bytes middle = .ok (bytes.take middle, bytes.drop middle) :=
  if_pos bound

theorem replace_of_length {target source : Bytes} (same : source.length = target.length) :
    replace target source = .ok source :=
  if_pos same

theorem overwrite_of_length (octets : Octets size) {start stop : Nat} {source : Bytes}
    (ordered : start ≤ stop) (bound : stop ≤ size) (same : source.length = stop - start) :
    overwrite octets start stop source = .ok (octets.overwrite start source) := by
  have inside : stop ≤ octets.toList.length := by
    rw [Vector.length_toList]
    exact bound
  have room : source.length = ((octets.toList.take stop).drop start).length := by
    rw [List.length_drop, List.length_take, Nat.min_eq_left inside, same]
  rw [overwrite, slice_of_le ordered inside, ok_bind, replace_of_length room, ok_bind]

end Checked

end SealedFrame
