import SealedFrame.Slots

namespace SealedFrame

/-! What each slot has taken in, read off a history alone, and machines that keep up with it. -/

inductive Origin (Seed : Type) where
  | started (seed : Seed)
  | erased

/-- How the computation in a slot began, and all that it was fed since then. -/
structure Transcript (Seed : Type) where
  origin : Origin Seed
  message : Bytes

variable {Seed Machine : Type}

namespace Transcript

def append (transcript : Transcript Seed) (bytes : Bytes) : Transcript Seed :=
  ⟨transcript.origin, transcript.message ++ bytes⟩

/-- The transcript of a slot after a history whose latest action comes first. -/
def latest : List (Action Seed) → Nat → Option (Transcript Seed)
  | [], _ => none
  | .start target seed :: earlier, slot =>
      if slot = target then some ⟨.started seed, []⟩ else latest earlier slot
  | .update target bytes :: earlier, slot =>
      if slot = target then (latest earlier target).map fun before => before.append bytes
      else latest earlier slot
  | .copy source target :: earlier, slot =>
      if slot = target then latest earlier source else latest earlier slot
  | .erase target :: earlier, slot =>
      if slot = target then (latest earlier target).map fun _ => ⟨.erased, []⟩
      else latest earlier slot
  | .finish target :: earlier, slot =>
      if slot = target then none else latest earlier slot

def after (history : List (Action Seed)) (slot : Nat) : Option (Transcript Seed) :=
  latest history.reverse slot

end Transcript

/-- The slot that an action takes a computation from. -/
def Action.source : Action Seed → Option Nat
  | .start _ _ => none
  | .update slot _ => some slot
  | .copy source _ => some source
  | .erase slot => some slot
  | .finish slot => some slot

/-- The only slot that an action changes. -/
def Action.target : Action Seed → Nat
  | .start slot _ => slot
  | .update slot _ => slot
  | .copy _ target => target
  | .erase slot => slot
  | .finish slot => slot

/-- In a history whose latest action comes first, every action finds its computation. -/
def feasible : List (Action Seed) → Bool
  | [] => true
  | action :: earlier =>
      feasible earlier &&
        action.source.all fun slot => (Transcript.latest earlier slot).isSome

namespace Slots

variable {related : Machine → Transcript Seed → Prop} {slots : Slots Machine}
  {recent : List (Action Seed)}

/-- Slot by slot, the machines agree with a history whose latest action comes first. -/
def Follow (related : Machine → Transcript Seed → Prop) (slots : Slots Machine)
    (recent : List (Action Seed)) : Prop :=
  ∀ slot, Option.Rel related (slots slot) (Transcript.latest recent slot)

theorem follow_empty : Follow related (empty : Slots Machine) [] :=
  fun _ => .none

theorem Follow.exists_transcript (held : Follow related slots recent) {slot : Nat}
    {machine : Machine} (filled : slots slot = some machine) :
    ∃ transcript, Transcript.latest recent slot = some transcript ∧
      related machine transcript := by
  have pair := held slot
  rw [filled] at pair
  generalize Transcript.latest recent slot = content at pair ⊢
  cases pair with
  | some pair => exact ⟨_, rfl, pair⟩

theorem Follow.isSome_eq (held : Follow related slots recent) (slot : Nat) :
    (slots slot).isSome = (Transcript.latest recent slot).isSome := by
  have pair := held slot
  generalize slots slot = left at pair ⊢
  generalize Transcript.latest recent slot = right at pair ⊢
  cases pair with
  | some => rfl
  | none => rfl

theorem Follow.put (held : Follow related slots recent) (target : Nat)
    {left : Option Machine} {right : Option (Transcript Seed)}
    (content : Option.Rel related left right) (slot : Nat) :
    Option.Rel related (slots.put target left slot)
      (if slot = target then right else Transcript.latest recent slot) := by
  rw [Slots.put]
  split
  · exact content
  · exact held slot

end Slots

variable [Incremental Seed Machine]

/-- Every operation of the machine keeps it related to what its slot has taken in. -/
structure Follows (related : Machine → Transcript Seed → Prop) : Prop where
  start : ∀ seed : Seed, related (Incremental.start seed) ⟨.started seed, []⟩
  update : ∀ {machine : Machine} {transcript : Transcript Seed}, related machine transcript →
    ∀ bytes : Bytes, related (Incremental.update machine bytes) (transcript.append bytes)
  erase : ∀ {machine : Machine} {transcript : Transcript Seed}, related machine transcript →
    related (Incremental.erase machine) ⟨.erased, []⟩

/-- A message in pieces leads where the whole message leads. -/
theorem Follows.foldl_update {related : Machine → Transcript Seed → Prop}
    (follows : Follows related) {machine : Machine} {transcript : Transcript Seed}
    (held : related machine transcript) (pieces : List Bytes) :
    related (pieces.foldl Incremental.update machine) (transcript.append pieces.flatten) := by
  induction pieces generalizing machine transcript with
  | nil =>
      rw [List.flatten_nil, Transcript.append, List.append_nil]
      exact held
  | cons piece rest induction =>
      have further := induction (follows.update held piece)
      rw [Transcript.append, Transcript.append, List.append_assoc] at further
      exact further

namespace Slots

variable {related : Machine → Transcript Seed → Prop} {slots next : Slots Machine}
  {recent : List (Action Seed)}

theorem Follow.step (follows : Follows related) (held : Follow related slots recent)
    {action : Action Seed} {digest : Digest}
    (stepped : slots.step action = some (next, digest)) :
    Follow related next (action :: recent) := by
  cases action with
  | start target seed =>
      cases stepped
      exact held.put target (.some (follows.start seed))
  | update target bytes =>
      obtain ⟨machine, filled, result⟩ := Option.map_eq_some_iff.1 stepped
      obtain ⟨transcript, known, pair⟩ := held.exists_transcript filled
      cases result
      refine held.put target ?_
      rw [known]
      exact .some (follows.update pair bytes)
  | copy source target =>
      obtain ⟨machine, filled, result⟩ := Option.map_eq_some_iff.1 stepped
      cases result
      refine held.put target ?_
      rw [← filled]
      exact held source
  | erase target =>
      obtain ⟨machine, filled, result⟩ := Option.map_eq_some_iff.1 stepped
      obtain ⟨transcript, known, pair⟩ := held.exists_transcript filled
      cases result
      refine held.put target ?_
      rw [known]
      exact .some (follows.erase pair)
  | finish target =>
      obtain ⟨machine, filled, result⟩ := Option.map_eq_some_iff.1 stepped
      cases result
      exact held.put target .none

theorem Follow.digest_finish (held : Follow related slots recent)
    {digest : Transcript Seed → Digest}
    (ends : ∀ {machine : Machine} {transcript : Transcript Seed}, related machine transcript →
      Incremental.finalize machine = digest transcript) (slot : Nat) :
    (slots.step (.finish slot)).map Prod.snd =
      (Transcript.latest recent slot).map digest := by
  have pair := held slot
  simp only [Slots.step, Option.map_map]
  generalize slots slot = left at pair ⊢
  generalize Transcript.latest recent slot = right at pair ⊢
  cases pair with
  | some pair => exact congrArg some (ends pair)
  | none => rfl

theorem step_of_ne_target {action : Action Seed} {digest : Digest}
    (stepped : slots.step action = some (next, digest)) {slot : Nat}
    (elsewhere : slot ≠ action.target) : next slot = slots slot := by
  cases action with
  | start target seed =>
      cases stepped
      exact put_of_ne slots _ elsewhere
  | _ =>
      obtain ⟨machine, filled, result⟩ := Option.map_eq_some_iff.1 stepped
      cases result
      exact put_of_ne slots _ elsewhere

theorem isSome_step (slots : Slots Machine) (action : Action Seed) :
    (slots.step action).isSome = action.source.all fun slot => (slots slot).isSome := by
  cases action with
  | start target seed => rfl
  | _ => exact Option.isSome_map

/-! Runs. -/

theorem run_concat (slots : Slots Machine) (history : List (Action Seed))
    (action : Action Seed) :
    slots.run (history ++ [action]) = (slots.run history).bind fun before =>
      (before.1.step action).map fun last => (last.1, before.2 ++ [last.2]) := by
  induction history generalizing slots with
  | nil =>
      simp only [List.nil_append, Slots.run, Option.bind_some]
      cases slots.step action with
      | none => rfl
      | some last => rfl
  | cons first rest induction =>
      simp only [List.cons_append, Slots.run]
      cases slots.step first with
      | none => rfl
      | some next =>
          simp only [induction]
          cases next.1.run rest with
          | none => rfl
          | some before =>
              simp only [Option.map_some, Option.bind_some]
              cases before.1.step action with
              | none => rfl
              | some last => rfl

theorem run_cons_eq_some {action : Action Seed} {rest : List (Action Seed)}
    {shown : List Digest} (ran : slots.run (action :: rest) = some (next, shown)) :
    ∃ (middle : Slots Machine) (digest : Digest) (digests : List Digest),
      slots.step action = some (middle, digest) ∧ middle.run rest = some (next, digests) ∧
        shown = digest :: digests := by
  rw [Slots.run] at ran
  split at ran
  next => cases ran
  next middle digest stepped =>
    obtain ⟨⟨last, digests⟩, further, result⟩ := Option.map_eq_some_iff.1 ran
    cases result
    exact ⟨middle, digest, digests, stepped, further, rfl⟩

/-- Whatever happens in other slots, among them those that a computation was copied to, leaves it
as it is. -/
theorem run_of_ne_target {history : List (Action Seed)} {shown : List Digest}
    (ran : slots.run history = some (next, shown)) {slot : Nat}
    (elsewhere : ∀ action ∈ history, slot ≠ action.target) : next slot = slots slot := by
  induction history generalizing slots shown with
  | nil =>
      cases ran
      rfl
  | cons action rest induction =>
      obtain ⟨middle, digest, digests, stepped, further, -⟩ := run_cons_eq_some ran
      have later := induction further fun later member =>
        elsewhere later (List.mem_cons_of_mem action member)
      have first := step_of_ne_target stepped (elsewhere action List.mem_cons_self)
      rw [later, first]

theorem follow_run (follows : Follows related) {recent : List (Action Seed)}
    {slots : Slots Machine} {digests : List Digest}
    (ran : (empty : Slots Machine).run recent.reverse = some (slots, digests)) :
    Follow related slots recent := by
  induction recent generalizing slots digests with
  | nil =>
      cases ran
      exact follow_empty
  | cons action earlier induction =>
      rw [List.reverse_cons, run_concat] at ran
      obtain ⟨before, ran_before, further⟩ := Option.bind_eq_some_iff.1 ran
      obtain ⟨last, stepped, result⟩ := Option.map_eq_some_iff.1 further
      cases result
      exact (induction ran_before).step follows stepped

/-- A history is carried out exactly if each of its actions finds its computation. -/
theorem isSome_run (follows : Follows related) (recent : List (Action Seed)) :
    ((empty : Slots Machine).run recent.reverse).isSome = feasible recent := by
  induction recent with
  | nil => rfl
  | cons action earlier induction =>
      rw [List.reverse_cons, run_concat, feasible, ← induction]
      cases ran : (empty : Slots Machine).run earlier.reverse with
      | none => rfl
      | some before =>
          have held := follow_run follows ran
          simp only [Option.bind_some, Option.isSome_map, isSome_step, held.isSome_eq,
            Option.isSome_some, Bool.true_and]

/-- A history leaves the machine in one of its slots, and the transcript is what it fed there. -/
def Reached (machine : Machine) (transcript : Transcript Seed) : Prop :=
  ∃ (history : List (Action Seed)) (slots : Slots Machine) (digests : List Digest) (slot : Nat),
    (empty : Slots Machine).run history = some (slots, digests) ∧ slots slot = some machine ∧
      Transcript.after history slot = some transcript

theorem related_of_reached (follows : Follows related) {machine : Machine}
    {transcript : Transcript Seed} (reached : Reached machine transcript) :
    related machine transcript := by
  obtain ⟨history, slots, digests, slot, ran, filled, known⟩ := reached
  rw [← List.reverse_reverse history] at ran
  obtain ⟨found, found_known, held⟩ := (follow_run follows ran).exists_transcript filled
  cases known.symm.trans found_known
  exact held

end Slots

end SealedFrame
