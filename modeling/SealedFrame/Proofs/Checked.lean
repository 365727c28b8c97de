import SealedFrame.Checked

namespace SealedFrame.Checked

/-! Loops that never fault. A loop none of whose turns faults computes what the same loop without
faults does; where a turn relies on what the turns before it have done, an invariant carries that
over. -/

variable {State : Type}

theorem exists_foldlM_range (step : State → Nat → Checked State)
    (invariant : Nat → State → Prop) (first count : Nat)
    (kept : ∀ (index : Nat) (state : State), first ≤ index → index < first + count →
      invariant index state →
      ∃ next, step state index = .ok next ∧ invariant (index + 1) next)
    {state : State} (holds : invariant first state) :
    ∃ last, (List.range' first count).foldlM step state = .ok last ∧
      invariant (first + count) last := by
  induction count generalizing first state with
  | zero => exact ⟨state, rfl, holds⟩
  | succ count induction =>
      obtain ⟨next, stepped, held⟩ := kept first state (Nat.le_refl first) (by omega) holds
      have later : ∀ (index : Nat) (state : State), first + 1 ≤ index →
          index < first + 1 + count → invariant index state →
          ∃ next, step state index = .ok next ∧ invariant (index + 1) next := by
        intro index state after before
        exact kept index state (by omega) (by omega)
      obtain ⟨last, ran, ended⟩ := induction (first + 1) later held
      refine ⟨last, ?_, ?_⟩
      · rw [List.range'_succ, List.foldlM_cons, stepped, ok_bind, ran]
      · rw [Nat.add_right_comm, Nat.add_assoc] at ended
        exact ended

theorem foldlM_range_eq {count : Nat} {step : State → Nat → Checked State}
    {plain : State → Fin count → State} (first : Nat)
    (total : ∀ (state : State) (index : Fin count),
      step state (first + index.val) = .ok (plain state index)) (state : State) :
    (List.range' first count).foldlM step state = .ok (Fin.foldl count plain state) := by
  induction count with
  | zero =>
      rw [Fin.foldl_zero]
      rfl
  | succ count induction =>
      have before : (List.range' first count).foldlM step state =
          .ok (Fin.foldl count (fun state index => plain state index.castSucc) state) :=
        induction fun state index => total state index.castSucc
      have last := total (Fin.foldl count (fun state index => plain state index.castSucc) state)
        (Fin.last count)
      rw [Fin.val_last] at last
      rw [List.range'_1_concat, List.foldlM_append, before, ok_bind, List.foldlM_cons, last,
        ok_bind, Fin.foldl_succ_last]
      rfl

end SealedFrame.Checked
