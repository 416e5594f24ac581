import AmmRollup.Proofs.Rollup.Build
import AmmRollup.Proofs.Transition.Outcome

/-!
# AmmRollup.Proofs.Rollup.Reachable

Everything that can be done to the state of the rollup, in any order and with any
arguments, succeeding or not (`RollupState.Action`), and the states that it leads to
(`RollupState.Reachable`).  All of them are valid: building a step may be refused, a step
may be made up, built long before or replayed, a commit may fail halfway.
-/

namespace AmmRollup

namespace RollupState

variable {s s' : RollupState} {v : Verifiers} {earlier : Option Proof} {t : Transition}
  {o : Outcome}

/-! ## Running

Applying a step is executing it and committing what it gives.  These equations say what each of
the two leaves behind, so that no later proof has to open them.
-/

/-- The state after a step is committed: deposits are counted. -/
def counted (s : RollupState) (t : Transition) : RollupState :=
  match t with
  | .deposit a => s.consumeDeposit a.expectedHead
  | _ => s

/-- Counting a deposit leaves the ledger alone. -/
@[simp] theorem ledger_counted (s : RollupState) (t : Transition) :
    (s.counted t).ledger = s.ledger := by
  cases t <;> rfl

/-- Counting a deposit leaves alone what was paid. -/
@[simp] theorem withdrawals_counted (s : RollupState) (t : Transition) :
    (s.counted t).withdrawals = s.withdrawals := by
  cases t <;> rfl

/-- Counting a deposit keeps a state valid. -/
theorem Valid.counted (h : s.Valid) (t : Transition) : (s.counted t).Valid := by
  cases t with
  | deposit a => exact h.consumeDeposit a.expectedHead
  | _ => exact h

/-- Why a step is not executed. -/
def refused (t : Transition) (e : TransitionError) : Failure := ⟨[.execute t.method], .transition e⟩

/-- A commit that succeeds counts the deposit. -/
theorem run_commitStep_of_ok (h : s.commit o = (.ok (), s')) :
    (commitStep t o).run.run s = (.ok (), s'.counted t) := by
  unfold commitStep
  rw [run_get, h, run_set]
  cases t <;> rfl

/-- A commit that fails names the method whose outcome was refused. -/
theorem run_commitStep_of_error {e : StateError} (h : s.commit o = (.error e, s')) :
    (commitStep t o).run.run s = (.error ⟨[.commit t.method], .state e⟩, s') := by
  unfold commitStep
  rw [run_get, h, run_set]
  rfl

/-- A step that is not executed changes nothing. -/
theorem run_apply_of_error {e : TransitionError} (h : t.execute v s.roots earlier = .error e) :
    (apply v earlier t).run.run s = (.error (refused t e), s) := by
  unfold apply
  rw [run_get, h]
  rfl

/-- An executed step is committed. -/
theorem run_apply_of_ok (h : t.execute v s.roots earlier = .ok o) :
    (apply v earlier t).run.run s = match (commitStep t o).run.run s with
      | (.ok _, s') => (.ok o, s')
      | (.error f, s') => (.error f, s') := by
  unfold apply
  rw [run_get, h]
  change (commitStep t o >>= fun _ => (pure o : Build Outcome)).run.run s = _
  rw [run_bind]
  cases (commitStep t o).run.run s with
  | mk r s' => cases r <;> rfl

/-- An application succeeds when the step is executed and its outcome is committed. -/
theorem run_apply_eq_ok (h : (apply v earlier t).run.run s = (.ok o, s')) :
    t.execute v s.roots earlier = .ok o ∧
      ∃ written, s.commit o = (.ok (), written) ∧ s' = written.counted t := by
  cases hexecute : t.execute v s.roots earlier with
  | error e =>
      rw [run_apply_of_error hexecute] at h
      exact nomatch (Prod.mk.inj h).1
  | ok o' =>
      rw [run_apply_of_ok hexecute] at h
      -- a refused commit would have refused the step
      cases hcommit : s.commit o' with
      | mk r written =>
          cases r with
          | error e =>
              rw [run_commitStep_of_error hcommit] at h
              exact nomatch (Prod.mk.inj h).1
          | ok u =>
              rw [run_commitStep_of_ok hcommit] at h
              obtain ⟨hr, rfl⟩ := Prod.mk.inj h
              obtain rfl := Except.ok.inj hr
              exact ⟨rfl, written, hcommit, rfl⟩

/-- What applying a step hashes: the trees before and after it, its claims, and the roots of
its outcome. -/
def applyPreimages (s : RollupState) (t : Transition) (o : Outcome) (s' : RollupState) :
    Set Bytes :=
  s.records.preimages ∪ t.preimages ∪ t.outcomePreimages o ∪ s'.records.preimages

/-! ## Actions

The host may be asked to build, to apply what someone else has built, to commit any outcome, to
consume deposits and to record payments, in any order and with any arguments.  A state is
reachable if some list of these leads there.
-/

/-- What can be done to the state. -/
inductive Action where
  /-- A step is built, for whoever asks. -/
  | build (intent : Intent)
  /-- A step is executed on the current roots and committed. -/
  | apply (verifiers : Verifiers) (earlier : Option Proof) (step : Transition)
  /-- Any outcome of any step is committed. -/
  | commit (step : Transition) (outcome : Outcome)
  /-- A deposit is counted. -/
  | consume (head : Bytes32)
  /-- A payment is recorded. -/
  | record (owner : Address) (token : Token) (total : Amount)

/-- The state after an action, whether it succeeded or not. -/
def after (s : RollupState) : Action → RollupState
  | .build i => ((build i).run.run s).2
  | .apply v earlier t => ((RollupState.apply v earlier t).run.run s).2
  | .commit t o => ((commitStep t o).run.run s).2
  | .consume head => s.consumeDeposit head
  | .record owner token total => (s.recordWithdrawal owner token total).2

/-- The states that actions lead to. -/
inductive Reachable : RollupState → Prop
  | initial : Reachable initial
  | step {s : RollupState} (h : Reachable s) (a : Action) : Reachable (s.after a)

/-- Either way the state stays valid. -/
theorem Valid.commitStep (h : s.Valid) (t : Transition) (o : Outcome) :
    ((RollupState.commitStep t o).run.run s).2.Valid := by
  cases hcommit : s.commit o with
  | mk r written =>
      cases r with
      | error e =>
          rw [run_commitStep_of_error hcommit]
          exact (h.commit_error hcommit).1
      | ok u =>
          rw [run_commitStep_of_ok hcommit]
          exact ((h.commit_ok hcommit).1.valid h).counted t

/-- Every action keeps a state valid. -/
theorem Valid.after (h : s.Valid) (a : Action) : (s.after a).Valid := by
  cases a with
  | build i => exact (h.build_spec i).valid
  | apply v earlier t =>
      change ((RollupState.apply v earlier t).run.run s).2.Valid
      -- a step that the core refuses is not committed
      cases hexecute : t.execute v s.roots earlier with
      | error e =>
          rw [run_apply_of_error hexecute]
          exact h
      | ok o =>
          have hvalid := h.commitStep t o
          rw [run_apply_of_ok hexecute]
          cases hrun : (RollupState.commitStep t o).run.run s with
          | mk r written =>
              rw [hrun] at hvalid
              cases r <;> exact hvalid
  | commit t o => exact h.commitStep t o
  | consume head => exact h.consumeDeposit head
  | record owner token total => exact (h.recordWithdrawal_spec owner token total).valid

/-- Every action keeps it valid, so every reachable state is. -/
theorem Reachable.valid (h : s.Reachable) : s.Valid := by
  induction h with
  | initial => exact valid_initial
  | step _ a ih => exact ih.after a

end RollupState

end AmmRollup
