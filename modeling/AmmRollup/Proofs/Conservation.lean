import AmmRollup.Proofs.Rollup.Pools
import AmmRollup.Proofs.Transition.Steps

/-!
# AmmRollup.Proofs.Conservation

Chains of accepted steps, whoever made them, make or destroy no token: of every token what
circulates at the end is what circulated at the start and was deposited, less what was burned
(`chain_conserves`).

The steps are assumed to carry the merge flags that their paths call for, since the core takes
flags as they are.  Whatever the state builds carries them (`RollupState.Asked.flagged`), so
chains of steps that it has built need no such assumption.
-/

namespace AmmRollup

variable {r : Records} {trees : StateTrees}

/-- **Conservation.**  In a chain of accepted steps that starts on the roots of some trees,
every step is sound on the trees that the steps before it leave; and of every token what
circulates at the end is what circulated before and was deposited, less what was burned. -/
theorem chain_conserves {steps : List Step} {final : StateRoots} (hstores : trees.Stores r)
    (hchain : Chain trees.roots steps final)
    (hflags : ∀ step ∈ steps, step.transition.balanceOpening.Flagged)
    (hc : CollisionFree (stepPreimages r steps)) :
    (∀ before step after, steps = before ++ step :: after →
      ∃ current, trees.replay (stepWrites before) = .ok current ∧
        current.Stores (r.writeAll (stepWrites before)) ∧
        step.Sound current (r.writeAll (stepWrites before))) ∧
    (∃ last, trees.replay (stepWrites steps) = .ok last ∧
      last.Stores (r.writeAll (stepWrites steps)) ∧ last.roots = final) ∧
    ∀ token,
      (r.writeAll (stepWrites steps)).circulating token +
          (steps.map fun step => step.transition.burned token).sum =
        r.circulating token + (steps.map fun step => step.transition.deposited token).sum ∧
      (r.writeAll (stepWrites steps)).burned token =
        r.burned token + (steps.map fun step => step.transition.burned token).sum := by
  -- on the steps, with the trees and records that the head leaves
  induction steps generalizing trees r with
  | nil =>
      cases hchain
      refine ⟨fun before step after h => ?_, ⟨trees, rfl, hstores, rfl⟩, fun token => ⟨rfl, rfl⟩⟩
      simp at h
  | cons head steps ih =>
      obtain _ | ⟨hhead, hrest⟩ := hchain
      have hsound := Step.sound hstores hc
        (Set.subset_union_left.trans Set.subset_union_left)
        (Set.subset_union_right.trans Set.subset_union_left) (hflags head List.mem_cons_self) hhead
      obtain ⟨next, hreplay, hnext, hroots⟩ := hsound.replay
      obtain ⟨hsteps, ⟨last, hlast, hstored, hfinal⟩, htotals⟩ := ih hnext (hroots ▸ hrest)
        (fun step hm => hflags step (List.mem_cons_of_mem _ hm)) (hc.mono Set.subset_union_right)
      -- replaying the head first leads to where the rest is replayed
      have hjoin {before : List Step} {current : StateTrees}
          (h : next.replay (stepWrites before) = .ok current) :
          trees.replay (stepWrites (head :: before)) = .ok current := by
        rw [stepWrites_cons, StateTrees.replay_append, hreplay]
        exact h
      simp only [stepWrites_cons, Records.writeAll_append]
      refine ⟨?_, ⟨last, stepWrites_cons head steps ▸ hjoin hlast, hstored, hfinal⟩, ?_⟩
      · intro before step after hsplit
        cases before with
        | nil =>
            obtain ⟨rfl, -⟩ := List.cons.inj hsplit
            exact ⟨trees, rfl, hstores, hsound⟩
        | cons first before =>
            obtain ⟨rfl, htail⟩ := List.cons.inj hsplit
            obtain ⟨current, hcurrent, hstored, hstep⟩ := hsteps before step after htail
            rw [stepWrites_cons, Records.writeAll_append, ← stepWrites_cons]
            exact ⟨current, hjoin hcurrent, hstored, hstep⟩
      · intro token
        have hcirculating := hsound.circulating token
        have hburned := hsound.burned token
        have htotal := htotals token
        simp only [List.map_cons, List.sum_cons]
        omega

/-! ## An instance

The step that opens a pool reads two balances by one witness, so its flags matter.  It is taken
from the state that the pools of `AmmRollup.Proofs.Rollup.Pools` are opened on, with a checker
that accepts the one signature, and nothing of the state's digests has to be computed again.
-/

namespace RollupState

/-- The opening of the pool as a step that anyone may check, where one signature alone is good:
that of the account, for this message. -/
def openingStep : Step where
  verifiers := { Verifiers.trusting with
    signatures := fun signer message signature =>
      some ⟨signer, message, signature⟩ = openingIntent.signed? }
  earlier := some (.start prepared.roots)
  transition := .createPool openingArgs
  outcome := Transition.sharedOutcome prepared.roots firstRecord.account openingArgs.poolWitness
    openingArgs.liquidityWitness openingArgs.balanceWitness ⟨openedPool, 3, 4, 6⟩

theorem openingStep_accepted : openingStep.transition.execute openingStep.verifiers
    prepared.trees.roots openingStep.earlier = .ok openingStep.outcome := by
  have hearlier : checkEarlier openingStep.verifiers prepared.roots openingStep.earlier = .ok () :=
    checkEarlier_start prepared.roots
  have hsigned : openingIntent.SignedUnder openingStep.verifiers :=
    fun signed h => decide_eq_true h.symm
  exact asked_opening.execute_of_vacant prepared_reachable.valid hearlier hsigned ⟨rfl, rfl⟩

/-- All that the step hashes stands in the trees. -/
theorem openingStep_collisionFree :
    CollisionFree (prepared.records.preimages ∪ openingStep.transition.preimages) := by
  refine .of_nodup (fun bytes h => List.mem_append_left _ ?_) nodup_history
  exact preimages_prepared (h.elim id fun h => preimages_opening h)

/-- Opening a pool moves tokens into its reserves, and makes or destroys none.  The step opens
two balances at once, with the flags that their paths call for. -/
theorem chain_conserves_opening :
    prepared.trees.Stores prepared.records ∧
      Chain prepared.trees.roots [openingStep] openingStep.outcome.roots ∧
      openingStep.transition.balanceOpening.Flagged ∧
      CollisionFree (stepPreimages prepared.records [openingStep]) ∧
      (∃ last, prepared.trees.replay (stepWrites [openingStep]) = .ok last ∧
        last.roots = openingStep.outcome.roots) ∧
      ∀ token, (prepared.records.writeAll (stepWrites [openingStep])).circulating token =
        prepared.records.circulating token := by
  have hstores := prepared_reachable.valid.stores
  have hchain : Chain prepared.trees.roots [openingStep] openingStep.outcome.roots :=
    .cons openingStep_accepted .nil
  have hflags : openingStep.transition.balanceOpening.Flagged := asked_opening.flagged
  have hc : CollisionFree (stepPreimages prepared.records [openingStep]) := by
    rw [stepPreimages, stepPreimages, Set.union_empty]
    exact openingStep_collisionFree
  obtain ⟨-, ⟨last, hreplay, -, hroots⟩, htotals⟩ := chain_conserves hstores hchain
    (fun step hs => List.mem_singleton.mp hs ▸ hflags) hc
  exact ⟨hstores, hchain, hflags, hc, ⟨last, hreplay, hroots⟩, fun token => (htotals token).1⟩

end RollupState

end AmmRollup
