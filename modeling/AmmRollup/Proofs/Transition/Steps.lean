import AmmRollup.Proofs.Transition.Balance

/-!
# AmmRollup.Proofs.Transition.Steps

Accepted steps, whoever made them, and chains of them.  The core trusts no one: witnesses,
claimed values, amounts and signatures are arbitrary, and a step is judged against four
roots alone.  If digests do not collide, an accepted step nevertheless claims exactly
what stands in the trees, the roots it gives are those of the trees after its writes,
and it makes or destroys no token (`Step.sound`).

Merge flags are not derived from the paths of a double witness but taken as they are,
so the steps are assumed to carry the flags that their paths call for.
-/

namespace AmmRollup

/-- A step that was executed, by whatever it was checked with, and what it gave. -/
structure Step where
  verifiers : Verifiers
  earlier : Option Proof
  transition : Transition
  outcome : Outcome

/-- Steps that were accepted one after another, each on the roots that the last one gave. -/
inductive Chain : StateRoots → List Step → StateRoots → Prop
  | nil {roots : StateRoots} : Chain roots [] roots
  | cons {roots final : StateRoots} {step : Step} {steps : List Step}
      (head : step.transition.execute step.verifiers roots step.earlier = .ok step.outcome)
      (rest : Chain step.outcome.roots steps final) : Chain roots (step :: steps) final

/-- Chains that meet are one chain. -/
theorem Chain.append {start middle final : StateRoots} {before after : List Step}
    (h : Chain start before middle) (h' : Chain middle after final) :
    Chain start (before ++ after) final := by
  induction h with
  | nil => exact h'
  | cons head rest ih => exact .cons head (ih h')

/-- Everything that steps write, in order. -/
def stepWrites (steps : List Step) : List LeafWrite := steps.flatMap fun step => step.outcome.writes

theorem stepWrites_cons (step : Step) (steps : List Step) :
    stepWrites (step :: steps) = step.outcome.writes ++ stepWrites steps := rfl

/-- What a chain of steps hashes: the trees that each step runs on, and the claims that it
checks against them. -/
def stepPreimages (r : Records) : List Step → Set Bytes
  | [] => ∅
  | step :: steps =>
      r.preimages ∪ step.transition.preimages ∪
        stepPreimages (r.writeAll step.outcome.writes) steps

/-- What it means for a step to be sound on trees with some records behind their leaves. -/
structure Step.Sound (step : Step) (trees : StateTrees) (r : Records) : Prop where
  /-- The claimed values are the records at the indexes of the witnesses. -/
  claims : step.transition.Holds r
  /-- Writing the leaves that it gives into the trees leads to the roots that it gives. -/
  replay : ∃ next, trees.replay step.outcome.writes = .ok next ∧
    next.Stores (r.writeAll step.outcome.writes) ∧ next.roots = step.outcome.roots
  /-- Of every token, what circulates grows by what is deposited and shrinks by what is
  burned. -/
  circulating : ∀ token,
    (r.writeAll step.outcome.writes).circulating token + step.transition.burned token =
      r.circulating token + step.transition.deposited token
  /-- Of every token, the burn records grow by what is burned. -/
  burned : ∀ token, (r.writeAll step.outcome.writes).burned token =
    r.burned token + step.transition.burned token

variable {r : Records} {trees : StateTrees} {step : Step}

/-- A step that is accepted on the roots of some trees is sound on them. -/
theorem Step.sound (hstores : trees.Stores r) {hashed : Set Bytes} (hc : CollisionFree hashed)
    (hr : r.preimages ⊆ hashed) (ht : step.transition.preimages ⊆ hashed)
    (hflags : step.transition.balanceOpening.Flagged)
    (h : step.transition.execute step.verifiers trees.roots step.earlier = .ok step.outcome) :
    step.Sound trees r := by
  rw [hstores.roots_eq, Transition.execute_eq_ok_iff] at h
  obtain ⟨-, hfits, -, ⟨hfolds, -⟩, houtcome⟩ := h
  obtain ⟨hholds, hopens⟩ := Transition.holds_of_foldsTo hc hr ht hfits hflags hfolds
  have htotals := Transition.outcome_totals hstores.finite hfits hholds houtcome
  exact ⟨hholds, Transition.outcome_replay hstores hfits hopens houtcome,
    fun token => (htotals token).1, fun token => (htotals token).2⟩

/-- The witness of the first leaf of unwritten balances. -/
def firstWitness : Witness := ⟨(Tree.empty (balancesHeight - 1)).path 0⟩

/-- A first deposit on unwritten trees, under verifiers that accept everything. -/
def firstDeposit : Step where
  verifiers := .trusting
  earlier := some (.start StateTrees.empty.roots)
  transition :=
    .deposit ⟨firstWitness, firstRecord, none, emptyLeaf, nextDepositHead emptyLeaf firstRecord⟩
  outcome := {
    roots := { StateTrees.empty.roots with
      balances := firstWitness.root (Record.leaf firstRecord) }
    writes := [⟨firstWitness.index, .balance firstRecord⟩] }

theorem firstWitness_opens : firstWitness.Opens (leavesOf Records.empty.balances)
    (balancesHeight - 1) :=
  (Tree.over_empty _).opens_witness (by decide)

theorem firstDeposit_accepted :
    Chain StateTrees.empty.roots [firstDeposit] firstDeposit.outcome.roots := by
  have hfits : firstDeposit.transition.Fits :=
    ⟨(Tree.over_empty _).length_path (by decide), trivial, trivial, trivial⟩
  have hfolds : firstDeposit.transition.FoldsTo StateTrees.empty.roots := by
    rw [StateTrees.stores_empty.roots_eq]
    exact Transition.foldsTo_of_holds hfits ⟨rfl, trivial, trivial, trivial⟩
      ⟨firstWitness_opens, trivial, trivial, trivial⟩
  refine .cons (Transition.execute_eq_ok_iff.mpr ⟨fun _ => ?_, hfits, rfl, ⟨hfolds, rfl⟩, ?_⟩) .nil
  · simp [firstDeposit, checkEarlier, Proof.start, Verifiers.trusting]
  · rfl

end AmmRollup
