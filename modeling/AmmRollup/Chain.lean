import AmmRollup.Failure
import AmmRollup.Prover

/-!
# AmmRollup.Chain

A chain of proofs, each proven on top of the last and kept in a store.  A step that is
refused, or whose proof cannot be kept, leaves the chain where it was.

The next index is a natural number, so a chain never runs out of steps.  A 64-bit number
stands for it in chains of fewer than `2 ^ 64` proofs.
-/

namespace AmmRollup

/-- A chain of proofs: the prover of its next step, its last proof, and the index at which
the next one is kept. -/
structure ProofChain where
  prover : Prover
  last : Proof
  nextIndex : Nat

namespace ProofChain

variable {m : Type → Type} [Monad m]

/-- Starts a chain at some roots. -/
def genesis (store : ProofStore m) (prover : Prover) (roots : StateRoots) :
    ExceptT Failure m ProofChain := do
  match prover.prove roots none .genesis with
  | .error e => throw ⟨[.proveGenesis], .prover e⟩
  | .ok proof =>
      (store.put 0 proof).adapt fun e => ⟨[.storeGenesis], .store e⟩
      return ⟨prover, proof, 1⟩

/-- Goes on from the last proof of a store. -/
def resume (store : ProofStore m) (prover : Prover) : ExceptT Failure m ProofChain := do
  let count ← store.proofCount.adapt fun e => .of (.store e)
  if count = 0 then
    throw (.of .emptyStore)
  let last ← (store.get (count - 1)).adapt fun e => ⟨[.loadProof (count - 1)], .store e⟩
  return ⟨prover, last, count⟩

/-- Proves a step on top of the last proof, and keeps its proof. -/
def push (store : ProofStore m) (chain : ProofChain) (t : Transition) :
    ExceptT Failure m ProofChain := do
  match chain.prover.prove chain.last.output (some chain.last) t with
  | .error e => throw ⟨[.proveStep t.method chain.nextIndex], .prover e⟩
  | .ok proof =>
      (store.put chain.nextIndex proof).adapt fun e => ⟨[.storeProof chain.nextIndex], .store e⟩
      return { chain with last := proof, nextIndex := chain.nextIndex + 1 }

/-- The roots after the last step. -/
def roots (chain : ProofChain) : StateRoots := chain.last.output

end ProofChain

end AmmRollup
