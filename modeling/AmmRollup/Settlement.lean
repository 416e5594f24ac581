import AmmRollup.Proof

/-!
# AmmRollup.Settlement

The base ledger's record of the rollup: the last accepted roots.  They move along one
verified proof at a time, and only with a proof that starts where they stand.  The record
is changed in place, and is there after a proof that was refused as well.
-/

namespace AmmRollup

/-- The accepted roots, and how many proofs led to them. -/
structure Settlement where
  roots : StateRoots
  settlements : UInt64
deriving DecidableEq

/-- Why a proof is not settled. -/
inductive SettlementError where
  /-- The proof starts at other roots than the accepted ones. -/
  | stateMismatch (settled input : StateRoots)
  /-- The proof does not verify. -/
  | invalidProof
deriving DecidableEq

/-- The wording of an error. -/
def SettlementError.message : SettlementError → String
  | .stateMismatch settled input =>
      s!"proof starts at {input.short}, settled roots are {settled.short}"
  | .invalidProof => "proof failed verification"

namespace Settlement

/-- The record that accepted `roots` without a proof. -/
def ofRoots (roots : StateRoots) : Settlement := ⟨roots, 0⟩

/-- The record at four unwritten trees. -/
def initial : Settlement := ofRoots .empty

/-- Accepts a proof that starts at the roots and verifies; answers with the roots it moves to. -/
def settle (verifies : Proof → Bool) (proof : Proof) :
    ExceptT SettlementError (StateM Settlement) StateRoots := do
  let settled := (← get).roots
  if proof.input ≠ settled then
    throw (.stateMismatch settled proof.input)
  unless verifies proof do
    throw .invalidProof
  modify fun s => { s with roots := proof.output }
  modify fun s => { s with settlements := s.settlements + 1 }
  return (← get).roots

end Settlement

end AmmRollup
