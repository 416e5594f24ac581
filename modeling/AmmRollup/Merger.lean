import AmmRollup.Failure
import AmmRollup.Prover

/-!
# AmmRollup.Merger

Joining the proofs of consecutive steps into one.  A list of proofs can be joined from
left to right (`fold`), or in rounds that join neighbours (`reduce`).  `mergePending`
joins the proofs of a store that its merged proof does not reach yet, one by one, and
keeps every result as it goes.

A run that fails keeps what it has joined, and the next one goes on from there.  One that is
cut off between the two writes of a result, the merged proof and the end of its window,
leaves the merged proof a step ahead.  The next run then joins that step once more, which is
refused unless the step leads nowhere (`FileStore.perform_mergePending_stopped`): not every
run that was cut off can be gone on from (`Directory.not_all_stopped_resume`).
-/

namespace AmmRollup

namespace Merger

/-- Joins two proofs, the second after the first. -/
def mergeTwo (prover : Prover) (first second : Proof) : Except Failure Proof :=
  (prover.merge first.input first second).mapError fun e => .of (.prover e)

/-- Joins a list of proofs from left to right. -/
def fold (prover : Prover) : List Proof → Except Failure Proof
  | [] => .error (.of .nothingToMerge)
  | first :: rest => rest.foldlM (mergeTwo prover) first

/-! ## Rounds -/

/-- A list in batches of `size`, the last one shorter; a size of zero counts as one. -/
def batches {α : Type} (size : Nat) : List α → List (List α)
  | [] => []
  | x :: xs => (x :: xs.take (size - 1)) :: batches size (xs.drop (size - 1))
termination_by xs => xs.length
decreasing_by
  have := xs.length_drop (i := size - 1)
  rw [List.length_cons]
  omega

/-- Pairs of neighbours, and the last element if it has no partner. -/
def neighbours {α : Type} : List α → List (α × α) × Option α
  | [] => ([], none)
  | [x] => ([], some x)
  | x :: y :: rest =>
      let (pairs, last) := neighbours rest
      ((x, y) :: pairs, last)

/-- Joins every pair of neighbours, at most `parallelism` pairs at a time. -/
def round (prover : Prover) (parallelism : Nat) (proofs : List Proof) :
    Except Failure (List Proof) := do
  let (pairs, last) := neighbours proofs
  let merged ← (batches parallelism pairs).mapM (·.mapM fun pair => mergeTwo prover pair.1 pair.2)
  return merged.flatten ++ last.toList

/-- Runs rounds until one proof is left, `fuel` rounds at most. -/
def rounds (prover : Prover) (parallelism : Nat) :
    (fuel : Nat) → List Proof → Except Failure Proof
  | _, [] => .error (.of .nothingToMerge)
  | _, [proof] => .ok proof
  | 0, _ => .error (.of .nothingToMerge)
  | fuel + 1, proofs => do rounds prover parallelism fuel (← round prover parallelism proofs)

/-- Joins a list of proofs in rounds; each round at least removes one proof. -/
def reduce (prover : Prover) (parallelism : Nat) (proofs : List Proof) : Except Failure Proof :=
  rounds prover parallelism proofs.length proofs

/-! ## Stores -/

variable {m : Type → Type} [Monad m]

/-- Opens an empty window at a step. -/
def startMerge (store : ProofStore m) (start : Nat) : ExceptT Failure m Unit :=
  (store.startMerge start).adapt fun e => ⟨[.startMerge start], .store e⟩

/-- The proof of a step. -/
def load (store : ProofStore m) (index : Nat) : ExceptT Failure m Proof :=
  (store.get index).adapt fun e => ⟨[.loadProof index], .store e⟩

/-- Joins the proofs of `count` steps from `stop` on to a merged proof, and keeps each result. -/
def extend (store : ProofStore m) (prover : Prover) (merged : Proof) (stop : Nat) :
    (count : Nat) → ExceptT Failure m Proof
  | 0 => return merged
  | count + 1 => do
      let proof ← load store stop
      let merged ← ofExcept ((mergeTwo prover merged proof).mapError (·.within (.mergeProof stop)))
      (store.putMerged merged (stop + 1)).adapt fun e => .of (.store e)
      extend store prover merged (stop + 1) count

/-- Joins all kept proofs from the start of the window on; none if there are none. -/
def mergePending (store : ProofStore m) (prover : Prover) : ExceptT Failure m (Option Proof) := do
  let count ← store.proofCount.adapt fun e => .of (.store e)
  let window ← store.mergedWindow.adapt fun e => .of (.store e)
  if count ≤ window.start then
    return none
  match ← store.getMerged.adapt fun e => .of (.store e) with
  | some merged => return some (← extend store prover merged window.stop (count - window.stop))
  | none =>
      let first ← load store window.start
      let stop := window.start + 1
      (store.putMerged first stop).adapt fun e => .of (.store e)
      return some (← extend store prover first stop (count - stop))

end Merger

end AmmRollup
