import AmmRollup.FinMap
import AmmRollup.Store.Basic

/-!
# AmmRollup.Store.Memory

The proof store that lives in memory.  Apart from a missing proof and a window that
cannot move, its operations never fail.

Indexes are natural numbers here, so the count of the proofs has no largest value.  As a
64-bit number it has one, and stands for `proofCount` as long as no proof is kept at index
`2 ^ 64 - 1`.
-/

namespace AmmRollup

/-- The contents of a proof store. -/
structure MemoryStore where
  proofs : FinMap Nat Proof
  merged : Option Proof
  window : Window
  settledUntil : Nat

namespace MemoryStore

/-- The store that holds nothing. -/
def empty : MemoryStore := ⟨∅, none, ⟨0, 0⟩, 0⟩

/-- The proof of a step. -/
def get (s : MemoryStore) (index : Nat) : Except StoreError Proof :=
  match s.proofs.get? index with
  | some proof => .ok proof
  | none => .error (.notFound index)

/-- Keeps the proof of a step. -/
def put (s : MemoryStore) (index : Nat) (proof : Proof) : MemoryStore :=
  { s with proofs := s.proofs.insert index proof }

/-- The merged proof, while its window holds any step. -/
def getMerged (s : MemoryStore) : Option Proof :=
  if s.window.nonempty then s.merged else none

/-- Keeps a merged proof that reaches up to `stop`. -/
def putMerged (s : MemoryStore) (proof : Proof) (stop : Nat) : Except StoreError MemoryStore := do
  s.window.checkStop stop
  return { s with merged := some proof, window := { s.window with stop } }

/-- Drops the merged proof and opens an empty window at a step. -/
def startMerge (s : MemoryStore) (start : Nat) : MemoryStore :=
  { s with merged := none, window := ⟨start, start⟩ }

/-- One more than the highest index of a proof, however high that is. -/
def proofCount (s : MemoryStore) : Nat :=
  s.proofs.entries.foldr (fun entry count => max (entry.1 + 1) count) 0

end MemoryStore

/-- The operations on a store in memory. -/
def ProofStore.memory : ProofStore (StateM MemoryStore) where
  get index := do ofExcept ((← getThe MemoryStore).get index)
  put index proof := modify (·.put index proof)
  getMerged := do return (← getThe MemoryStore).getMerged
  putMerged proof stop := do set (← ofExcept ((← getThe MemoryStore).putMerged proof stop))
  startMerge start := modify (·.startMerge start)
  proofCount := do return (← getThe MemoryStore).proofCount
  mergedWindow := do return (← getThe MemoryStore).window
  settledUntil := do return (← getThe MemoryStore).settledUntil
  setSettledUntil stop := modify fun s => { s with settledUntil := stop }

end AmmRollup
