import AmmRollup.Proof

/-!
# AmmRollup.Store.Basic

Where proofs are kept.  A store holds the proof of every step by its index, a single
merged proof that stands for a window of steps, and a mark up to which the steps are
settled.  What a store answers is the same whether it lives in memory or in files, so a
store is a record of operations in any monad.
-/

namespace AmmRollup

/-- Why a proof store refuses a call. -/
inductive StoreError where
  /-- There is no proof at the index. -/
  | notFound (index : Nat)
  /-- The merged proof cannot end where it was asked to. -/
  | window (start stop requested : Nat)
  /-- A file cannot be read or written. -/
  | io
  /-- A file does not hold what it should. -/
  | codec
deriving DecidableEq

/-- The wording of an error, where it is the store's own. -/
def StoreError.message? : StoreError → Option String
  | .notFound index => some s!"no proof stored at index {index}"
  | .window start stop requested =>
      some s!"merge window {start}..{stop} cannot move to {requested}"
  | .io | .codec => none

/-! ## Windows -/

/-- The steps from `start` up to but not including `stop`. -/
structure Window where
  start : Nat
  stop : Nat
deriving DecidableEq

namespace Window

/-- Whether a window holds any step. -/
def nonempty (w : Window) : Bool := w.start < w.stop

/-- Refuses an end that would leave the window empty. -/
def checkStop (w : Window) (stop : Nat) : Except StoreError Unit :=
  if stop ≤ w.start then .error (.window w.start w.stop stop) else .ok ()

end Window

/-! ## Stores -/

/-- The operations of a proof store. -/
structure ProofStore (m : Type → Type) where
  /-- The proof of a step. -/
  get : (index : Nat) → ExceptT StoreError m Proof
  /-- Keeps the proof of a step, in place of any earlier one. -/
  put : (index : Nat) → Proof → ExceptT StoreError m Unit
  /-- The merged proof, while its window holds any step. -/
  getMerged : ExceptT StoreError m (Option Proof)
  /-- Keeps a merged proof that reaches up to `stop`. -/
  putMerged : Proof → (stop : Nat) → ExceptT StoreError m Unit
  /-- Drops the merged proof and opens an empty window at a step. -/
  startMerge : (start : Nat) → ExceptT StoreError m Unit
  /-- One more than the highest index of a proof. -/
  proofCount : ExceptT StoreError m Nat
  /-- The steps that the merged proof stands for. -/
  mergedWindow : ExceptT StoreError m Window
  /-- The steps below are settled. -/
  settledUntil : ExceptT StoreError m Nat
  /-- Marks the steps below `stop` as settled. -/
  setSettledUntil : (stop : Nat) → ExceptT StoreError m Unit

end AmmRollup
