import AmmRollup.Merger
import AmmRollup.Store.File

/-!
# AmmRollup.Proposer

One run of the proposer over a node's directory: it joins the proofs past the last
settlement, settles the merged proof if it starts at the settled roots, keeps the
settlement, and opens the next window behind it.

The files are written one after the other, settlement first, so a run that stops in between
leaves the settled roots at the start or at the end of the merged proof.  The next run joins
the proofs that were stored meanwhile before it looks at the settled roots.  It settles
everything if these are still the start or the end of what it has joined, as they are when
nothing was stored meanwhile (`Directory.perform_run_interrupted`).  Else they lie inside
it, the run finds it stale and leaves the window open: not every run that stops is made good
by the next (`Directory.not_all_interrupted_settle`).
-/

namespace AmmRollup

namespace Proposer

/-- A program over files that may fail. -/
abbrev Run (α : Type) := ExceptT Failure FileProgram α

/-- The settlement that a file holds; without a file nothing was settled. -/
def loadSettlement (path : String) : Run Settlement := do
  match ← FileProgram.readFile path with
  | .error .missing => return .initial
  | .error .refused => throw ⟨[.readFile path], .file⟩
  | .ok contents =>
      match Json.read? contents with
      | some settlement => return settlement
      | none => throw ⟨[.parseFile path], .malformed⟩

/-- Replaces the settlement in a file. -/
def saveSettlement (path : String) (settlement : Settlement) : Run Unit := do
  match ← FileProgram.replaceFile path (Json.prettyBytes settlement) with
  | .ok () => return ()
  | .error .temporary => throw ⟨[.writeFile (temporaryPath path)], .file⟩
  | .error .target => throw ⟨[.replaceFile path], .file⟩

/-- What a merged proof means for the settlement. -/
inductive Step where
  /-- The proof moves the settlement. -/
  | advanced (settlement : Settlement)
  /-- The settlement already stands at its end. -/
  | current
  /-- The proof starts elsewhere. -/
  | stale
deriving DecidableEq

/-- Settles a merged proof that starts at the settled roots and does not end there. -/
def settle (prover : Prover) (settlement : Settlement) (merged : Proof) :
    Except Failure Step :=
  if merged.output = settlement.roots then .ok .current
  else if merged.input ≠ settlement.roots then .ok .stale
  else
    match (Settlement.settle prover.verify merged).run.run settlement with
    | (.ok _, settlement) => .ok (.advanced settlement)
    | (.error e, _) => .error ⟨[.settleMerged], .settlement e⟩

/-- One run.  Joining checks proofs only, so its prover knows no keys of users. -/
def run (c : Config) : Run Unit := do
  (FileStore.openAt c.proofsDir).adapt fun e => ⟨[.openStore], .store e⟩
  let store := ProofStore.files c.proofsDir
  let prover := Prover.ofConfig c.prover KeyRegistry.empty.verify
  let pending ← (Merger.mergePending store prover).adapt (·.within .mergeProofs)
  let some merged := pending
    | discard <| store.settledUntil.adapt fun e => .of (.store e)
  let window ← store.mergedWindow.adapt fun e => .of (.store e)
  let settlement ← loadSettlement c.settlementPath
  match ← ofExcept (settle prover settlement merged) with
  | .stale => return ()
  | .current => close store window
  | .advanced settlement =>
      saveSettlement c.settlementPath settlement
      close store window
where
  /-- Marks a window as settled, and opens the next one behind it. -/
  close (store : ProofStore FileProgram) (window : Window) : Run Unit := do
    (store.setSettledUntil window.stop).adapt fun e => .of (.store e)
    Merger.startMerge store window.stop

end Proposer

end AmmRollup
