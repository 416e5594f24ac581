import AmmRollup.Bridge
import AmmRollup.Rollup.Table
import AmmRollup.Settlement
import AmmRollup.Store.Basic
import AmmRollup.Transition.Basic

/-!
# AmmRollup.Failure

Failures of a node: a cause, and what the node was doing when it met it, from the
outermost undertaking to the innermost.
-/

namespace AmmRollup

/-- What made a node fail. -/
inductive Cause where
  /-- The pair has no pool. -/
  | noPool
  /-- The account has burned nothing of the token. -/
  | notBurned (owner : Address)
  /-- There is no proof to resume a chain from. -/
  | emptyStore
  /-- There is no proof to merge. -/
  | nothingToMerge
  /-- A step or a merge was refused. -/
  | transition (cause : TransitionError)
  /-- The prover refused a step or a merge. -/
  | prover (cause : TransitionError)
  | state (cause : StateError)
  | bridge (cause : BridgeError)
  | store (cause : StoreError)
  | settlement (cause : SettlementError)
  /-- A file cannot be read or written. -/
  | file
  /-- A file does not hold what it should. -/
  | malformed
deriving DecidableEq

/-- What a node was doing. -/
inductive Undertaking where
  | proveGenesis
  | storeGenesis
  | loadProof (index : Nat)
  | proveStep (method : Method) (index : Nat)
  | storeProof (index : Nat)
  | execute (method : Method)
  | commit (method : Method)
  | compareDeposits
  | distinctTokens
  | mergeProof (index : Nat)
  | startMerge (index : Nat)
  | openStore
  | mergeProofs
  | settleMerged
  | parseFile (path : String)
  | readFile (path : String)
  | writeFile (path : String)
  | replaceFile (path : String)
deriving DecidableEq

/-- The wording of an undertaking that failed. -/
def Undertaking.message : Undertaking → String
  | .proveGenesis => "Failed to prove genesis"
  | .storeGenesis => "Failed to store genesis proof"
  | .loadProof index => s!"Failed to load proof {index}"
  | .proveStep method index => s!"Failed to prove {method.name} step {index}"
  | .storeProof index => s!"Failed to store proof {index}"
  | .execute method => s!"{method.name} rejected"
  | .commit method => s!"Failed to commit {method.name}"
  | .compareDeposits => "Replayed deposits diverge from the bridge"
  | .distinctTokens => "Base and quote tokens must differ"
  | .mergeProof index => s!"Failed to merge proof {index}"
  | .startMerge index => s!"Failed to start merge at {index}"
  | .openStore => "Failed to open proof store"
  | .mergeProofs => "Failed to merge proofs"
  | .settleMerged => "Settlement rejected merged proof"
  | .parseFile path => s!"Failed to parse {path}"
  | .readFile path => s!"Failed to read {path}"
  | .writeFile path => s!"Failed to write {path}"
  | .replaceFile path => s!"Failed to replace {path}"

/-- A cause, and the undertakings it ended, outermost first. -/
structure Failure where
  during : List Undertaking
  cause : Cause
deriving DecidableEq

/-! ## Wording -/

/-- The wordings of a refused step: its own, and that of a witness that does not fit. -/
def TransitionError.messages (e : TransitionError) : List String :=
  match e with
  | .invalidWitness cause => [e.message, cause.message]
  | _ => [e.message]

/-- The wordings of a refused call of the bridge: its own, and that of a witness that does not
fit. -/
def BridgeError.messages (e : BridgeError) : List String :=
  match e with
  | .invalidWitness cause => [e.message, cause.message]
  | _ => [e.message]

/-- The prover's wording of a refusal. -/
def TransitionError.proverMessage (e : TransitionError) : String :=
  s!"transition rejected: {e.message}"

/-- The wordings of a cause and of what lies behind it. -/
def Cause.messages : Cause → List String
  | .noPool => ["No pool for this pair"]
  | .notBurned owner => [s!"{owner.text} has not burned this token"]
  | .emptyStore => ["Proof store is empty, start a chain with genesis"]
  | .nothingToMerge => ["Nothing to merge"]
  | .transition e => e.messages
  | .prover e => e.proverMessage :: e.messages
  | .state e => [e.message]
  | .bridge e => e.messages
  | .store e => e.message?.toList
  | .settlement e => [e.message]
  | .file | .malformed => []

/-- The wordings of a failure, outermost first. -/
def Failure.messages (f : Failure) : List String :=
  f.during.map Undertaking.message ++ f.cause.messages

/-! ## Raising and passing on -/

/-- A failure met during nothing in particular. -/
def Failure.of (cause : Cause) : Failure := ⟨[], cause⟩

/-- Passes a failure on, noting what it ended. -/
def Failure.within (u : Undertaking) (f : Failure) : Failure := ⟨u :: f.during, f.cause⟩

end AmmRollup
