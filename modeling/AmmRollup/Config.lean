import AmmRollup.Bytes32
import AmmRollup.Files.Path

/-!
# AmmRollup.Config

Settings of a node, and how they are read from the environment.  A variable that is
unset, or that holds nothing usable, leaves the default.
-/

namespace AmmRollup

/-- How a prover vouches for its proofs. -/
inductive ProverMode where
  /-- With a keyed digest, which is checked again on verification. -/
  | attest
  /-- Not at all: every proof verifies. -/
  | mock
deriving DecidableEq

/-- The mode that a word names in any case; any other word means `mock`. -/
def ProverMode.ofText (s : String) : ProverMode :=
  if s.toList.map Char.toLower = "attest".toList then .attest else .mock

/-- Settings of the prover. -/
structure ProverConfig where
  mode : ProverMode
  /-- The attestation key in hexadecimal. -/
  key : Option String
deriving DecidableEq

/-- Settings of a node. -/
structure Config where
  /-- The directory of the proofs and of the settlement file. -/
  dataDir : String
  prover : ProverConfig
  /-- How many merges may run at once. -/
  mergeParallelism : UInt64
  /-- The name of the settlement file in the directory. -/
  settlementState : String
deriving DecidableEq

namespace Config

/-- The settings of an empty environment. -/
def default : Config where
  dataDir := "./data"
  prover := ⟨.mock, none⟩
  mergeParallelism := 4
  settlementState := "settlement.json"

/-! ## Counts and paths -/

/-- Reads decimal digits, at least one of them. -/
def digits? (s : List Char) : Option Nat :=
  if s ≠ [] ∧ s.all Char.isDigit then
    some (s.foldl (fun n c => 10 * n + (c.toNat - 48)) 0)
  else none

/-- Reads a positive count: decimal digits after at most one plus sign. -/
def count? (s : String) : Option UInt64 :=
  let digits :=
    match s.toList with
    | '+' :: rest => rest
    | cs => cs
  match digits? digits with
  | some n => if 0 < n ∧ n < 1 <<< 64 then some (UInt64.ofNat n) else none
  | none => none

/-- The directory of the proof store. -/
def proofsDir (c : Config) : String := joinPath c.dataDir "proofs"

/-- The settlement file. -/
def settlementPath (c : Config) : String := joinPath c.dataDir c.settlementState

/-! ## Environment -/

/-- The environment variables that hold settings. -/
def variableNames : List String :=
  ["TIDEPOOL_DATA_DIR", "PROVER_MODE", "PROVER_KEY", "MERGE_PARALLELISM", "SETTLEMENT_STATE"]

/-- Reads the settings from a lookup of environment variables. -/
def ofEnvironment (lookup : String → Option String) : Config where
  dataDir := (lookup "TIDEPOOL_DATA_DIR").getD default.dataDir
  prover :=
    ⟨((lookup "PROVER_MODE").map ProverMode.ofText).getD .mock, lookup "PROVER_KEY"⟩
  mergeParallelism := ((lookup "MERGE_PARALLELISM").bind count?).getD default.mergeParallelism
  settlementState := (lookup "SETTLEMENT_STATE").getD default.settlementState

end Config

end AmmRollup
