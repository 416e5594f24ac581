import AmmRollup.FinMap
import AmmRollup.Merkle.Witness
import AmmRollup.Roots

/-!
# AmmRollup.Bridge

The base ledger's side of deposits and withdrawals.  A deposit is first taken into
custody and recorded; recorded deposits are later applied, which links them in order
to a hash chain that the rollup replays.  A withdrawal pays the difference between
what an account has burned, proven against settled roots, and what it was already
paid, proven against the tree of withdrawals, of which only the root is kept.

Calls work on the bridge in place (`Bridge.Update`).  One that is refused leaves a bridge
too, with whatever it had changed by then; that this is nothing is proved of each of them
(`Bridge.fulfil_refused`).
-/

namespace AmmRollup

/-- A claim to what an account has burned of a token and was not yet paid. -/
structure WithdrawRequest where
  withdrawer : Address
  token : Token
  burnWitness : Witness
  withdrawalWitness : Witness
  totalWithdrawn : Option Amount
  totalBurned : Amount
deriving DecidableEq

/-- What the bridge reports, in the order of the calls. -/
inductive BridgeEvent where
  /-- A deposit was taken into custody; `head` covers every recorded deposit. -/
  | depositRecorded (deposit : AccountRecord) (head : Bytes32)
  /-- Recorded deposits were applied; `head` covers every applied one. -/
  | depositsApplied (count : UInt64) (head : Bytes32)
  /-- A withdrawal was paid; `total` is what the account was paid so far. -/
  | withdrawn (withdrawer : Address) (token : Token) (amount total : Amount)
deriving DecidableEq

/-- Why the bridge refuses a call. -/
inductive BridgeError where
  /-- A witness does not fit its tree. -/
  | invalidWitness (cause : MerkleError)
  /-- The two witnesses of a withdrawal stand at different leaves. -/
  | indexMismatch
  /-- More was paid than burned. -/
  | underflow
  /-- Custody does not fit an amount. -/
  | overflow
  /-- A root or a head of the deposit chain is another. -/
  | stateMismatch (tree : StateTree)
  /-- Custody does not cover the payment. -/
  | insufficientCustody (requested available : Amount)
  /-- The rollup replayed deposits that were not applied. -/
  | unappliedDeposits (consumed applied : Nat)
deriving DecidableEq

/-- The wording of an error. -/
def BridgeError.message : BridgeError → String
  | .invalidWitness cause => s!"invalid witness: {cause.message}"
  | .indexMismatch => "burn and withdrawal witnesses point at different leaves"
  | .underflow => "withdrawn total exceeds burned total"
  | .overflow => "custody overflow"
  | .stateMismatch tree => s!"{tree.name} root does not match the supplied witness"
  | .insufficientCustody requested available =>
      s!"custody holds {available.toNat}, withdrawal needs {requested.toNat}"
  | .unappliedDeposits consumed applied =>
      s!"rollup consumed {consumed} deposits, bridge applied {applied}"

/-- The bridge. -/
structure Bridge where
  /-- The head over every recorded deposit. -/
  recordedHead : Bytes32
  /-- Recorded deposits that are not applied. -/
  pending : List AccountRecord
  /-- Applied deposits, oldest first. -/
  applied : List AccountRecord
  /-- The head after each applied deposit. -/
  appliedHeads : List Bytes32
  /-- The root of the tree of withdrawal totals. -/
  withdrawalsRoot : Bytes32
  /-- What is held of each token. -/
  held : FinMap Token Amount
  /-- Everything reported so far. -/
  events : List BridgeEvent

namespace Bridge

/-- The bridge before any call. -/
def initial : Bridge where
  recordedHead := emptyLeaf
  pending := []
  applied := []
  appliedHeads := []
  withdrawalsRoot := emptyRoot withdrawalsHeight
  held := ∅
  events := []

/-! ## Reading -/

/-- The amount held of a token. -/
def custody (b : Bridge) (token : Token) : Amount := (b.held.get? token).getD 0

/-- The head of the chain after the first `count` applied deposits. -/
def headAt (b : Bridge) : Nat → Option Bytes32
  | 0 => some emptyLeaf
  | n + 1 => b.appliedHeads[n]?

/-- The head of the chain of applied deposits. -/
def depositHead (b : Bridge) : Bytes32 := (b.headAt b.applied.length).getD emptyLeaf

/-- Checks that `consumed` replayed deposits ending at `head` are the first applied ones. -/
def checkConsumed (b : Bridge) (consumed : Nat) (head : Bytes32) : Except BridgeError Unit :=
  match b.headAt consumed with
  | none => .error (.unappliedDeposits consumed b.applied.length)
  | some applied => if applied = head then .ok () else .error (.stateMismatch .deposits)

/-! ## Calls -/

/-- A call that changes the bridge, and may be refused.  What it changed before stays. -/
abbrev Update (α : Type) := ExceptT BridgeError (StateM Bridge) α

/-- Reports an event, and answers with it. -/
def report (event : BridgeEvent) : Update BridgeEvent := do
  modify fun b => { b with events := b.events ++ [event] }
  return event

/-! ## Deposits -/

/-- Takes a deposit into custody and records it. -/
def deposit (depositor : Address) (token : Token) (amount : Amount) : Update BridgeEvent := do
  let total := ((← get).custody token).toNat + amount.toNat
  if 1 <<< 64 ≤ total then
    throw .overflow
  let deposit : AccountRecord := ⟨depositor, token, amount⟩
  modify fun b => { b with held := b.held.insert token (UInt64.ofNat total) }
  modify fun b => { b with recordedHead := nextDepositHead b.recordedHead deposit }
  modify fun b => { b with pending := b.pending ++ [deposit] }
  report (.depositRecorded deposit (← get).recordedHead)

/-- The heads after each of several deposits, from the head before them. -/
def headsFrom (head : Bytes32) : List AccountRecord → List Bytes32
  | [] => []
  | d :: ds => nextDepositHead head d :: headsFrom (nextDepositHead head d) ds

/-- Applies every pending deposit, in the order they were recorded. -/
def applyDeposits (b : Bridge) : Bridge × BridgeEvent :=
  let heads := headsFrom b.depositHead b.pending
  let event :=
    BridgeEvent.depositsApplied (UInt64.ofNat b.pending.length) (heads.getLastD b.depositHead)
  ({ b with
    pending := []
    applied := b.applied ++ b.pending
    appliedHeads := b.appliedHeads ++ heads
    events := b.events ++ [event] }, event)

/-! ## Withdrawals -/

/-- The leaf of a withdrawal total, which may never have been written. -/
def withdrawalLeaf (r : WithdrawRequest) : Bytes32 :=
  Record.leafOrEmpty (r.totalWithdrawn.map (AccountRecord.mk r.withdrawer r.token))

/-- The leaf that both the burn total and the new withdrawal total have. -/
def burnedLeaf (r : WithdrawRequest) : Bytes32 :=
  Record.leaf (AccountRecord.mk r.withdrawer r.token r.totalBurned)

/-- What a request is worth, once its witnesses, totals and roots are in order. -/
def payable (b : Bridge) (settled : StateRoots) (r : WithdrawRequest) :
    Except BridgeError Amount := do
  (r.burnWitness.checkHeight burnsHeight).mapError .invalidWitness
  (r.withdrawalWitness.checkHeight withdrawalsHeight).mapError .invalidWitness
  if r.burnWitness.index ≠ r.withdrawalWitness.index then
    throw .indexMismatch
  let paid := r.totalWithdrawn.getD 0
  if r.totalBurned < paid then
    throw .underflow
  if r.burnWitness.root (burnedLeaf r) ≠ settled.burns then
    throw (.stateMismatch .burns)
  if r.withdrawalWitness.root (withdrawalLeaf r) ≠ b.withdrawalsRoot then
    throw (.stateMismatch .withdrawals)
  return r.totalBurned - paid

/-- Pays what was burned and not yet paid, against the settled roots. -/
def withdraw (settled : StateRoots) (r : WithdrawRequest) : Update BridgeEvent := do
  let amount ← ofExcept ((← get).payable settled r)
  let available := (← get).custody r.token
  if available < amount then
    throw (.insufficientCustody amount available)
  modify fun b => { b with withdrawalsRoot := r.withdrawalWitness.root (burnedLeaf r) }
  modify fun b => { b with held := b.held.insert r.token (available - amount) }
  report (.withdrawn r.withdrawer r.token amount r.totalBurned)

end Bridge

end AmmRollup
