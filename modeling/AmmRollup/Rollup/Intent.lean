import AmmRollup.Failure
import AmmRollup.Rollup.State
import AmmRollup.Transition.Execute

/-!
# AmmRollup.Rollup.Intent

What users ask for, and how the state turns it into a step.  Building a step reads
the witnesses and prior values from the tables.  It binds the leaves that the step
will write, and they stay bound whether or not the step is built, accepted or ever
executed.
-/

namespace AmmRollup

/-- What a user, or the bridge, asks the rollup to do. -/
inductive Intent where
  | deposit (deposit : AccountRecord)
  | burn (owner : Address) (token : Token) (amount : Amount) (signature : Ed25519.Signature)
  | createPool (provider : Address) (base quote : Token) (baseAmount quoteAmount : Amount)
      (signature : Ed25519.Signature)
  | provideLiquidity (provider : Address) (base quote : Token) (baseIn quoteLimit : Amount)
      (signature : Ed25519.Signature)
  | removeLiquidity (provider : Address) (base quote : Token) (redeemed : Points)
      (baseLimit quoteLimit : Amount) (signature : Ed25519.Signature)
  | buy (trader : Address) (base quote : Token) (amount limit : Amount)
      (signature : Ed25519.Signature)
  | sell (trader : Address) (base quote : Token) (amount limit : Amount)
      (signature : Ed25519.Signature)
deriving DecidableEq

/-- What an intent must be signed for: the message of the step it asks for. -/
def Intent.signed? : Intent → Option Signed
  | .deposit _ => none
  | .burn owner token amount signature => some ⟨owner, burnMessage token amount, signature⟩
  | .createPool who base quote first second signature
  | .provideLiquidity who base quote first second signature
  | .buy who base quote first second signature
  | .sell who base quote first second signature =>
      some ⟨who, pairMessage base quote first second, signature⟩
  | .removeLiquidity provider base quote redeemed baseLimit quoteLimit signature =>
      some ⟨provider, removeMessage base quote baseLimit quoteLimit redeemed, signature⟩

namespace RollupState

/-! ## Leaves -/

/-- An operation on the state that may fail; what it changed before stays. -/
abbrev Build (α : Type) := ExceptT Failure (StateM RollupState) α

/-- Gives up. -/
def refuse {α : Type} (cause : Cause) : Build α := throw (.of cause)

/-- Goes on with a result, or fails with the state's error. -/
def ofState {α : Type} (r : Except StateError α) : Build α :=
  match r with
  | .ok a => pure a
  | .error e => refuse (.state e)

/-- The leaf of a balance. -/
def balanceIndex (owner : Address) (token : Token) : Build Nat := do
  let s ← get
  let (r, balances) := s.balances.index (owner, token)
  set { s with balances }
  ofState r

/-- The leaf of a burn total. -/
def burnIndex (owner : Address) (token : Token) : Build Nat := do
  let s ← get
  let (r, burns) := s.burns.index (owner, token)
  set { s with burns }
  ofState r

/-- The leaf of a pool. -/
def poolIndex (base quote : Token) : Build Nat := do
  let s ← get
  let (r, pools) := s.pools.index (base, quote)
  set { s with pools }
  ofState r

/-- The leaf of a provider's points. -/
def liquidityIndex (provider : Address) (base quote : Token) : Build Nat := do
  let s ← get
  let (r, liquidities) := s.liquidities.index (provider, base, quote)
  set { s with liquidities }
  ofState r

/-- The leaf and the record of a pool that was opened. -/
def existingPool (s : RollupState) (base quote : Token) : Except Failure (Nat × Pool) :=
  match s.pools.find? (base, quote), s.pool base quote with
  | some index, some pool => .ok (index, pool)
  | _, _ => .error (.of .noPool)

/-- An account's balances in a pair. -/
def pairBalances (s : RollupState) (owner : Address) (base quote : Token) : PairBalances :=
  ⟨s.balance owner base, s.balance owner quote⟩

/-- The witness of an account's balances in a pair. -/
def pairWitness (owner : Address) (base quote : Token) : Build DoubleWitness := do
  let baseIndex ← balanceIndex owner base
  let quoteIndex ← balanceIndex owner quote
  match (← get).balances.doubleWitness baseIndex quoteIndex with
  | .ok w => pure w
  | .error e => throw ⟨[.distinctTokens], .state e⟩

/-- The claim about a pool that was opened and an account's balances in its pair. -/
def poolClaim (poolIndex : Nat) (pool : Pool) (account : Address) (base quote : Token) :
    Build PoolClaim := do
  let poolWitness ← ofState ((← get).pools.witness poolIndex)
  let balanceWitness ← pairWitness account base quote
  return ⟨poolWitness, balanceWitness, account, pool, (← get).pairBalances account base quote⟩

/-! ## Steps -/

/-- The claims about a pool that was opened, an account's points in it and its balances.
The witness of the points comes before that of the balances. -/
def shareClaims (account : Address) (base quote : Token) : Build (PoolClaim × PointsClaim) := do
  let (poolIndex, pool) ← (← get).existingPool base quote
  let pointsIndex ← liquidityIndex account base quote
  let pointsWitness ← ofState ((← get).liquidities.witness pointsIndex)
  let claim ← poolClaim poolIndex pool account base quote
  return (claim, ⟨pointsWitness, (← get).liquidity account base quote⟩)

/-- The arguments of a trade. -/
def swapArgs (trader : Address) (base quote : Token) (amount limit : Amount)
    (signature : Ed25519.Signature) : Build SwapArgs := do
  let (poolIndex, pool) ← (← get).existingPool base quote
  return ⟨← poolClaim poolIndex pool trader base quote, amount, limit, signature⟩

/-- The step that an intent asks for. -/
def build : Intent → Build Transition
  | .deposit d => do
      let index ← balanceIndex d.account d.token
      let s ← get
      let witness ← ofState (s.balances.witness index)
      return .deposit {
        witness
        deposit := d
        priorBalance := s.balance d.account d.token
        currentHead := s.depositHead
        expectedHead := nextDepositHead s.depositHead d }
  | .burn owner token amount signature => do
      let balanceIndex ← balanceIndex owner token
      let burnIndex ← burnIndex owner token
      let s ← get
      let balanceWitness ← ofState (s.balances.witness balanceIndex)
      let burnWitness ← ofState (s.burns.witness burnIndex)
      return .burn {
        balanceWitness, burnWitness, owner, token, amount
        priorBalance := s.balance owner token
        priorBurned := s.burned owner token
        signature }
  | .createPool provider base quote baseAmount quoteAmount signature => do
      let poolIndex ← poolIndex base quote
      let liquidityIndex ← liquidityIndex provider base quote
      let poolWitness ← ofState ((← get).pools.witness poolIndex)
      let liquidityWitness ← ofState ((← get).liquidities.witness liquidityIndex)
      let balanceWitness ← pairWitness provider base quote
      return .createPool {
        poolWitness, liquidityWitness, balanceWitness, provider, base, quote, baseAmount,
        quoteAmount
        balances := (← get).pairBalances provider base quote
        signature }
  | .provideLiquidity provider base quote baseIn quoteLimit signature => do
      let (claim, points) ← shareClaims provider base quote
      return .provideLiquidity { claim, points, baseIn, quoteLimit, signature }
  | .removeLiquidity provider base quote redeemed baseLimit quoteLimit signature => do
      let (claim, points) ← shareClaims provider base quote
      return .removeLiquidity { claim, points, redeemed, baseLimit, quoteLimit, signature }
  | .buy trader base quote amount limit signature => do
      return .buy (← swapArgs trader base quote amount limit signature)
  | .sell trader base quote amount limit signature => do
      return .sell (← swapArgs trader base quote amount limit signature)

/-! ## Committing -/

/-- Commits the outcome of a step, and counts the deposit if it was one. -/
def commitStep (t : Transition) (outcome : Outcome) : Build Unit := do
  let (r, s) := (← get).commit outcome
  set s
  match r with
  | .error e => throw ⟨[.commit t.method], .state e⟩
  | .ok () =>
      match t with
      | .deposit a => modify (·.consumeDeposit a.expectedHead)
      | _ => pure ()

/-- Executes a step on the current roots and commits its outcome. -/
def apply (v : Verifiers) (earlier : Option Proof) (t : Transition) : Build Outcome := do
  match t.execute v (← get).roots earlier with
  | .error e => throw ⟨[.execute t.method], .transition e⟩
  | .ok outcome =>
      commitStep t outcome
      return outcome

/-! ## Bridge -/

/-- The applied deposits of the bridge that were not replayed, oldest first.  Those that
were replayed must be its first ones. -/
def fetchDeposits (s : RollupState) (b : Bridge) : Except Failure (List AccountRecord) :=
  match b.checkConsumed s.depositsConsumed s.depositHead with
  | .error e => .error ⟨[.compareDeposits], .bridge e⟩
  | .ok () => .ok (b.applied.drop s.depositsConsumed)

/-- The request for all that an account burned of a token and was not paid. -/
def withdrawalRequest (s : RollupState) (owner : Address) (token : Token) :
    Except Failure WithdrawRequest :=
  match s.burns.find? (owner, token), s.burned owner token with
  | some index, some totalBurned => do
      let burnWitness ← (s.burns.witness index).mapError fun e => .of (.state e)
      let withdrawalWitness ← (s.withdrawals.witness index).mapError fun e => .of (.state e)
      return ⟨owner, token, burnWitness, withdrawalWitness, s.withdrawn owner token, totalBurned⟩
  | _, _ => .error (.of (.notBurned owner))

/-- Records that the bridge has paid a request. -/
def recordPaid (r : WithdrawRequest) : Build Unit := do
  let (result, s) := (← get).recordWithdrawal r.withdrawer r.token r.totalBurned
  set s
  ofState result

end RollupState

end AmmRollup
