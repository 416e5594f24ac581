import AmmRollup.Transition.Basic

/-!
# AmmRollup.Transition.Execute

Execution of a step.  Its checks run in six stages, and a step that fails reports
the first stage it fails in:

1. an earlier proof is there and ends at the roots;
2. it verifies;
3. every witness fits its tree, and the two leaves of a double witness are distinct;
4. the signature is the signer's over the method's message;
5. every claimed leaf folds to the root of its tree;
6. the amounts can be computed and are within their limits.

Genesis needs no earlier proof and passes every stage.
-/

namespace AmmRollup

/-! ## Single checks -/

/-- The earlier proof ends at the roots and verifies. -/
def checkEarlier (v : Verifiers) (roots : StateRoots) (earlier : Option Proof) :
    Except TransitionError Unit :=
  match earlier with
  | none => .error .chainMismatch
  | some proof =>
      if proof.output ≠ roots then .error .chainMismatch
      else if v.proofs proof then .ok () else .error .proofInvalid

/-- A witness fits a tree of `height` levels. -/
def checkShape (w : Witness) (height : Nat) : Except TransitionError Unit :=
  (w.checkHeight height).mapError .invalidWitness

/-- A double witness fits a tree of `height` levels, and its leaves are distinct. -/
def checkPairShape (w : DoubleWitness) (height : Nat) : Except TransitionError Unit := do
  (w.checkHeight height).mapError .invalidWitness
  if w.indexes.1 = w.indexes.2 then
    throw .indexMismatch

/-- A computed root is the asserted one. -/
def checkRoot (tree : StateTree) (asserted computed : Bytes32) : Except TransitionError Unit :=
  if asserted = computed then .ok () else .error (.stateMismatch tree)

/-- The leaf of an account's amount of a token, which may never have been written. -/
def accountLeaf (account : Address) (token : Token) (amount : Option Amount) : Bytes32 :=
  Record.leafOrEmpty (amount.map (AccountRecord.mk account token))

/-- The leaf of an account's points in a pool, which may never have been written. -/
def pointsLeaf (account : Address) (pool : Pool) (points : Option Points) : Bytes32 :=
  Record.leafOrEmpty (points.map (Liquidity.mk account pool.base pool.quote))

namespace PoolClaim

/-- The claimed pool folds to the root of the pools tree. -/
def checkPoolRoot (c : PoolClaim) (roots : StateRoots) : Except TransitionError Unit :=
  checkRoot .pools roots.pools (c.poolWitness.root (Record.leaf c.pool))

/-- The claimed balances fold to the root of the balances tree. -/
def checkBalancesRoot (c : PoolClaim) (roots : StateRoots) : Except TransitionError Unit :=
  checkRoot .balances roots.balances
    (c.balanceWitness.root (accountLeaf c.account c.pool.base c.balances.base)
      (accountLeaf c.account c.pool.quote c.balances.quote))

/-- The claimed points fold to the root of the liquidities tree. -/
def checkPointsRoot (c : PoolClaim) (p : PointsClaim) (roots : StateRoots) :
    Except TransitionError Unit :=
  checkRoot .liquidities roots.liquidities (p.witness.root (pointsLeaf c.account c.pool p.prior))

end PoolClaim

namespace Transition

/-! ## Stages -/

/-- Every witness fits its tree, and the leaves of a double witness are distinct. -/
def checkShapes : Transition → Except TransitionError Unit
  | .genesis => .ok ()
  | .deposit a => checkShape a.witness balancesHeight
  | .burn a => do
      checkShape a.balanceWitness balancesHeight
      checkShape a.burnWitness burnsHeight
  | .createPool a => do
      checkShape a.poolWitness poolsHeight
      checkShape a.liquidityWitness liquiditiesHeight
      checkPairShape a.balanceWitness balancesHeight
  | .provideLiquidity ⟨c, p, _, _, _⟩ | .removeLiquidity ⟨c, p, _, _, _, _⟩ => do
      checkShape c.poolWitness poolsHeight
      checkShape p.witness liquiditiesHeight
      checkPairShape c.balanceWitness balancesHeight
  | .buy a | .sell a => do
      checkShape a.claim.poolWitness poolsHeight
      checkPairShape a.claim.balanceWitness balancesHeight

/-- The step is signed, if it must be. -/
def checkSignature (v : Verifiers) (t : Transition) : Except TransitionError Unit :=
  match t.signed? with
  | none => .ok ()
  | some s =>
      if v.signatures s.signer s.message s.signature then .ok () else .error .signatureInvalid

/-- Every claimed leaf folds to its root, and a deposit is the next link of its chain. -/
def checkRoots (roots : StateRoots) : Transition → Except TransitionError Unit
  | .genesis => .ok ()
  | .deposit a => do
      checkRoot .balances roots.balances
        (a.witness.root (accountLeaf a.deposit.account a.deposit.token a.priorBalance))
      checkRoot .deposits a.expectedHead (nextDepositHead a.currentHead a.deposit)
  | .burn a => do
      checkRoot .balances roots.balances
        (a.balanceWitness.root (accountLeaf a.owner a.token a.priorBalance))
      checkRoot .burns roots.burns
        (a.burnWitness.root (accountLeaf a.owner a.token a.priorBurned))
  | .createPool a => do
      checkRoot .pools roots.pools (a.poolWitness.root emptyLeaf)
      checkRoot .liquidities roots.liquidities (a.liquidityWitness.root emptyLeaf)
      checkRoot .balances roots.balances
        (a.balanceWitness.root (accountLeaf a.provider a.base a.balances.base)
          (accountLeaf a.provider a.quote a.balances.quote))
  | .provideLiquidity ⟨c, p, _, _, _⟩ | .removeLiquidity ⟨c, p, _, _, _, _⟩ => do
      c.checkPoolRoot roots
      c.checkPointsRoot p roots
      c.checkBalancesRoot roots
  | .buy a | .sell a => do
      a.claim.checkPoolRoot roots
      a.claim.checkBalancesRoot roots

/-! ## Outcomes -/

/-- The outcome of a change to one account's pair of balances and a pool. -/
def tradedOutcome (roots : StateRoots) (c : PoolClaim) (after : Traded) : Outcome :=
  let base : AccountRecord := ⟨c.account, after.pool.base, after.base⟩
  let quote : AccountRecord := ⟨c.account, after.pool.quote, after.quote⟩
  { roots :=
      { roots with
        balances := c.balanceWitness.root (Record.leaf base) (Record.leaf quote)
        pools := c.poolWitness.root (Record.leaf after.pool) }
    writes :=
      [⟨c.poolWitness.index, .pool after.pool⟩,
        ⟨c.balanceWitness.indexes.1, .balance base⟩,
        ⟨c.balanceWitness.indexes.2, .balance quote⟩] }

/-- The outcome of a change to one account's pair of balances, its points and a pool. -/
def sharedOutcome (roots : StateRoots) (account : Address) (poolWitness pointsWitness : Witness)
    (balanceWitness : DoubleWitness) (after : Shared) : Outcome :=
  let points : Liquidity := ⟨account, after.pool.base, after.pool.quote, after.points⟩
  let base : AccountRecord := ⟨account, after.pool.base, after.base⟩
  let quote : AccountRecord := ⟨account, after.pool.quote, after.quote⟩
  { roots :=
      { roots with
        balances := balanceWitness.root (Record.leaf base) (Record.leaf quote)
        liquidities := pointsWitness.root (Record.leaf points)
        pools := poolWitness.root (Record.leaf after.pool) }
    writes :=
      [⟨poolWitness.index, .pool after.pool⟩,
        ⟨pointsWitness.index, .liquidity points⟩,
        ⟨balanceWitness.indexes.1, .balance base⟩,
        ⟨balanceWitness.indexes.2, .balance quote⟩] }

/-- The roots and leaves after a step whose claims hold. -/
def outcome (roots : StateRoots) : Transition → Except AmountError Outcome
  | .genesis => return ⟨roots, []⟩
  | .deposit a => do
      let after : AccountRecord :=
        ⟨a.deposit.account, a.deposit.token, ← credit a.priorBalance a.deposit.amount⟩
      return {
        roots := { roots with balances := a.witness.root (Record.leaf after) }
        writes := [⟨a.witness.index, .balance after⟩] }
  | .burn a => do
      let balance : AccountRecord := ⟨a.owner, a.token, ← debit a.priorBalance a.amount⟩
      let burned : AccountRecord := ⟨a.owner, a.token, ← credit a.priorBurned a.amount⟩
      return {
        roots :=
          { roots with
            balances := a.balanceWitness.root (Record.leaf balance)
            burns := a.burnWitness.root (Record.leaf burned) }
        writes :=
          [⟨a.balanceWitness.index, .balance balance⟩, ⟨a.burnWitness.index, .burn burned⟩] }
  | .createPool a => do
      let after ← Pool.opened a.base a.quote a.balances a.baseAmount a.quoteAmount
      return sharedOutcome roots a.provider a.poolWitness a.liquidityWitness a.balanceWitness after
  | .provideLiquidity a => do
      let c := a.claim
      let after ← c.pool.provide c.balances a.points.prior a.baseIn a.quoteLimit
      return sharedOutcome roots c.account c.poolWitness a.points.witness c.balanceWitness after
  | .removeLiquidity a => do
      let c := a.claim
      let after ← c.pool.remove c.balances a.points.prior a.redeemed a.baseLimit a.quoteLimit
      return sharedOutcome roots c.account c.poolWitness a.points.witness c.balanceWitness after
  | .buy a => do
      return tradedOutcome roots a.claim (← a.claim.pool.buy a.claim.balances a.amount a.limit)
  | .sell a => do
      return tradedOutcome roots a.claim (← a.claim.pool.sell a.claim.balances a.amount a.limit)

/-! ## Execution -/

/-- Runs every stage of checks and gives the outcome. -/
def execute (v : Verifiers) (roots : StateRoots) (earlier : Option Proof) (t : Transition) :
    Except TransitionError Outcome := do
  if t ≠ .genesis then
    checkEarlier v roots earlier
  t.checkShapes
  t.checkSignature v
  t.checkRoots roots
  (t.outcome roots).mapError .amount

end Transition

/-! ## Merging -/

/-- The roots that two proofs lead between, one after the other: the first starts at
`common`, the second where the first ends, and both verify. -/
def mergedRoots (proofs : Proof → Bool) (common : StateRoots) (first second : Proof) :
    Except TransitionError (StateRoots × StateRoots) :=
  if first.input ≠ common ∨ first.output ≠ second.input then .error .chainMismatch
  else if proofs first && proofs second then .ok (common, second.output)
  else .error .proofInvalid

end AmmRollup
