import AmmRollup.Record

/-!
# AmmRollup.Pool.Pricing

Prices of a constant-product pool.  Every product is taken in unbounded naturals and
every quotient rounded down; a result that does not fit its width is refused, never
wrapped.

* `buyCost`, `sellCost` — what a trader pays, fee included, for an amount taken out;
* `provideAmounts` — the quote a provider adds, and the points issued, for some base;
* `removeAmounts` — what leaves the pool for some points.
-/

namespace AmmRollup

/-- The quantities that must not be zero. -/
inductive Quantity where
  | baseAmount
  | quoteAmount
  | points
  | poolBase
  | poolPoints
  | poolReserveAfterSwap
deriving DecidableEq

/-- The words for a quantity in messages. -/
def Quantity.name : Quantity → String
  | .baseAmount => "base amount"
  | .quoteAmount => "quote amount"
  | .points => "liquidity points"
  | .poolBase => "pool base amount"
  | .poolPoints => "pool liquidity points"
  | .poolReserveAfterSwap => "pool reserve after swap"

/-- Why an amount cannot be computed or is not accepted. -/
inductive AmountError where
  /-- A result does not fit its width. -/
  | overflow
  /-- A result would be negative. -/
  | underflow
  /-- A price lies beyond the limit that was set for it. -/
  | slippageExceeded (limit actual : Amount)
  /-- A quantity is zero. -/
  | zero (quantity : Quantity)
deriving DecidableEq

/-- The wording of an error. -/
def AmountError.message : AmountError → String
  | .overflow => "arithmetic overflow"
  | .underflow => "arithmetic underflow"
  | .slippageExceeded limit actual =>
      s!"slippage limit exceeded: limit {limit.toNat}, actual {actual.toNat}"
  | .zero quantity => s!"{quantity.name} must be nonzero"

/-! ## Widths -/

/-- A number as an amount, if it fits. -/
def narrowAmount (n : Nat) : Except AmountError Amount :=
  if n < 1 <<< 64 then .ok (UInt64.ofNat n) else .error .overflow

/-- A number as points, if it fits. -/
def narrowPoints (n : Nat) : Except AmountError Points :=
  if n < 1 <<< 128 then .ok (BitVec.ofNat 128 n) else .error .overflow

/-- Adds to an amount; one never written counts as zero. -/
def credit (prior : Option Amount) (amount : Amount) : Except AmountError Amount :=
  narrowAmount ((prior.getD 0).toNat + amount.toNat)

/-- Takes from an amount; one never written counts as zero. -/
def debit (prior : Option Amount) (amount : Amount) : Except AmountError Amount :=
  if amount ≤ prior.getD 0 then .ok (prior.getD 0 - amount) else .error .underflow

/-- Adds points; ones never written count as zero. -/
def creditPoints (prior : Option Points) (points : Points) : Except AmountError Points :=
  narrowPoints ((prior.getD 0).toNat + points.toNat)

/-- Takes points away; ones never written count as zero. -/
def debitPoints (prior : Option Points) (points : Points) : Except AmountError Points :=
  if points ≤ prior.getD 0 then .ok (prior.getD 0 - points) else .error .underflow

/-- Refuses a zero. -/
def requireNonzero (n : Nat) (quantity : Quantity) : Except AmountError Unit :=
  if n = 0 then .error (.zero quantity) else .ok ()

/-- Refuses an amount above its limit. -/
def requireAtMost (limit actual : Amount) : Except AmountError Unit :=
  if limit < actual then .error (.slippageExceeded limit actual) else .ok ()

/-- Refuses an amount below its limit. -/
def requireAtLeast (limit actual : Amount) : Except AmountError Unit :=
  if actual < limit then .error (.slippageExceeded limit actual) else .ok ()

/-! ## Swaps -/

/-- An amount with the fee of one in a thousand on top. -/
def applyFee (amount : Amount) : Except AmountError Amount :=
  narrowAmount (amount.toNat * 1001 / 1000)

/-- What one reserve must grow by, fee excluded, for `out` to leave the other while the
product of both stays. -/
def swapCost (reserveOut reserveIn out : Amount) : Except AmountError Amount := do
  let remaining ← debit (some reserveOut) out
  requireNonzero remaining.toNat .poolReserveAfterSwap
  let required ← narrowAmount (reserveOut.toNat * reserveIn.toNat / remaining.toNat)
  debit (some required) reserveIn

/-- The quote paid, fee included, for base taken out of a pool. -/
def buyCost (poolBase poolQuote baseOut : Amount) : Except AmountError Amount := do
  applyFee (← swapCost poolBase poolQuote baseOut)

/-- The base paid, fee included, for quote taken out of a pool. -/
def sellCost (poolBase poolQuote quoteOut : Amount) : Except AmountError Amount := do
  applyFee (← swapCost poolQuote poolBase quoteOut)

/-! ## Liquidity -/

/-- The quote to add and the points to issue for base added to a pool. -/
def provideAmounts (pool : Pool) (baseIn : Amount) : Except AmountError (Amount × Points) := do
  requireNonzero baseIn.toNat .baseAmount
  requireNonzero pool.baseAmount.toNat .poolBase
  let minted ← narrowPoints (pool.totalPoints.toNat * baseIn.toNat / pool.baseAmount.toNat)
  let quoteIn ← narrowAmount (baseIn.toNat * pool.quoteAmount.toNat / pool.baseAmount.toNat)
  return (quoteIn, minted)

/-- The base and quote that leave a pool for points. -/
def removeAmounts (pool : Pool) (points : Points) : Except AmountError (Amount × Amount) := do
  requireNonzero points.toNat .points
  requireNonzero pool.totalPoints.toNat .poolPoints
  requireNonzero pool.baseAmount.toNat .poolBase
  let baseOut ← narrowAmount (pool.baseAmount.toNat * points.toNat / pool.totalPoints.toNat)
  let quoteOut ← narrowAmount (pool.quoteAmount.toNat * points.toNat / pool.totalPoints.toNat)
  return (baseOut, quoteOut)

end AmmRollup
