import AmmRollup.Pool.Pricing

/-!
# AmmRollup.Pool.Exchange

What trading and providing liquidity do to a pool and to the account on the other
side.  Each operation takes the account's amounts before, which may never have been
written, and gives the amounts and the pool after; it knows nothing of trees or
witnesses.
-/

namespace AmmRollup

/-- An account's balances in the two tokens of a pair, where they were ever written. -/
structure PairBalances where
  base : Option Amount
  quote : Option Amount
deriving DecidableEq

/-- A pool and an account's balances after a trade. -/
structure Traded where
  pool : Pool
  base : Amount
  quote : Amount
deriving DecidableEq

/-- A pool and an account's balances and points after a change of liquidity. -/
structure Shared where
  pool : Pool
  base : Amount
  quote : Amount
  points : Points
deriving DecidableEq

namespace Pool

/-! ## Trades -/

/-- Takes `amount` base out of the pool for at most `limit` quote. -/
def buy (pool : Pool) (before : PairBalances) (amount limit : Amount) :
    Except AmountError Traded := do
  let paid ← buyCost pool.baseAmount pool.quoteAmount amount
  requireAtMost limit paid
  let base ← credit before.base amount
  let quote ← debit before.quote paid
  let baseAmount ← debit (some pool.baseAmount) amount
  let quoteAmount ← credit (some pool.quoteAmount) paid
  return ⟨{ pool with baseAmount, quoteAmount }, base, quote⟩

/-- Takes `amount` quote out of the pool for at most `limit` base. -/
def sell (pool : Pool) (before : PairBalances) (amount limit : Amount) :
    Except AmountError Traded := do
  let paid ← sellCost pool.baseAmount pool.quoteAmount amount
  requireAtMost limit paid
  let base ← debit before.base paid
  let quote ← credit before.quote amount
  let baseAmount ← credit (some pool.baseAmount) paid
  let quoteAmount ← debit (some pool.quoteAmount) amount
  return ⟨{ pool with baseAmount, quoteAmount }, base, quote⟩

/-! ## Liquidity -/

/-- Opens a pool with both reserves from one account, which gets all its points. -/
def opened (base quote : Token) (before : PairBalances) (baseAmount quoteAmount : Amount) :
    Except AmountError Shared := do
  requireNonzero baseAmount.toNat .baseAmount
  requireNonzero quoteAmount.toNat .quoteAmount
  let points := BitVec.ofNat 128 (baseAmount.toNat * quoteAmount.toNat)
  let baseAfter ← debit before.base baseAmount
  let quoteAfter ← debit before.quote quoteAmount
  return ⟨⟨base, quote, baseAmount, quoteAmount, points⟩, baseAfter, quoteAfter, points⟩

/-- Adds `baseIn` base and at most `quoteLimit` quote to the pool. -/
def provide (pool : Pool) (before : PairBalances) (prior : Option Points)
    (baseIn quoteLimit : Amount) : Except AmountError Shared := do
  let (quoteIn, minted) ← provideAmounts pool baseIn
  requireAtMost quoteLimit quoteIn
  let base ← debit before.base baseIn
  let quote ← debit before.quote quoteIn
  let points ← creditPoints prior minted
  let baseAmount ← credit (some pool.baseAmount) baseIn
  let quoteAmount ← credit (some pool.quoteAmount) quoteIn
  let totalPoints ← creditPoints (some pool.totalPoints) minted
  return ⟨{ pool with baseAmount, quoteAmount, totalPoints }, base, quote, points⟩

/-- Gives back `redeemed` points for at least `baseLimit` base and at most `quoteLimit` quote. -/
def remove (pool : Pool) (before : PairBalances) (prior : Option Points) (redeemed : Points)
    (baseLimit quoteLimit : Amount) : Except AmountError Shared := do
  let (baseOut, quoteOut) ← removeAmounts pool redeemed
  let points ← debitPoints prior redeemed
  requireAtLeast baseLimit baseOut
  requireAtMost quoteLimit quoteOut
  let baseAmount ← debit (some pool.baseAmount) baseOut
  let quoteAmount ← debit (some pool.quoteAmount) quoteOut
  let totalPoints ← debitPoints (some pool.totalPoints) redeemed
  let base ← credit before.base baseOut
  let quote ← credit before.quote quoteOut
  return ⟨{ pool with baseAmount, quoteAmount, totalPoints }, base, quote, points⟩

end Pool

end AmmRollup
