import AmmRollup.Pool.Pricing

/-!
# AmmRollup.Proofs.Pool.Words

Prices on words of 256 bits.  A machine multiplies and divides words, and a product that is
too wide wraps.  None of the products in a price is: amounts have 64 bits and points 128, so
two amounts make at most 128 bits (`Words.toNat_amount_mul_amount`) and points with an amount
at most 192 (`Words.toNat_points_mul_amount`).  So every price comes out as it does on
unbounded numbers (`Words.applyFee_eq`, `Words.swapCost_eq`, `Words.buyCost_eq`,
`Words.sellCost_eq`, `Words.provideAmounts_eq`, `Words.removeAmounts_eq`).
-/

namespace AmmRollup

namespace Words

/-! ## Words

An amount has 64 bits and points have 128, so the products that are formed have at most 192, and
a word of 256 bits holds them without wrapping.  The formulas are written here on words, in the
order in which they are computed.
-/

/-- An amount as a word. -/
def ofAmount (a : Amount) : BitVec 256 := a.toBitVec.setWidth 256

/-- Points as a word. -/
def ofPoints (p : Points) : BitVec 256 := p.setWidth 256

/-- A word as an amount, if it fits. -/
def narrowAmount (w : BitVec 256) : Except AmountError Amount :=
  if w < 1 <<< 64 then .ok ⟨w.setWidth 64⟩ else .error .overflow

/-- A word as points, if it fits. -/
def narrowPoints (w : BitVec 256) : Except AmountError Points :=
  if w < 1 <<< 128 then .ok (w.setWidth 128) else .error .overflow

@[simp]
theorem toNat_ofAmount (a : Amount) : (ofAmount a).toNat = a.toNat := by
  rw [ofAmount, BitVec.toNat_setWidth]
  exact Nat.mod_eq_of_lt (Nat.lt_trans a.toNat_lt (by decide))

@[simp]
theorem toNat_ofPoints (p : Points) : (ofPoints p).toNat = p.toNat := by
  rw [ofPoints, BitVec.toNat_setWidth]
  exact Nat.mod_eq_of_lt (Nat.lt_trans p.isLt (by decide))

theorem narrowAmount_eq (w : BitVec 256) : narrowAmount w = AmmRollup.narrowAmount w.toNat := by
  have hlt : w < 1 <<< 64 ↔ w.toNat < 1 <<< 64 := BitVec.lt_def
  simp only [narrowAmount, AmmRollup.narrowAmount, hlt]
  rfl

theorem narrowPoints_eq (w : BitVec 256) : narrowPoints w = AmmRollup.narrowPoints w.toNat := by
  have hlt : w < 1 <<< 128 ↔ w.toNat < 1 <<< 128 := BitVec.lt_def
  simp only [narrowPoints, AmmRollup.narrowPoints, hlt]
  rfl

/-! ## Products

The only step that could wrap is the product, and it does not.
-/

/-- Two amounts make a word that has not wrapped. -/
@[simp]
theorem toNat_amount_mul_amount (a b : Amount) :
    (ofAmount a * ofAmount b).toNat = a.toNat * b.toNat := by
  rw [BitVec.toNat_mul, toNat_ofAmount, toNat_ofAmount]
  exact Nat.mod_eq_of_lt (Nat.lt_trans (Nat.mul_lt_mul'' a.toNat_lt b.toNat_lt) (by decide))

/-- Points times an amount make a word that has not wrapped. -/
@[simp]
theorem toNat_points_mul_amount (p : Points) (a : Amount) :
    (ofPoints p * ofAmount a).toNat = p.toNat * a.toNat := by
  rw [BitVec.toNat_mul, toNat_ofPoints, toNat_ofAmount]
  exact Nat.mod_eq_of_lt (Nat.lt_trans (Nat.mul_lt_mul'' p.isLt a.toNat_lt) (by decide))

/-- An amount times points makes a word that has not wrapped. -/
@[simp]
theorem toNat_amount_mul_points (a : Amount) (p : Points) :
    (ofAmount a * ofPoints p).toNat = a.toNat * p.toNat := by
  rw [BitVec.mul_comm, toNat_points_mul_amount, Nat.mul_comm]

/-! ## Prices

So what is computed on words is what is computed on numbers, check by check.
-/

/-- An amount with the fee on top. -/
def applyFee (amount : Amount) : Except AmountError Amount :=
  narrowAmount (ofAmount amount * ofAmount 1001 / ofAmount 1000)

/-- What one reserve must grow by, fee excluded, for `out` to leave the other. -/
def swapCost (reserveOut reserveIn out : Amount) : Except AmountError Amount := do
  let remaining ← debit (some reserveOut) out
  requireNonzero remaining.toNat .poolReserveAfterSwap
  let required ← narrowAmount (ofAmount reserveOut * ofAmount reserveIn / ofAmount remaining)
  debit (some required) reserveIn

/-- The quote paid, fee included, for base taken out of a pool. -/
def buyCost (poolBase poolQuote baseOut : Amount) : Except AmountError Amount := do
  applyFee (← swapCost poolBase poolQuote baseOut)

/-- The base paid, fee included, for quote taken out of a pool. -/
def sellCost (poolBase poolQuote quoteOut : Amount) : Except AmountError Amount := do
  applyFee (← swapCost poolQuote poolBase quoteOut)

/-- The quote to add and the points to issue for base added to a pool. -/
def provideAmounts (pool : Pool) (baseIn : Amount) : Except AmountError (Amount × Points) := do
  requireNonzero baseIn.toNat .baseAmount
  requireNonzero pool.baseAmount.toNat .poolBase
  let minted ← narrowPoints
    (ofPoints pool.totalPoints * ofAmount baseIn / ofAmount pool.baseAmount)
  let quoteIn ← narrowAmount
    (ofAmount baseIn * ofAmount pool.quoteAmount / ofAmount pool.baseAmount)
  return (quoteIn, minted)

/-- The base and quote that leave a pool for points. -/
def removeAmounts (pool : Pool) (points : Points) : Except AmountError (Amount × Amount) := do
  requireNonzero points.toNat .points
  requireNonzero pool.totalPoints.toNat .poolPoints
  requireNonzero pool.baseAmount.toNat .poolBase
  let baseOut ← narrowAmount
    (ofAmount pool.baseAmount * ofPoints points / ofPoints pool.totalPoints)
  let quoteOut ← narrowAmount
    (ofAmount pool.quoteAmount * ofPoints points / ofPoints pool.totalPoints)
  return (baseOut, quoteOut)

theorem applyFee_eq (amount : Amount) : applyFee amount = AmmRollup.applyFee amount := by
  rw [applyFee, narrowAmount_eq, BitVec.toNat_udiv, toNat_amount_mul_amount, toNat_ofAmount]
  rfl

/-- The cost of a swap is the same in words as in numbers, as are the others. -/
theorem swapCost_eq (reserveOut reserveIn out : Amount) :
    swapCost reserveOut reserveIn out = AmmRollup.swapCost reserveOut reserveIn out := by
  simp only [swapCost, AmmRollup.swapCost, narrowAmount_eq, BitVec.toNat_udiv,
    toNat_amount_mul_amount, toNat_ofAmount]

theorem buyCost_eq (poolBase poolQuote out : Amount) :
    buyCost poolBase poolQuote out = AmmRollup.buyCost poolBase poolQuote out := by
  simp only [buyCost, AmmRollup.buyCost, swapCost_eq, applyFee_eq]

theorem sellCost_eq (poolBase poolQuote out : Amount) :
    sellCost poolBase poolQuote out = AmmRollup.sellCost poolBase poolQuote out := by
  simp only [sellCost, AmmRollup.sellCost, swapCost_eq, applyFee_eq]

theorem provideAmounts_eq (pool : Pool) (baseIn : Amount) :
    provideAmounts pool baseIn = AmmRollup.provideAmounts pool baseIn := by
  simp only [provideAmounts, AmmRollup.provideAmounts, narrowPoints_eq, narrowAmount_eq,
    BitVec.toNat_udiv, toNat_points_mul_amount, toNat_amount_mul_amount, toNat_ofAmount]

theorem removeAmounts_eq (pool : Pool) (points : Points) :
    removeAmounts pool points = AmmRollup.removeAmounts pool points := by
  simp only [removeAmounts, AmmRollup.removeAmounts, narrowAmount_eq, BitVec.toNat_udiv,
    toNat_amount_mul_points, toNat_ofPoints]

end Words

end AmmRollup
