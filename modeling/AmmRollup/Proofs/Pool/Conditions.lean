import AmmRollup.Proofs.Pool.Exact
import Mathlib.Tactic.MkIffOfInductiveProp

/-!
# AmmRollup.Proofs.Pool.Conditions

When an account and a pool can deal.  Each operation has its price, which must fit
(`SwapPriced`, `ProvisionPriced`, `RemovalPriced`), and at that price what changes hands must
be within the limits, be there, and fit where it goes (`SwapPaid`, `ProvisionPaid`,
`RemovalPaid`).  Nothing else is asked: on these conditions an operation succeeds, and where
one of them fails it is refused (`Pool.buy_decides`, `Pool.sell_decides`,
`Pool.opened_decides`, `Pool.provide_decides`, `Pool.remove_decides`).
-/

namespace AmmRollup

/-! ## Single checks

The checks that an operation on a pool makes beside its price: limits, and that what changes
hands is there and fits.  What a refusal may say is a parameter, as the stages of a step ask for
no more than that there is one.
-/

section

variable (R : AmountError → Prop)

/-- What an account pays is checked against its limit. -/
theorem requireAtMost_decides (hr : ∀ limit actual, R (.slippageExceeded limit actual))
    (limit actual : Amount) :
    Decides R (requireAtMost limit actual) (actual.toNat ≤ limit.toNat) fun _ => True := by
  rw [requireAtMost, ← UInt64.le_iff_toNat_le]
  split
  · next h => exact ⟨fun h' => absurd h (UInt64.not_lt.mpr h'), fun _ => ⟨_, rfl, hr limit actual⟩⟩
  · next h => exact ⟨fun _ => ⟨(), rfl, trivial⟩, (absurd (UInt64.not_lt.mp h) ·)⟩

/-- What an account is paid is checked against its limit. -/
theorem requireAtLeast_decides (hr : ∀ limit actual, R (.slippageExceeded limit actual))
    (limit actual : Amount) :
    Decides R (requireAtLeast limit actual) (limit.toNat ≤ actual.toNat) fun _ => True := by
  rw [requireAtLeast, ← UInt64.le_iff_toNat_le]
  split
  · next h => exact ⟨fun h' => absurd h (UInt64.not_lt.mpr h'), fun _ => ⟨_, rfl, hr limit actual⟩⟩
  · next h => exact ⟨fun _ => ⟨(), rfl, trivial⟩, (absurd (UInt64.not_lt.mp h) ·)⟩

/-- An amount that an account or a pool is given must fit beside what it has. -/
theorem credit_decides (hr : R .overflow) (prior : Option Amount) (amount : Amount) :
    Decides R (credit prior amount) ((prior.getD 0).toNat + amount.toNat < 2 ^ 64) fun _ => True :=
  (narrowAmount_decides R hr _).imp fun _ _ => trivial

/-- Points that are given must fit beside those that are there. -/
theorem creditPoints_decides (hr : R .overflow) (prior : Option Points) (points : Points) :
    Decides R (creditPoints prior points) ((prior.getD 0).toNat + points.toNat < 2 ^ 128)
      fun _ => True :=
  (narrowPoints_decides R hr _).imp fun _ _ => trivial

/-- Points are taken from those that are there. -/
theorem debitPoints_decides (hr : R .underflow) (prior : Option Points) (points : Points) :
    Decides R (debitPoints prior points) (points.toNat ≤ (prior.getD 0).toNat) fun _ => True := by
  rw [debitPoints, ← BitVec.le_def]
  split
  · next h => exact ⟨fun _ => ⟨_, rfl, trivial⟩, (absurd h ·)⟩
  · next h => exact ⟨fun h' => absurd h' h, fun _ => ⟨_, rfl, hr⟩⟩

end

/-! ## Trades

A trade first has its price, then makes its checks.  That the reserve has what is taken out is in
no condition: a swap that would leave nothing has no price.
-/

/-- A swap leaves some of what it takes out, and its price fits. -/
@[mk_iff]
structure SwapPriced (reserveOut reserveIn out : Amount) : Prop where
  left : out.toNat < reserveOut.toNat
  required : reserveRequired reserveOut.toNat reserveIn.toNat out.toNat < 2 ^ 64
  price : swapPrice reserveOut.toNat reserveIn.toNat out.toNat < 2 ^ 64

/-- The price of a swap is within the limit, the account that pays it has it, and what changes
hands fits with the account and in the pool. -/
@[mk_iff]
structure SwapPaid (reserveIn : Amount) (gaining paying : Option Amount) (out limit : Amount)
    (paid : Nat) : Prop where
  limit : paid ≤ limit.toNat
  gaining : (gaining.getD 0).toNat + out.toNat < 2 ^ 64
  paying : paid ≤ (paying.getD 0).toNat
  reserve : reserveIn.toNat + paid < 2 ^ 64

/-- The price of a swap is computed exactly when it is priced. -/
theorem swapPriced_decides (reserveOut reserveIn out : Amount) :
    Decides (fun _ => True) (swapCost reserveOut reserveIn out >>= applyFee)
      (SwapPriced reserveOut reserveIn out)
      fun paid => paid.toNat = swapPrice reserveOut.toNat reserveIn.toNat out.toNat :=
  (swapPrice_decides _ trivial reserveOut reserveIn out (.inr trivial) (.inr trivial)).congr
    (swapPriced_iff ..).symm

namespace Pool

variable {pool : Pool} {before : PairBalances} {amount limit : Amount}

/-- An account can buy base when the swap is priced and paid. -/
def CanBuy (pool : Pool) (before : PairBalances) (amount limit : Amount) : Prop :=
  SwapPriced pool.baseAmount pool.quoteAmount amount ∧
    SwapPaid pool.quoteAmount before.base before.quote amount limit
      (swapPrice pool.baseAmount.toNat pool.quoteAmount.toNat amount.toNat)

/-- An account can sell base when the swap is priced and paid. -/
def CanSell (pool : Pool) (before : PairBalances) (amount limit : Amount) : Prop :=
  SwapPriced pool.quoteAmount pool.baseAmount amount ∧
    SwapPaid pool.baseAmount before.quote before.base amount limit
      (swapPrice pool.quoteAmount.toNat pool.baseAmount.toNat amount.toNat)

/-- A purchase succeeds exactly when it is priced and paid. -/
theorem buy_decides :
    Decides (fun _ => True) (pool.buy before amount limit) (pool.CanBuy before amount limit)
      fun _ => True := by
  refine (swapPriced_decides pool.baseAmount pool.quoteAmount amount).and_fits.bind
    fun paid ⟨hpriced, hpaid⟩ => ?_
  rw [← hpaid]
  refine Decides.congr ?_ (swapPaid_iff ..).symm
  refine (requireAtMost_decides _ (fun _ _ => trivial) limit paid).bind fun _ _ => ?_
  refine (credit_decides _ trivial before.base amount).bind fun base _ => ?_
  refine (debit_decides _ before.quote paid (.inr trivial)).bind fun quote _ => ?_
  -- a swap that has a price leaves something of the reserve, so this check is not in the condition
  refine (debit_decides _ (some pool.baseAmount) amount (.inr trivial)).bind_of_fits
    hpriced.left.le fun baseAmount _ => ?_
  exact (credit_decides _ trivial (some pool.quoteAmount) paid).bind_pure

/-- A sale succeeds exactly when it is priced and paid. -/
theorem sell_decides :
    Decides (fun _ => True) (pool.sell before amount limit) (pool.CanSell before amount limit)
      fun _ => True := by
  refine (swapPriced_decides pool.quoteAmount pool.baseAmount amount).and_fits.bind
    fun paid ⟨hpriced, hpaid⟩ => ?_
  rw [← hpaid]
  -- the account pays before it gains, other than in a purchase
  have hconditions : SwapPaid pool.baseAmount before.quote before.base amount limit paid.toNat ↔
      paid.toNat ≤ limit.toNat ∧ paid.toNat ≤ (before.base.getD 0).toNat ∧
        (before.quote.getD 0).toNat + amount.toNat < 2 ^ 64 ∧
        pool.baseAmount.toNat + paid.toNat < 2 ^ 64 := by
    rw [swapPaid_iff]
    exact and_congr_right fun _ => and_left_comm
  refine Decides.congr ?_ hconditions.symm
  refine (requireAtMost_decides _ (fun _ _ => trivial) limit paid).bind fun _ _ => ?_
  refine (debit_decides _ before.base paid (.inr trivial)).bind fun base _ => ?_
  refine (credit_decides _ trivial before.quote amount).bind fun quote _ => ?_
  refine (credit_decides _ trivial (some pool.baseAmount) paid).bind_ok fun baseAmount _ => ?_
  exact (debit_decides _ (some pool.quoteAmount) amount (.inr trivial)).bind_of_fits
    hpriced.left.le fun quoteAmount _ => .of_ok rfl trivial

end Pool

/-! ## Liquidity

Opening a pool has no price, and only asks that both reserves are there.  Adding to a pool and
taking from one are priced by its reserves and points, and then paid like a trade.
-/

/-- The reserves that open a pool are there, and neither is zero. -/
@[mk_iff]
structure OpeningPaid (before : PairBalances) (baseAmount quoteAmount : Amount) : Prop where
  basePos : 0 < baseAmount.toNat
  quotePos : 0 < quoteAmount.toNat
  base : baseAmount.toNat ≤ (before.base.getD 0).toNat
  quote : quoteAmount.toNat ≤ (before.quote.getD 0).toNat

/-- Some base is added to a pool that has some, and what that comes to fits. -/
@[mk_iff]
structure ProvisionPriced (pool : Pool) (baseIn : Amount) : Prop where
  added : 0 < baseIn.toNat
  base : 0 < pool.baseAmount.toNat
  minted : floorRatio pool.totalPoints.toNat baseIn.toNat pool.baseAmount.toNat < 2 ^ 128
  quoteIn : floorRatio baseIn.toNat pool.quoteAmount.toNat pool.baseAmount.toNat < 2 ^ 64

/-- A provision has its amounts exactly when it is priced, and they are those of the pool's own
proportions, rounded down. -/
theorem provisionPriced_decides (pool : Pool) (baseIn : Amount) :
    Decides (fun _ => True) (provideAmounts pool baseIn) (ProvisionPriced pool baseIn)
      fun amounts =>
        amounts.1.toNat =
          floorRatio baseIn.toNat pool.quoteAmount.toNat pool.baseAmount.toNat ∧
        amounts.2.toNat =
          floorRatio pool.totalPoints.toNat baseIn.toNat pool.baseAmount.toNat :=
  (provideAmounts_decides _ trivial (.inr trivial) (.inr trivial)).congr
    (provisionPriced_iff ..).symm

/-- The quote that is added with some base is within the limit, both are there, and what is added
and issued fits. -/
@[mk_iff]
structure ProvisionPaid (pool : Pool) (before : PairBalances) (prior : Option Points)
    (baseIn quoteLimit : Amount) (quoteIn minted : Nat) : Prop where
  limit : quoteIn ≤ quoteLimit.toNat
  base : baseIn.toNat ≤ (before.base.getD 0).toNat
  quote : quoteIn ≤ (before.quote.getD 0).toNat
  points : (prior.getD 0).toNat + minted < 2 ^ 128
  baseReserve : pool.baseAmount.toNat + baseIn.toNat < 2 ^ 64
  quoteReserve : pool.quoteAmount.toNat + quoteIn < 2 ^ 64
  totalPoints : pool.totalPoints.toNat + minted < 2 ^ 128

/-- Some points are given back to a pool with points and base, and what is paid for them fits. -/
@[mk_iff]
structure RemovalPriced (pool : Pool) (redeemed : Points) : Prop where
  given : 0 < redeemed.toNat
  points : 0 < pool.totalPoints.toNat
  base : 0 < pool.baseAmount.toNat
  baseOut : floorRatio pool.baseAmount.toNat redeemed.toNat pool.totalPoints.toNat < 2 ^ 64
  quoteOut : floorRatio pool.quoteAmount.toNat redeemed.toNat pool.totalPoints.toNat < 2 ^ 64

/-- A removal has its amounts exactly when it is priced, and they are the shares of both reserves,
rounded down. -/
theorem removalPriced_decides (pool : Pool) (redeemed : Points) :
    Decides (fun _ => True) (removeAmounts pool redeemed) (RemovalPriced pool redeemed)
      fun amounts =>
        amounts.1.toNat =
          floorRatio pool.baseAmount.toNat redeemed.toNat pool.totalPoints.toNat ∧
        amounts.2.toNat =
          floorRatio pool.quoteAmount.toNat redeemed.toNat pool.totalPoints.toNat :=
  (removeAmounts_decides _ trivial (.inr trivial) (.inr trivial) (.inr trivial)).congr
    (removalPriced_iff ..).symm

/-- The points that are given back are there, what is paid for them is within its limits and in
the pool, and fits with the account. -/
@[mk_iff]
structure RemovalPaid (pool : Pool) (before : PairBalances) (prior : Option Points)
    (redeemed : Points) (baseLimit quoteLimit : Amount) (baseOut quoteOut : Nat) : Prop where
  points : redeemed.toNat ≤ (prior.getD 0).toNat
  baseLimit : baseLimit.toNat ≤ baseOut
  quoteLimit : quoteOut ≤ quoteLimit.toNat
  baseReserve : baseOut ≤ pool.baseAmount.toNat
  quoteReserve : quoteOut ≤ pool.quoteAmount.toNat
  totalPoints : redeemed.toNat ≤ pool.totalPoints.toNat
  base : (before.base.getD 0).toNat + baseOut < 2 ^ 64
  quote : (before.quote.getD 0).toNat + quoteOut < 2 ^ 64

namespace Pool

variable {pool : Pool} {before : PairBalances} {prior : Option Points}

/-- An account can add to a pool when the provision is priced and paid. -/
def CanProvide (pool : Pool) (before : PairBalances) (prior : Option Points)
    (baseIn quoteLimit : Amount) : Prop :=
  ProvisionPriced pool baseIn ∧ ProvisionPaid pool before prior baseIn quoteLimit
    (floorRatio baseIn.toNat pool.quoteAmount.toNat pool.baseAmount.toNat)
    (floorRatio pool.totalPoints.toNat baseIn.toNat pool.baseAmount.toNat)

/-- An account can give back points when the removal is priced and paid. -/
def CanRemove (pool : Pool) (before : PairBalances) (prior : Option Points) (redeemed : Points)
    (baseLimit quoteLimit : Amount) : Prop :=
  RemovalPriced pool redeemed ∧
    RemovalPaid pool before prior redeemed baseLimit quoteLimit
      (floorRatio pool.baseAmount.toNat redeemed.toNat pool.totalPoints.toNat)
      (floorRatio pool.quoteAmount.toNat redeemed.toNat pool.totalPoints.toNat)

/-- A pool is opened exactly when its reserves are paid. -/
theorem opened_decides {base quote : Token} {baseAmount quoteAmount : Amount} :
    Decides (fun _ => True) (Pool.opened base quote before baseAmount quoteAmount)
      (OpeningPaid before baseAmount quoteAmount) fun _ => True := by
  refine Decides.congr ?_ (openingPaid_iff ..).symm
  refine (requireNonzero_decides _ (.inr trivial)).bind fun _ _ => ?_
  refine (requireNonzero_decides _ (.inr trivial)).bind fun _ _ => ?_
  refine (debit_decides _ before.base baseAmount (.inr trivial)).bind fun baseAfter _ => ?_
  exact (debit_decides _ before.quote quoteAmount (.inr trivial)).bind_pure

/-- A pool is added to exactly when the provision is priced and paid. -/
theorem provide_decides {baseIn quoteLimit : Amount} :
    Decides (fun _ => True) (pool.provide before prior baseIn quoteLimit)
      (pool.CanProvide before prior baseIn quoteLimit) fun _ => True := by
  refine (provisionPriced_decides pool baseIn).bind
    fun ⟨quoteIn, minted⟩ ⟨hquoteIn, hminted⟩ => ?_
  rw [← hquoteIn, ← hminted]
  refine Decides.congr ?_ (provisionPaid_iff ..).symm
  refine (requireAtMost_decides _ (fun _ _ => trivial) quoteLimit quoteIn).bind fun _ _ => ?_
  refine (debit_decides _ before.base baseIn (.inr trivial)).bind fun base _ => ?_
  refine (debit_decides _ before.quote quoteIn (.inr trivial)).bind fun quote _ => ?_
  refine (creditPoints_decides _ trivial prior minted).bind fun points _ => ?_
  refine (credit_decides _ trivial (some pool.baseAmount) baseIn).bind fun baseAmount _ => ?_
  refine (credit_decides _ trivial (some pool.quoteAmount) quoteIn).bind fun quoteAmount _ => ?_
  exact (creditPoints_decides _ trivial (some pool.totalPoints) minted).bind_pure

/-- A pool is taken from exactly when the removal is priced and paid. -/
theorem remove_decides {redeemed : Points} {baseLimit quoteLimit : Amount} :
    Decides (fun _ => True) (pool.remove before prior redeemed baseLimit quoteLimit)
      (pool.CanRemove before prior redeemed baseLimit quoteLimit) fun _ => True := by
  refine (removalPriced_decides pool redeemed).bind
    fun ⟨baseOut, quoteOut⟩ ⟨hbaseOut, hquoteOut⟩ => ?_
  rw [← hbaseOut, ← hquoteOut]
  -- the condition lists the checks in the order in which they are made
  refine Decides.congr ?_ (removalPaid_iff ..).symm
  refine (debitPoints_decides _ trivial prior redeemed).bind fun points _ => ?_
  refine (requireAtLeast_decides _ (fun _ _ => trivial) baseLimit baseOut).bind fun _ _ => ?_
  refine (requireAtMost_decides _ (fun _ _ => trivial) quoteLimit quoteOut).bind fun _ _ => ?_
  refine (debit_decides _ (some pool.baseAmount) baseOut (.inr trivial)).bind
    fun baseAmount _ => ?_
  refine (debit_decides _ (some pool.quoteAmount) quoteOut (.inr trivial)).bind
    fun quoteAmount _ => ?_
  refine (debitPoints_decides _ trivial (some pool.totalPoints) redeemed).bind
    fun totalPoints _ => ?_
  refine (credit_decides _ trivial before.base baseOut).bind fun base _ => ?_
  exact (credit_decides _ trivial before.quote quoteOut).bind_pure

end Pool

end AmmRollup
