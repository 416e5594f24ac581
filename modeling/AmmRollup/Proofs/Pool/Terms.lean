import AmmRollup.Proofs.Pool.Exchange

/-!
# AmmRollup.Proofs.Pool.Terms

The terms on which an account and a pool deal.  One structure for each operation says how
much changes hands and within which limits, and that is all that callers need to know of
it: `Pool.buy_terms`, `Pool.sell_terms`, `Pool.opened_terms`, `Pool.provide_terms` and
`Pool.remove_terms`.  What the account gains the pool loses (`Conserved`), so the terms
name the account's side, the price, and the points.
-/

namespace AmmRollup

/-! ## Checks and points

What each check leaves behind when it passes.
-/

theorem requireNonzero_eq_ok_iff {n : Nat} {quantity : Quantity} {u : Unit} :
    requireNonzero n quantity = .ok u ↔ 0 < n := by
  rw [requireNonzero]
  split
  · next h => exact iff_of_false (by simp) (by omega)
  · next h => exact iff_of_true rfl (by omega)

theorem requireAtMost_eq_ok_iff {limit actual : Amount} {u : Unit} :
    requireAtMost limit actual = .ok u ↔ actual ≤ limit := by
  rw [requireAtMost]
  split
  · next h => exact iff_of_false (by simp) (UInt64.not_le.mpr h)
  · next h => exact iff_of_true rfl (UInt64.not_lt.mp h)

theorem requireAtLeast_eq_ok_iff {limit actual : Amount} {u : Unit} :
    requireAtLeast limit actual = .ok u ↔ limit ≤ actual := by
  rw [requireAtLeast]
  split
  · next h => exact iff_of_false (by simp) (UInt64.not_le.mpr h)
  · next h => exact iff_of_true rfl (UInt64.not_lt.mp h)

theorem narrowPoints_eq_ok_iff {n : Nat} {points : Points} :
    narrowPoints n = .ok points ↔ points.toNat = n := by
  rw [narrowPoints, Nat.one_shiftLeft]
  have hpoints := points.isLt
  split
  · next h =>
      rw [Except.ok.injEq, ← BitVec.toNat_inj, BitVec.toNat_ofNat, Nat.mod_eq_of_lt h, eq_comm]
  · next h => exact ⟨fun h => (nomatch h), fun hn => absurd (hn ▸ hpoints) h⟩

/-- Points that are credited are added. -/
theorem creditPoints_eq_ok_iff {prior : Option Points} {points after : Points} :
    creditPoints prior points = .ok after ↔
      after.toNat = (prior.getD 0).toNat + points.toNat :=
  narrowPoints_eq_ok_iff

/-- Points that are debited are taken away. -/
theorem debitPoints_eq_ok_iff {prior : Option Points} {points after : Points} :
    debitPoints prior points = .ok after ↔
      (prior.getD 0).toNat = after.toNat + points.toNat := by
  rw [debitPoints]
  split
  · next h =>
      have hsub := BitVec.toNat_sub_of_le h
      have hle := BitVec.le_def.mp h
      rw [Except.ok.injEq, ← BitVec.toNat_inj, hsub]
      omega
  · next h =>
      rw [BitVec.le_def] at h
      exact ⟨fun h => (nomatch h), fun he => absurd he (by omega)⟩

namespace Pool

variable {pool : Pool} {before : PairBalances} {prior : Option Points}

/-! ## Trades

A trade that succeeds has computed its price once, and used it for the limit, the balances and
the reserves.  These lemmas collect what it left of each, as equations of numbers.
-/

/-- An account has bought `amount` base for `paid` quote. -/
structure Bought (pool : Pool) (before : PairBalances) (amount paid : Amount) (after : Traded) :
    Prop where
  price : buyCost pool.baseAmount pool.quoteAmount amount = .ok paid
  base : after.base.toNat = (before.base.getD 0).toNat + amount.toNat
  quote : (before.quote.getD 0).toNat = after.quote.toNat + paid.toNat
  points : after.pool.totalPoints = pool.totalPoints

/-- Whoever buys pays at most the limit for exactly the amount. -/
theorem buy_terms {amount limit : Amount} {after : Traded}
    (h : pool.buy before amount limit = .ok after) :
    ∃ paid ≤ limit, pool.Bought before amount paid after := by
  simp only [buy, bind_eq_ok_iff, pure_eq_ok_iff, requireAtMost_eq_ok_iff, credit_eq_ok_iff,
    debit_eq_ok_iff] at h
  obtain ⟨paid, hprice, _, hlimit, base, hbase, quote, hquote, _, -, _, -, rfl⟩ := h
  exact ⟨paid, hlimit, hprice, hbase, hquote, rfl⟩

/-- An account has bought `amount` quote for `paid` base. -/
structure Sold (pool : Pool) (before : PairBalances) (amount paid : Amount) (after : Traded) :
    Prop where
  price : sellCost pool.baseAmount pool.quoteAmount amount = .ok paid
  base : (before.base.getD 0).toNat = after.base.toNat + paid.toNat
  quote : after.quote.toNat = (before.quote.getD 0).toNat + amount.toNat
  points : after.pool.totalPoints = pool.totalPoints

/-- Whoever sells gives at most the limit for exactly the amount. -/
theorem sell_terms {amount limit : Amount} {after : Traded}
    (h : pool.sell before amount limit = .ok after) :
    ∃ paid ≤ limit, pool.Sold before amount paid after := by
  simp only [sell, bind_eq_ok_iff, pure_eq_ok_iff, requireAtMost_eq_ok_iff, credit_eq_ok_iff,
    debit_eq_ok_iff] at h
  obtain ⟨paid, hprice, _, hlimit, base, hbase, quote, hquote, _, -, _, -, rfl⟩ := h
  exact ⟨paid, hlimit, hprice, hbase, hquote, rfl⟩

/-! ## Liquidity

The same for opening a pool, adding to it and taking from it.  Which of the two limits is a least
amount and which a most differs between the methods, so each has its own statement.
-/

/-- An account has opened a pool with both amounts, for all its points. -/
structure Opened (before : PairBalances) (baseAmount quoteAmount : Amount) (after : Shared) :
    Prop where
  base_pos : 0 < baseAmount.toNat
  quote_pos : 0 < quoteAmount.toNat
  base : (before.base.getD 0).toNat = after.base.toNat + baseAmount.toNat
  quote : (before.quote.getD 0).toNat = after.quote.toNat + quoteAmount.toNat
  points : after.points.toNat = baseAmount.toNat * quoteAmount.toNat
  totalPoints : after.pool.totalPoints = after.points

/-- Whoever opens a pool gives both reserves. -/
theorem opened_terms {base quote : Token} {baseAmount quoteAmount : Amount} {after : Shared}
    (h : Pool.opened base quote before baseAmount quoteAmount = .ok after) :
    Opened before baseAmount quoteAmount after := by
  simp only [opened, bind_eq_ok_iff, pure_eq_ok_iff, requireNonzero_eq_ok_iff,
    debit_eq_ok_iff] at h
  obtain ⟨_, hb, _, hq, baseAfter, hbase, quoteAfter, hquote, rfl⟩ := h
  refine ⟨hb, hq, hbase, hquote, ?_, rfl⟩
  -- the product of two amounts has at most 128 bits
  have hlt := Nat.mul_lt_mul'' baseAmount.toNat_lt quoteAmount.toNat_lt
  exact (BitVec.toNat_ofNat _ 128).trans (Nat.mod_eq_of_lt (by simpa [← Nat.pow_add] using hlt))

/-- An account has added `baseIn` base and `quoteIn` quote to a pool, for `minted` points. -/
structure Provided (pool : Pool) (before : PairBalances) (prior : Option Points)
    (baseIn quoteIn : Amount) (minted : Points) (after : Shared) : Prop where
  price : provideAmounts pool baseIn = .ok (quoteIn, minted)
  base : (before.base.getD 0).toNat = after.base.toNat + baseIn.toNat
  quote : (before.quote.getD 0).toNat = after.quote.toNat + quoteIn.toNat
  points : after.points.toNat = (prior.getD 0).toNat + minted.toNat
  totalPoints : after.pool.totalPoints.toNat = pool.totalPoints.toNat + minted.toNat

/-- Whoever adds to a pool gives the base and at most the limit of quote. -/
theorem provide_terms {baseIn quoteLimit : Amount} {after : Shared}
    (h : pool.provide before prior baseIn quoteLimit = .ok after) :
    ∃ quoteIn ≤ quoteLimit, ∃ minted,
      pool.Provided before prior baseIn quoteIn minted after := by
  simp only [provide, bind_eq_ok_iff, pure_eq_ok_iff, requireAtMost_eq_ok_iff,
    debit_eq_ok_iff, creditPoints_eq_ok_iff, Option.getD_some] at h
  obtain ⟨⟨quoteIn, minted⟩, hprice, _, hlimit, base, hbase, quote, hquote, points, hpoints,
    _, -, _, -, totalPoints, htotal, rfl⟩ := h
  exact ⟨quoteIn, hlimit, minted, hprice, hbase, hquote, hpoints, htotal⟩

/-- An account has given back `redeemed` points for `baseOut` base and `quoteOut` quote. -/
structure Removed (pool : Pool) (before : PairBalances) (prior : Option Points)
    (redeemed : Points) (baseOut quoteOut : Amount) (after : Shared) : Prop where
  price : removeAmounts pool redeemed = .ok (baseOut, quoteOut)
  base : after.base.toNat = (before.base.getD 0).toNat + baseOut.toNat
  quote : after.quote.toNat = (before.quote.getD 0).toNat + quoteOut.toNat
  points : (prior.getD 0).toNat = after.points.toNat + redeemed.toNat
  totalPoints : pool.totalPoints.toNat = after.pool.totalPoints.toNat + redeemed.toNat

/-- Whoever gives back points is paid within both limits. -/
theorem remove_terms {redeemed : Points} {baseLimit quoteLimit : Amount} {after : Shared}
    (h : pool.remove before prior redeemed baseLimit quoteLimit = .ok after) :
    ∃ baseOut ≥ baseLimit, ∃ quoteOut ≤ quoteLimit,
      pool.Removed before prior redeemed baseOut quoteOut after := by
  simp only [remove, bind_eq_ok_iff, pure_eq_ok_iff, requireAtMost_eq_ok_iff,
    requireAtLeast_eq_ok_iff, credit_eq_ok_iff, debitPoints_eq_ok_iff, Option.getD_some] at h
  obtain ⟨⟨baseOut, quoteOut⟩, hprice, points, hpoints, _, hbaseLimit, _, hquoteLimit,
    _, -, _, -, totalPoints, htotal, base, hbase, quote, hquote, rfl⟩ := h
  exact ⟨baseOut, hbaseLimit, quoteOut, hquoteLimit, hprice, hbase, hquote, hpoints, htotal⟩

end Pool

end AmmRollup
