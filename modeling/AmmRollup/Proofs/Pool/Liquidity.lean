import AmmRollup.Proofs.Pool.Terms

/-!
# AmmRollup.Proofs.Pool.Liquidity

A pool is either live or drained.  A live pool has both reserves and points for them; a
drained one has none of the three.  Every price is a quotient rounded down, and none of
the roundings empties one side alone: trades leave some of what they take out, providing
adds to all three, and only the last points take the last of both reserves
(`Pool.remove_steady`).  A drained pool serves nobody, so it stays as it is, and points
that are there to be given back can be (`Pool.remove_ne_underflow`).
-/

namespace AmmRollup

namespace Pool

/-- The pool has both reserves, and points for them. -/
structure Live (p : Pool) : Prop where
  base : 0 < p.baseAmount.toNat
  quote : 0 < p.quoteAmount.toNat
  points : 0 < p.totalPoints.toNat

/-- All points were given back, and the reserves are gone. -/
structure Drained (p : Pool) : Prop where
  base : p.baseAmount = 0
  quote : p.quoteAmount = 0
  points : p.totalPoints = 0

/-- A pool is not live and drained. -/
theorem Live.not_drained {p : Pool} (h : p.Live) : ¬ p.Drained := fun hd => by
  have := h.base
  rw [hd.base] at this
  contradiction

variable {pool : Pool} {before : PairBalances} {prior : Option Points}

/-! ## Prices

What a price says about the pool it is of: there is none where a reserve would be emptied, or
where there is nothing to share.
-/

/-- A swap leaves some of what it takes out. -/
theorem lt_of_swapCost {reserveOut reserveIn out cost : Amount}
    (h : swapCost reserveOut reserveIn out = .ok cost) : out.toNat < reserveOut.toNat := by
  simp only [swapCost, bind_eq_ok_iff, debit_eq_ok_iff, requireNonzero_eq_ok_iff,
    Option.getD_some] at h
  obtain ⟨remaining, hremaining, _, hpos, -⟩ := h
  omega

theorem lt_of_buyCost {base quote amount paid : Amount} (h : buyCost base quote amount = .ok paid) :
    amount.toNat < base.toNat := by
  obtain ⟨cost, hcost, -⟩ := bind_eq_ok_iff.mp h
  exact lt_of_swapCost hcost

theorem lt_of_sellCost {base quote amount paid : Amount}
    (h : sellCost base quote amount = .ok paid) : amount.toNat < quote.toNat := by
  obtain ⟨cost, hcost, -⟩ := bind_eq_ok_iff.mp h
  exact lt_of_swapCost hcost

/-- Only a pool with base can be added to. -/
theorem pos_of_provideAmounts {baseIn quoteIn : Amount} {minted : Points}
    (h : provideAmounts pool baseIn = .ok (quoteIn, minted)) : 0 < pool.baseAmount.toNat := by
  simp only [provideAmounts, bind_eq_ok_iff, requireNonzero_eq_ok_iff] at h
  obtain ⟨_, -, _, hpos, -⟩ := h
  exact hpos

/-- What leaves a pool for points is their share of either reserve, rounded down. -/
theorem share_of_removeAmounts {points : Points} {baseOut quoteOut : Amount}
    (h : removeAmounts pool points = .ok (baseOut, quoteOut)) :
    0 < pool.totalPoints.toNat ∧ 0 < pool.baseAmount.toNat ∧
      baseOut.toNat = pool.baseAmount.toNat * points.toNat / pool.totalPoints.toNat ∧
      quoteOut.toNat = pool.quoteAmount.toNat * points.toNat / pool.totalPoints.toNat := by
  simp only [removeAmounts, bind_eq_ok_iff, requireNonzero_eq_ok_iff, narrowAmount_eq_ok_iff,
    pure_eq_ok_iff, Prod.mk.injEq] at h
  obtain ⟨_, -, _, htotal, _, hbase, _, hbaseOut, _, hquoteOut, rfl, rfl⟩ := h
  exact ⟨htotal, hbase, hbaseOut, hquoteOut⟩

/-! ## Shares

A share is rounded down, so it is less than the whole unless it is for all of the points.  That
is what keeps a reserve from running out while points are left.
-/

/-- A share rounded down is no more than the whole. -/
theorem share_le {reserve points total : Nat} (h : points ≤ total) :
    reserve * points / total ≤ reserve :=
  Nat.div_le_of_le_mul (Nat.mul_comm reserve points ▸ Nat.mul_le_mul_right reserve h)

/-- A share rounded down is less than the whole if it is for less than all points. -/
theorem share_lt {reserve points total : Nat} (hpos : 0 < reserve) (h : points < total) :
    reserve * points / total < reserve :=
  Nat.div_lt_of_lt_mul (Nat.mul_comm reserve points ▸ Nat.mul_lt_mul_of_pos_right h hpos)

/-- The share for all points is the whole. -/
theorem share_all {reserve total : Nat} (hpos : 0 < total) : reserve * total / total = reserve :=
  Nat.mul_div_cancel reserve hpos

/-! ## Operations

A live pool has points and both reserves.  Every operation keeps a pool live, but for giving back
the last points, which drains it: and a drained pool takes part in nothing any more.
-/

/-- Only a live pool sells base, and stays live. -/
theorem buy_live {amount limit : Amount} {after : Traded} (hpool : pool.Live ∨ pool.Drained)
    (h : pool.buy before amount limit = .ok after) : pool.Live ∧ after.pool.Live := by
  obtain ⟨paid, -, hterms⟩ := buy_terms h
  obtain ⟨hbase, hquote⟩ := (buy_conserves h).1
  have hlt := lt_of_buyCost hterms.price
  have hlive : pool.Live := hpool.resolve_right fun hd => by
    rw [hd.base] at hlt
    exact absurd hlt (Nat.not_lt_zero _)
  have := hterms.base
  have := hterms.quote
  have := hlive.quote
  simp only [Option.elim_some] at hbase hquote
  exact ⟨hlive, by omega, by omega, hterms.points ▸ hlive.points⟩

/-- Only a live pool sells quote, and stays live. -/
theorem sell_live {amount limit : Amount} {after : Traded} (hpool : pool.Live ∨ pool.Drained)
    (h : pool.sell before amount limit = .ok after) : pool.Live ∧ after.pool.Live := by
  obtain ⟨paid, -, hterms⟩ := sell_terms h
  obtain ⟨hbase, hquote⟩ := (sell_conserves h).1
  have hlt := lt_of_sellCost hterms.price
  have hlive : pool.Live := hpool.resolve_right fun hd => by
    rw [hd.quote] at hlt
    exact absurd hlt (Nat.not_lt_zero _)
  have := hterms.base
  have := hterms.quote
  have := hlive.base
  simp only [Option.elim_some] at hbase hquote
  exact ⟨hlive, by omega, by omega, hterms.points ▸ hlive.points⟩

/-- A pool is live when it is opened. -/
theorem opened_live {base quote : Token} {baseAmount quoteAmount : Amount} {after : Shared}
    (h : Pool.opened base quote before baseAmount quoteAmount = .ok after) : after.pool.Live := by
  have hterms := opened_terms h
  obtain ⟨hbase, hquote⟩ := (opened_conserves h).1
  have hb := hterms.base_pos
  have hq := hterms.quote_pos
  have := hterms.base
  have := hterms.quote
  simp only [Option.elim_none] at hbase hquote
  refine ⟨by omega, by omega, ?_⟩
  rw [hterms.totalPoints, hterms.points]
  exact Nat.mul_pos hb hq

/-- Only a live pool is added to, and stays live. -/
theorem provide_live {baseIn quoteLimit : Amount} {after : Shared}
    (hpool : pool.Live ∨ pool.Drained)
    (h : pool.provide before prior baseIn quoteLimit = .ok after) :
    pool.Live ∧ after.pool.Live := by
  obtain ⟨quoteIn, -, minted, hterms⟩ := provide_terms h
  obtain ⟨hbase, hquote⟩ := (provide_conserves h).1
  have hpos := pos_of_provideAmounts hterms.price
  have hlive : pool.Live := hpool.resolve_right fun hd => by
    rw [hd.base] at hpos
    exact absurd hpos (Nat.not_lt_zero _)
  have := hterms.base
  have := hterms.quote
  have := hterms.totalPoints
  obtain ⟨hb, hq, hp⟩ := id hlive
  simp only [Option.elim_some] at hbase hquote
  exact ⟨hlive, by omega, by omega, by omega⟩

/-- Only a live pool gives anything back.  It stays live, unless all points are given back:
then nothing is left. -/
theorem remove_steady {redeemed : Points} {baseLimit quoteLimit : Amount} {after : Shared}
    (hpool : pool.Live ∨ pool.Drained)
    (h : pool.remove before prior redeemed baseLimit quoteLimit = .ok after) :
    pool.Live ∧ (after.pool.Live ∨ after.pool.Drained) := by
  obtain ⟨baseOut, -, quoteOut, -, hterms⟩ := remove_terms h
  obtain ⟨hbase, hquote⟩ := (remove_conserves h).1
  obtain ⟨htotal, hpos, hbaseOut, hquoteOut⟩ := share_of_removeAmounts hterms.price
  have hlive : pool.Live := hpool.resolve_right fun hd => by
    rw [hd.base] at hpos
    exact absurd hpos (Nat.not_lt_zero _)
  have hb := hterms.base
  have hq := hterms.quote
  have hpoints := hterms.totalPoints
  simp only [Option.elim_some] at hbase hquote
  refine ⟨hlive, ?_⟩
  -- whoever gives back the last points is paid both reserves, and any fewer leave some of each
  rcases Nat.eq_zero_or_pos after.pool.totalPoints.toNat with hzero | hsome
  · right
    have hall : redeemed.toNat = pool.totalPoints.toNat := by omega
    rw [hall, share_all htotal] at hbaseOut hquoteOut
    exact ⟨UInt64.toNat_inj.mp (by simp; omega), UInt64.toNat_inj.mp (by simp; omega),
      BitVec.eq_of_toNat_eq hzero⟩
  · left
    have hbaseLt := share_lt hlive.base (show redeemed.toNat < pool.totalPoints.toNat by omega)
    have hquoteLt := share_lt hlive.quote (show redeemed.toNat < pool.totalPoints.toNat by omega)
    exact ⟨by omega, by omega, hsome⟩

/-! ## Giving back points

Giving back points that are there never fails for want of anything: checks for zero, limits and
widths may refuse it, but no debit does.
-/

/-- Only taking away can fall below zero: checking for zero does not. -/
theorem requireNonzero_ne_underflow {n : Nat} {quantity : Quantity} :
    requireNonzero n quantity ≠ .error .underflow := by
  unfold requireNonzero
  split <;> simp

/-- Checking a limit does not fall below zero. -/
theorem requireAtMost_ne_underflow {limit actual : Amount} :
    requireAtMost limit actual ≠ .error .underflow := by
  unfold requireAtMost
  split <;> simp

theorem requireAtLeast_ne_underflow {limit actual : Amount} :
    requireAtLeast limit actual ≠ .error .underflow := by
  unfold requireAtLeast
  split <;> simp

/-- Fitting a width does not fall below zero. -/
theorem narrowAmount_ne_underflow {n : Nat} : narrowAmount n ≠ .error .underflow := by
  unfold narrowAmount
  split <;> simp

/-- Taking what is there does not fall below zero. -/
theorem debit_ne_underflow {prior : Option Amount} {amount : Amount}
    (h : amount.toNat ≤ (prior.getD 0).toNat) : debit prior amount ≠ .error .underflow := by
  rw [debit, if_pos (UInt64.le_iff_toNat_le.mpr h)]
  simp

theorem debitPoints_ne_underflow {points : Points} (h : points ≤ prior.getD 0) :
    debitPoints prior points ≠ .error .underflow := by
  rw [debitPoints, if_pos h]
  simp

theorem removeAmounts_ne_underflow {points : Points} :
    removeAmounts pool points ≠ .error .underflow := by
  unfold removeAmounts
  refine bind_ne_error requireNonzero_ne_underflow fun _ _ => ?_
  refine bind_ne_error requireNonzero_ne_underflow fun _ _ => ?_
  refine bind_ne_error requireNonzero_ne_underflow fun _ _ => ?_
  refine bind_ne_error narrowAmount_ne_underflow fun _ _ => ?_
  exact bind_ne_error narrowAmount_ne_underflow fun _ _ => pure_ne_error

/-- Points that are there, with their account and in the pool, are given back without
taking anything that is not there. -/
theorem remove_ne_underflow {redeemed : Points} {baseLimit quoteLimit : Amount}
    (hprior : redeemed ≤ prior.getD 0) (htotal : redeemed ≤ pool.totalPoints) :
    pool.remove before prior redeemed baseLimit quoteLimit ≠ .error .underflow := by
  unfold remove
  refine bind_ne_error removeAmounts_ne_underflow ?_
  rintro ⟨baseOut, quoteOut⟩ hamounts
  obtain ⟨-, -, hbaseOut, hquoteOut⟩ := share_of_removeAmounts hamounts
  have hle : redeemed.toNat ≤ pool.totalPoints.toNat := BitVec.le_def.mp htotal
  refine bind_ne_error (debitPoints_ne_underflow hprior) fun _ _ => ?_
  refine bind_ne_error requireAtLeast_ne_underflow fun _ _ => ?_
  refine bind_ne_error requireAtMost_ne_underflow fun _ _ => ?_
  refine bind_ne_error (debit_ne_underflow (hbaseOut ▸ share_le hle)) fun _ _ => ?_
  refine bind_ne_error (debit_ne_underflow (hquoteOut ▸ share_le hle)) fun _ _ => ?_
  refine bind_ne_error (debitPoints_ne_underflow htotal) fun _ _ => ?_
  refine bind_ne_error narrowAmount_ne_underflow fun _ _ => ?_
  exact bind_ne_error narrowAmount_ne_underflow fun _ _ => pure_ne_error

end Pool

end AmmRollup
