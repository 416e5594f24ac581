import AmmRollup.Proofs.Pool.Exact
import AmmRollup.Proofs.Pool.Shares

/-!
# AmmRollup.Proofs.Pool.Redemption

Points that are given back as soon as they are issued.  They pay a share of either reserve
that is rounded down, and so were the points and the quote taken for them.  A share pays no
more than the reserve has grown by, as long as the reserve per point has not dropped by a
whole unit (`share_le_growth`); and that is all that issuing points can do to it.  So no
account gains by adding base and taking it back (`Pool.redeems_at_most`,
`Pool.remove_after_provide`).
-/

namespace AmmRollup

/-! ## Shares

Points are rounded down when base is added, and what is paid for them is rounded down again.  The
quote that is added is rounded down as well, which is in favour of the account; but the quote per
point drops by less than a unit, and the last rounding takes that back.
-/

/-- Where a reserve per point has dropped by less than a unit, the points that were issued pay no
more than the reserve has grown by. -/
theorem share_le_growth {reserve grown points issued : Nat}
    (h : reserve * (points + issued) < (reserve + grown + 1) * points) :
    (reserve + grown) * issued / (points + issued) ≤ grown := by
  have hscaled : (reserve + grown) * issued < (grown + 1) * (points + issued) := by
    rw [Nat.mul_add, Nat.add_mul, Nat.add_mul, Nat.one_mul] at h
    rw [Nat.add_mul, Nat.add_mul, Nat.mul_add, Nat.one_mul]
    omega
  exact Nat.le_of_lt_succ (Nat.div_lt_of_lt_mul (Nat.mul_comm (grown + 1) _ ▸ hscaled))

section

variable {base quote total added : Nat}

/-- The points that were issued for some base pay no more base than that. -/
theorem base_share_le (htotal : 0 < total) :
    (base + added) * (total * added / base) / (total + total * added / base) ≤ added := by
  have hissued : base * (total + total * added / base) ≤ (base + added) * total :=
    issued_per_reserve
  apply share_le_growth
  rw [Nat.add_mul _ 1, Nat.one_mul]
  omega

/-- The points that were issued for some base pay no more quote than was taken with it. -/
theorem quote_share_le (hbase : 0 < base) (htotal : 0 < total) :
    (quote + added * quote / base) * (total * added / base) / (total + total * added / base) ≤
      added * quote / base :=
  share_le_growth (quote_per_point_lt hbase htotal)

end

/-! ## Pools

The same of whole pools, and that the points just issued can be redeemed at all: what they are
paid is within the reserves, so it has the width of an amount.
-/

namespace Pool

variable {pool : Pool} {baseIn quoteIn : Amount} {minted : Points}

/-- Where points are issued there were some before. -/
theorem totalPoints_pos_of_provideAmounts
    (h : provideAmounts pool baseIn = .ok (quoteIn, minted)) (hminted : 0 < minted.toNat) :
    0 < pool.totalPoints.toNat := by
  rw [(quotients_of_provideAmounts h).1] at hminted
  exact Nat.pos_of_mul_pos_right (Nat.pos_of_div_pos hminted)

/-- Nothing is paid for no points. -/
theorem pos_of_removeAmounts {points : Points} {baseOut quoteOut : Amount}
    (h : removeAmounts pool points = .ok (baseOut, quoteOut)) : 0 < points.toNat := by
  simp only [removeAmounts, bind_eq_ok_iff, requireNonzero_eq_ok_iff] at h
  obtain ⟨_, hpos, -⟩ := h
  exact hpos

/-- The points that are issued get a share of neither reserve that is larger than what was added
to it. -/
theorem shares_of_provideAmounts (h : provideAmounts pool baseIn = .ok (quoteIn, minted))
    (htotal : 0 < pool.totalPoints.toNat) :
    (pool.baseAmount.toNat + baseIn.toNat) * minted.toNat /
        (pool.totalPoints.toNat + minted.toNat) ≤ baseIn.toNat ∧
      (pool.quoteAmount.toNat + quoteIn.toNat) * minted.toNat /
        (pool.totalPoints.toNat + minted.toNat) ≤ quoteIn.toNat := by
  obtain ⟨hissued, htaken⟩ := quotients_of_provideAmounts h
  rw [hissued, htaken]
  exact ⟨base_share_le htotal, quote_share_le (pos_of_provideAmounts h) htotal⟩

/-- An account that adds base and at once gives back the points it was issued holds no more of
either token than before, and the points it held. -/
theorem remove_after_provide {before : PairBalances} {prior : Option Points}
    {quoteLimit baseLimit quoteLimit' : Amount} {provided after : Shared}
    (hin : pool.provide before prior baseIn quoteLimit = .ok provided)
    (hminted : provided.pool.totalPoints.toNat = pool.totalPoints.toNat + minted.toNat)
    (hout : provided.pool.remove ⟨some provided.base, some provided.quote⟩
      (some provided.points) minted baseLimit quoteLimit' = .ok after) :
    after.base ≤ before.base.getD 0 ∧ after.quote ≤ before.quote.getD 0 ∧
      after.points = prior.getD 0 := by
  obtain ⟨quoteIn, -, issued, hprovided⟩ := provide_terms hin
  obtain ⟨baseOut, -, quoteOut, -, hremoved⟩ := remove_terms hout
  -- the total tells that the points given back are those that were issued
  obtain rfl : issued = minted := by
    have htotal := hprovided.totalPoints
    exact BitVec.eq_of_toNat_eq (by omega)
  obtain ⟨-, hbaseGrown, hquoteGrown, -⟩ := reserves_of_provide hin
  rw [← (quotients_of_provideAmounts hprovided.price).2] at hquoteGrown
  obtain ⟨-, -, hbaseOut, hquoteOut⟩ := share_of_removeAmounts hremoved.price
  rw [hbaseGrown, hminted] at hbaseOut
  rw [hquoteGrown, hminted] at hquoteOut
  obtain ⟨hbaseShare, hquoteShare⟩ := shares_of_provideAmounts hprovided.price
    (totalPoints_pos_of_provideAmounts hprovided.price (pos_of_removeAmounts hremoved.price))
  have hpoints := hprovided.points.symm.trans hremoved.points
  have hbase := hprovided.base
  have hquote := hprovided.quote
  have hbase' := hremoved.base
  have hquote' := hremoved.quote
  simp only [Option.getD_some] at hbase' hquote' hpoints
  exact ⟨UInt64.le_iff_toNat_le.mpr (by omega), UInt64.le_iff_toNat_le.mpr (by omega),
    BitVec.eq_of_toNat_eq (by omega)⟩

variable {enlarged : Pool}

/-- **Nothing is gained by adding base and taking it back.**  The points that are issued for some
base, redeemed from the pool with that base, its quote and its points added, pay at most that
base and that quote. -/
theorem redeems_at_most (hprice : provideAmounts pool baseIn = .ok (quoteIn, minted))
    (hminted : 0 < minted.toNat)
    (hbase : enlarged.baseAmount.toNat = pool.baseAmount.toNat + baseIn.toNat)
    (hquote : enlarged.quoteAmount.toNat = pool.quoteAmount.toNat + quoteIn.toNat)
    (hpoints : enlarged.totalPoints.toNat = pool.totalPoints.toNat + minted.toNat) :
    ∃ baseOut ≤ baseIn, ∃ quoteOut ≤ quoteIn,
      removeAmounts enlarged minted = .ok (baseOut, quoteOut) := by
  have hpos := pos_of_provideAmounts hprice
  have htotal := totalPoints_pos_of_provideAmounts hprice hminted
  obtain ⟨hbaseShare, hquoteShare⟩ := shares_of_provideAmounts hprice htotal
  rw [← hbase, ← hpoints, ← floorRatio_eq] at hbaseShare
  rw [← hquote, ← hpoints, ← floorRatio_eq] at hquoteShare
  have hremoval : ExactRemoval enlarged minted :=
    exactRemoval hminted (by omega) (by omega)
  obtain ⟨⟨baseOut, quoteOut⟩, hok, hbaseOut, hquoteOut⟩ := hremoval.value
    ⟨hbaseShare.trans_lt baseIn.toNat_lt, hquoteShare.trans_lt quoteIn.toNat_lt⟩
  exact ⟨baseOut, UInt64.le_iff_toNat_le.mpr (hbaseOut.trans_le hbaseShare), quoteOut,
    UInt64.le_iff_toNat_le.mpr (hquoteOut.trans_le hquoteShare), hok⟩

/-- A pool of three base and ten quote, with seven points. -/
def uneven : Pool := ⟨.ofBytes [1], .ofBytes [2], 3, 10, 7⟩

/-- Two base are added there with six quote, for four points; and four points of eleven give back
one base of five and five quote of sixteen. -/
theorem redeems_at_most_uneven :
    provideAmounts uneven 2 = .ok (6, 4) ∧ removeAmounts
      { uneven with baseAmount := 5, quoteAmount := 16, totalPoints := 11 } 4 = .ok (1, 5) ∧
    ∃ baseOut ≤ (2 : Amount), ∃ quoteOut ≤ (6 : Amount), removeAmounts
      { uneven with baseAmount := 5, quoteAmount := 16, totalPoints := 11 } 4 =
        .ok (baseOut, quoteOut) := by
  have hprice : provideAmounts uneven 2 = .ok (6, 4) := by decide
  exact ⟨hprice, by decide,
    redeems_at_most hprice (by decide) (by decide) (by decide) (by decide)⟩

end Pool

end AmmRollup
