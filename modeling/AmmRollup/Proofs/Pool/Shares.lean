import AmmRollup.Proofs.Pool.Liquidity
import Mathlib.Tactic.Ring

/-!
# AmmRollup.Proofs.Pool.Shares

What a point is worth to those who keep theirs.  A reserve per point does not drop when

```
reserve * pointsAfter ≤ reserveAfter * points
```

Giving back points pays shares that are rounded down, so what is left of either reserve is no
less for each point that is left.  Adding base issues points that are rounded down, which is
in favour of the base; but the quote to add is rounded down too.  What the two roundings
leave decides: the quote per point drops where the remainder of the quote weighs more than
that of the points, and by less than one unit of quote (`Pool.reserves_per_point`).
-/

namespace AmmRollup

/-! ## Quotients

Ratios are compared by their cross products, as nothing here divides.  Each rounding is a
remainder, and whether the quote per point drops is a comparison of two of them.
-/

/-- Points are issued, and quote is taken, in proportion to the base that is added, rounded
down. -/
theorem quotients_of_provideAmounts {pool : Pool} {baseIn quoteIn : Amount} {minted : Points}
    (h : provideAmounts pool baseIn = .ok (quoteIn, minted)) :
    minted.toNat = pool.totalPoints.toNat * baseIn.toNat / pool.baseAmount.toNat ∧
      quoteIn.toNat = baseIn.toNat * pool.quoteAmount.toNat / pool.baseAmount.toNat := by
  simp only [provideAmounts, bind_eq_ok_iff, requireNonzero_eq_ok_iff, narrowPoints_eq_ok_iff,
    narrowAmount_eq_ok_iff, pure_eq_ok_iff, Prod.mk.injEq] at h
  obtain ⟨_, -, _, -, _, hminted, _, hquoteIn, rfl, rfl⟩ := h
  exact ⟨hminted, hquoteIn⟩

/-- A share that is rounded down leaves no less for each point that is left. -/
theorem left_per_point {reserve total points : Nat} :
    reserve * (total - points) ≤ (reserve - reserve * points / total) * total := by
  have hpaid : reserve * points / total * total ≤ reserve * points :=
    Nat.div_mul_le_self (reserve * points) total
  rw [Nat.mul_sub, Nat.sub_mul]
  omega

/-- Points that are rounded down cost no less of what they are issued for. -/
theorem issued_per_reserve {reserve total added : Nat} :
    reserve * (total + total * added / reserve) ≤ (reserve + added) * total := by
  have hissued : reserve * (total * added / reserve) ≤ total * added :=
    Nat.mul_div_le (total * added) reserve
  rw [Nat.mul_add, Nat.add_mul, Nat.mul_comm added total]
  omega

section

variable {base quote total added : Nat}

/-- What the points issued for some base, and the quote taken with it, are short of each other. -/
theorem quote_short_of_points (base quote total added : Nat) :
    base * (quote * (total * added / base)) + quote * (total * added % base) =
      base * (added * quote / base * total) + total * (added * quote % base) := by
  calc
    _ = quote * (base * (total * added / base) + total * added % base) := by ring
    _ = total * (base * (added * quote / base) + added * quote % base) := by
      rw [Nat.div_add_mod, Nat.div_add_mod]
      ring
    _ = _ := by ring

/-- The quote per point drops by what its remainder weighs more than that of the points. -/
theorem quote_per_point_iff (hbase : 0 < base) :
    quote * (total + total * added / base) ≤ (quote + added * quote / base) * total ↔
      total * (added * quote % base) ≤ quote * (total * added % base) := by
  have hshort := quote_short_of_points base quote total added
  have hscale : quote * (total * added / base) ≤ added * quote / base * total ↔
      base * (quote * (total * added / base)) ≤ base * (added * quote / base * total) :=
    (Nat.mul_le_mul_left_iff hbase).symm
  rw [Nat.mul_add, Nat.add_mul]
  omega

/-- The quote per point drops by less than one unit of quote. -/
theorem quote_per_point_lt (hbase : 0 < base) (htotal : 0 < total) :
    quote * (total + total * added / base) < (quote + added * quote / base + 1) * total := by
  have hshort := quote_short_of_points base quote total added
  have hremainder : total * (added * quote % base) < total * base :=
    Nat.mul_lt_mul_of_pos_left (Nat.mod_lt _ hbase) htotal
  have hscaled : base * (quote * (total * added / base)) <
      base * (added * quote / base * total + total) := by
    rw [Nat.mul_add base, Nat.mul_comm base total]
    omega
  have hlt := Nat.lt_of_mul_lt_mul_left hscaled
  rw [Nat.mul_add, Nat.add_mul, Nat.add_mul]
  omega

end

/-! ## Pools

Adding base issues points rounded down, in favour of those who hold some already, and takes quote
rounded down, in favour of whoever adds.  Either may win, so the quote per point can drop, by
less than a unit of quote.
-/

namespace Pool

variable {pool : Pool} {before : PairBalances} {prior : Option Points}

/-- Base joins the pool as it was added, quote and points join it rounded down. -/
theorem reserves_of_provide {baseIn quoteLimit : Amount} {after : Shared}
    (h : pool.provide before prior baseIn quoteLimit = .ok after) :
    0 < pool.baseAmount.toNat ∧
      after.pool.baseAmount.toNat = pool.baseAmount.toNat + baseIn.toNat ∧
      after.pool.quoteAmount.toNat = pool.quoteAmount.toNat +
        baseIn.toNat * pool.quoteAmount.toNat / pool.baseAmount.toNat ∧
      after.pool.totalPoints.toNat = pool.totalPoints.toNat +
        pool.totalPoints.toNat * baseIn.toNat / pool.baseAmount.toNat := by
  obtain ⟨quoteIn, -, minted, hterms⟩ := provide_terms h
  obtain ⟨hbase, hquote⟩ := (provide_conserves h).1
  obtain ⟨hminted, hquoteIn⟩ := quotients_of_provideAmounts hterms.price
  have hpoints := hterms.totalPoints
  have hpaid := hterms.base
  have hpaid' := hterms.quote
  simp only [Option.elim_some] at hbase hquote
  rw [← hminted, ← hquoteIn]
  exact ⟨pos_of_provideAmounts hterms.price, by omega, by omega, hpoints⟩

/-- Shares of both reserves leave the pool rounded down, and the points for them leave it too. -/
theorem reserves_of_remove {redeemed : Points} {baseLimit quoteLimit : Amount} {after : Shared}
    (h : pool.remove before prior redeemed baseLimit quoteLimit = .ok after) :
    after.pool.baseAmount.toNat = pool.baseAmount.toNat -
        pool.baseAmount.toNat * redeemed.toNat / pool.totalPoints.toNat ∧
      after.pool.quoteAmount.toNat = pool.quoteAmount.toNat -
        pool.quoteAmount.toNat * redeemed.toNat / pool.totalPoints.toNat ∧
      after.pool.totalPoints.toNat = pool.totalPoints.toNat - redeemed.toNat := by
  obtain ⟨baseOut, -, quoteOut, -, hterms⟩ := remove_terms h
  obtain ⟨hbase, hquote⟩ := (remove_conserves h).1
  obtain ⟨-, -, hbaseOut, hquoteOut⟩ := share_of_removeAmounts hterms.price
  have hpoints := hterms.totalPoints
  have hpaid := hterms.base
  have hpaid' := hterms.quote
  simp only [Option.elim_some] at hbase hquote
  rw [← hbaseOut, ← hquoteOut]
  exact ⟨by omega, by omega, by omega⟩

/-- **What a point is worth to the others.**  The base per point never drops, and neither does
the quote per point when points are given back.  When base is added the quote per point drops
where the remainder of the quote, times the points, is more than that of the points, times the
quote; and then by less than one unit of quote in the pool. -/
theorem reserves_per_point (hpoints : 0 < pool.totalPoints.toNat) :
    (∀ before prior baseIn quoteLimit after,
      pool.provide before prior baseIn quoteLimit = .ok after →
      pool.baseAmount.toNat * after.pool.totalPoints.toNat ≤
        after.pool.baseAmount.toNat * pool.totalPoints.toNat ∧
      (pool.quoteAmount.toNat * after.pool.totalPoints.toNat ≤
          after.pool.quoteAmount.toNat * pool.totalPoints.toNat ↔
        pool.totalPoints.toNat *
            (baseIn.toNat * pool.quoteAmount.toNat % pool.baseAmount.toNat) ≤
          pool.quoteAmount.toNat *
            (pool.totalPoints.toNat * baseIn.toNat % pool.baseAmount.toNat)) ∧
      pool.quoteAmount.toNat * after.pool.totalPoints.toNat <
        (after.pool.quoteAmount.toNat + 1) * pool.totalPoints.toNat) ∧
    (∀ before prior redeemed baseLimit quoteLimit after,
      pool.remove before prior redeemed baseLimit quoteLimit = .ok after →
      pool.baseAmount.toNat * after.pool.totalPoints.toNat ≤
        after.pool.baseAmount.toNat * pool.totalPoints.toNat ∧
      pool.quoteAmount.toNat * after.pool.totalPoints.toNat ≤
        after.pool.quoteAmount.toNat * pool.totalPoints.toNat) := by
  constructor
  · intro before prior baseIn quoteLimit after h
    obtain ⟨hpos, hbase, hquote, htotal⟩ := reserves_of_provide h
    rw [hbase, hquote, htotal]
    exact ⟨issued_per_reserve, quote_per_point_iff hpos, quote_per_point_lt hpos hpoints⟩
  · intro before prior redeemed baseLimit quoteLimit after h
    obtain ⟨hbase, hquote, htotal⟩ := reserves_of_remove h
    rw [hbase, hquote, htotal]
    exact ⟨left_per_point, left_per_point⟩

/-- A pool of two base and three quote, with six points. -/
def narrow : Pool := ⟨.ofBytes [1], .ofBytes [2], 2, 3, 6⟩

/-- One base is worth one quote and a half there.  It is added with one quote, for three points,
which leaves four quote for nine points.  Five of the six points are given back for one base and
two quote, which leaves one of either for the last. -/
theorem reserves_per_point_narrow :
    (∃ after, narrow.provide ⟨some 1, some 1⟩ none 1 1 = .ok after ∧
      after.pool = { narrow with baseAmount := 3, quoteAmount := 4, totalPoints := 9 } ∧
      2 * 9 ≤ 3 * 6 ∧ (3 * 9 ≤ 4 * 6 ↔ 6 * (1 * 3 % 2) ≤ 3 * (6 * 1 % 2)) ∧ 3 * 9 < (4 + 1) * 6) ∧
    ∃ after, narrow.remove ⟨none, none⟩ (some 6) 5 1 2 = .ok after ∧
      after.pool = { narrow with baseAmount := 1, quoteAmount := 1, totalPoints := 1 } ∧
      2 * 1 ≤ 1 * 6 ∧ 3 * 1 ≤ 1 * 6 := by
  obtain ⟨providing, removing⟩ := @reserves_per_point narrow (by decide)
  refine ⟨⟨_, by rfl, by rfl, ?_⟩, ⟨_, by rfl, by rfl, ?_⟩⟩
  · exact providing ⟨some 1, some 1⟩ none 1 1 _ (by rfl)
  · exact removing ⟨none, none⟩ (some 6) 5 1 2 _ (by rfl)

/-- Not everyone who adds base keeps the quote per point of the others. -/
theorem not_all_provisions_keep_quote :
    ¬ ∀ (pool : Pool) (before : PairBalances) (prior : Option Points)
      (baseIn quoteLimit : Amount) (after : Shared), pool.Live →
      pool.provide before prior baseIn quoteLimit = .ok after →
      pool.quoteAmount.toNat * after.pool.totalPoints.toNat ≤
        after.pool.quoteAmount.toNat * pool.totalPoints.toNat := by
  intro h
  have hlive : narrow.Live := ⟨by decide, by decide, by decide⟩
  have hquote := h narrow ⟨some 1, some 1⟩ none 1 1
    ⟨{ narrow with baseAmount := 3, quoteAmount := 4, totalPoints := 9 }, 0, 0, 3⟩ hlive
    (by decide)
  exact absurd hquote (by decide)

end Pool

end AmmRollup
