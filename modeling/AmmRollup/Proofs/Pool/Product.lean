import AmmRollup.Proofs.Pool.Terms

/-!
# AmmRollup.Proofs.Pool.Product

What a trade does to the product of a pool's reserves.  The price before the fee is a
quotient rounded down, and the remainder of that quotient is lost to the product.  The fee
gives it back what stays of the sold reserve, once for every whole thousand of the price
(`product_of_swapCost`):

```
after + before % left = before + left * (cost / 1000)
```

The remainder is less than what stays, so a price of a thousand or more keeps the product.
Below a thousand the fee itself is rounded down to nothing, and the product is kept only
where the quotient is exact (`Pool.product_of_trade`).  A small trade whose quotient is not
exact shrinks it (`Pool.not_all_trades_keep_product`), but never by as much as what stays of
the sold reserve (`Pool.rounding_loss_bounded`).
-/

namespace AmmRollup

/-! ## Prices

A swap is priced at what the other reserve lacks to the quotient, rounded down, with one in a
thousand on top, rounded down as well.
-/

/-- The fee is one for every whole thousand. -/
theorem paid_of_applyFee {cost paid : Amount} (h : applyFee cost = .ok paid) :
    paid.toNat = cost.toNat + cost.toNat / 1000 := by
  rw [applyFee, narrowAmount_eq_ok_iff] at h
  omega

/-- The price is what the other reserve lacks to the quotient, rounded down. -/
theorem quotient_of_swapCost {reserveOut reserveIn out cost left : Amount}
    (hcost : swapCost reserveOut reserveIn out = .ok cost)
    (hleft : debit (some reserveOut) out = .ok left) :
    0 < left.toNat ∧
      reserveOut.toNat * reserveIn.toNat / left.toNat = reserveIn.toNat + cost.toNat := by
  simp only [swapCost, hleft, bind_eq_ok_iff, requireNonzero_eq_ok_iff, narrowAmount_eq_ok_iff,
    debit_eq_ok_iff, Option.getD_some, Except.ok.injEq] at hcost
  obtain ⟨_, rfl, _, hpos, required, hrequired, hprice⟩ := hcost
  exact ⟨hpos, by omega⟩

/-! ## Products

The product of the reserves changes by two roundings.  The quotient is rounded down, so what is
required is short of the product by its remainder; and the fee, which is there to make up for it,
is nothing below a thousand.
-/

/-- The product of the reserves. -/
def Pool.product (p : Pool) : Nat := p.baseAmount.toNat * p.quoteAmount.toNat

/-- What a trade makes of the product of the reserves: `left` stays of the one reserve, and the
trade is priced at `cost` before the fee. -/
structure ProductChange (before after left cost : Nat) : Prop where
  change : after + before % left = before + left * (cost / 1000)
  kept : before ≤ after ↔ left ∣ before ∨ 1000 ≤ cost

/-- What the fee adds to the product: nothing below a thousand, and what stays of the sold reserve
at least from there on. -/
theorem fee_scaled (left cost : Nat) :
    cost < 1000 ∧ left * (cost / 1000) = 0 ∨ 1000 ≤ cost ∧ left ≤ left * (cost / 1000) := by
  rcases Nat.lt_or_ge cost 1000 with hcost | hcost
  · exact .inl ⟨hcost, by rw [Nat.div_eq_of_lt hcost, Nat.mul_zero]⟩
  · exact .inr ⟨hcost, Nat.le_mul_of_pos_right left (Nat.div_pos hcost (by decide))⟩

/-- The product is kept where nothing was rounded down, or where the fee is not. -/
theorem ProductChange.of_change {before after left cost : Nat} (hpos : 0 < left)
    (h : after + before % left = before + left * (cost / 1000)) :
    ProductChange before after left cost := by
  have hlt : before % left < left := Nat.mod_lt before hpos
  have hfee := fee_scaled left cost
  refine ⟨h, ?_⟩
  rw [Nat.dvd_iff_mod_eq_zero]
  omega

/-- What is paid at a price takes the remainder of the quotient from the product, and adds the
fee, whether or not the other reserve has room for it. -/
theorem product_of_paid {reserveOut reserveIn out cost paid left : Amount}
    (hcost : swapCost reserveOut reserveIn out = .ok cost) (hpaid : applyFee cost = .ok paid)
    (hleft : debit (some reserveOut) out = .ok left) :
    left.toNat * (reserveIn.toNat + paid.toNat) + reserveOut.toNat * reserveIn.toNat % left.toNat =
      reserveOut.toNat * reserveIn.toNat + left.toNat * (cost.toNat / 1000) := by
  obtain ⟨-, hquotient⟩ := quotient_of_swapCost hcost hleft
  have hfee := paid_of_applyFee hpaid
  have hgain : reserveIn.toNat + paid.toNat =
      reserveOut.toNat * reserveIn.toNat / left.toNat + cost.toNat / 1000 := by omega
  rw [hgain, Nat.mul_add, Nat.add_right_comm, Nat.div_add_mod]

/-- A trade takes the remainder of its price from the product, and adds the fee. -/
theorem product_of_swapCost {reserveOut reserveIn out cost paid left right : Amount}
    (hcost : swapCost reserveOut reserveIn out = .ok cost) (hpaid : applyFee cost = .ok paid)
    (hleft : debit (some reserveOut) out = .ok left)
    (hright : credit (some reserveIn) paid = .ok right) :
    ProductChange (reserveOut.toNat * reserveIn.toNat) (left.toNat * right.toNat) left.toNat
      cost.toNat := by
  obtain ⟨hpos, -⟩ := quotient_of_swapCost hcost hleft
  rw [credit_eq_ok_iff, Option.getD_some] at hright
  apply ProductChange.of_change hpos
  rw [hright]
  exact product_of_paid hcost hpaid hleft

/-! ## Rounding

How much a trade can take from the product follows: less than what stays of the reserve that is
sold, and from a cost of a thousand on nothing at all, as each unit of the fee adds what stays of
that reserve, which is more than any remainder.
-/

/-- A swap is priced at `cost` before the fee and at `paid` with it.  With `remaining` left of
the one reserve and all that was paid added to the other, their product is short of what it was
by less than `remaining`, and beyond what it was exactly from a price of a thousand on. -/
structure LossBound (reserveOut reserveIn remaining cost paid : Nat) : Prop where
  short : reserveOut * reserveIn < remaining * (reserveIn + paid) + remaining
  beyond : reserveOut * reserveIn < remaining * (reserveIn + paid) ↔ 1000 ≤ cost

/-- The remainder is less than what stays, and the fee is nothing below a thousand. -/
theorem LossBound.of_change {reserveOut reserveIn remaining cost paid : Nat} (hpos : 0 < remaining)
    (h : remaining * (reserveIn + paid) + reserveOut * reserveIn % remaining =
      reserveOut * reserveIn + remaining * (cost / 1000)) :
    LossBound reserveOut reserveIn remaining cost paid := by
  have hlt : reserveOut * reserveIn % remaining < remaining := Nat.mod_lt _ hpos
  have hfee := fee_scaled remaining cost
  exact ⟨by omega, by omega⟩

/-- Every swap that has a price leaves some of what it takes out. -/
theorem lossBound_of_priced {reserveOut reserveIn out paid : Amount}
    (h : (swapCost reserveOut reserveIn out >>= applyFee) = .ok paid) :
    ∃ cost, swapCost reserveOut reserveIn out = .ok cost ∧ out.toNat < reserveOut.toNat ∧
      LossBound reserveOut.toNat reserveIn.toNat (reserveOut.toNat - out.toNat) cost.toNat
        paid.toNat := by
  obtain ⟨cost, hcost, hpaid⟩ := bind_eq_ok_iff.mp h
  obtain ⟨left, hleft, -⟩ := bind_eq_ok_iff.mp hcost
  have hsplit : reserveOut.toNat = left.toNat + out.toNat := debit_eq_ok_iff.mp hleft
  obtain ⟨hpos, -⟩ := quotient_of_swapCost hcost hleft
  refine ⟨cost, hcost, by omega, ?_⟩
  rw [show reserveOut.toNat - out.toNat = left.toNat by omega]
  exact .of_change hpos (product_of_paid hcost hpaid hleft)

namespace Pool

/-- **Trades and the product of the reserves.**  A trade changes the product by the remainder of
its price and by the fee, and keeps it exactly where the price is a quotient without remainder
or comes to a thousand or more. -/
theorem product_of_trade (pool : Pool) (amount paid base quote : Amount) :
    (buyCost pool.baseAmount pool.quoteAmount amount = .ok paid →
      debit (some pool.baseAmount) amount = .ok base →
      credit (some pool.quoteAmount) paid = .ok quote →
      ∃ cost, swapCost pool.baseAmount pool.quoteAmount amount = .ok cost ∧
        ProductChange pool.product
          { pool with baseAmount := base, quoteAmount := quote }.product base.toNat cost.toNat) ∧
    (sellCost pool.baseAmount pool.quoteAmount amount = .ok paid →
      credit (some pool.baseAmount) paid = .ok base →
      debit (some pool.quoteAmount) amount = .ok quote →
      ∃ cost, swapCost pool.quoteAmount pool.baseAmount amount = .ok cost ∧
        ProductChange pool.product
          { pool with baseAmount := base, quoteAmount := quote }.product quote.toNat
          cost.toNat) := by
  constructor
  · intro hprice hbase hquote
    obtain ⟨cost, hcost, hpaid⟩ := bind_eq_ok_iff.mp hprice
    exact ⟨cost, hcost, product_of_swapCost hcost hpaid hbase hquote⟩
  · intro hprice hbase hquote
    obtain ⟨cost, hcost, hpaid⟩ := bind_eq_ok_iff.mp hprice
    have hchange := product_of_swapCost hcost hpaid hquote hbase
    rw [Nat.mul_comm pool.quoteAmount.toNat, Nat.mul_comm quote.toNat] at hchange
    exact ⟨cost, hcost, hchange⟩

/-- A pool with ten of either token. -/
def shallow : Pool := ⟨.ofBytes [1], .ofBytes [2], 10, 10, 100⟩

/-- A pool with some millions of either token. -/
def deep : Pool := ⟨.ofBytes [1], .ofBytes [2], 32000000, 50000000, 1600000000000000⟩

/-- Three base of the shallow pool cost four quote, which takes its product from a hundred to
ninety-eight: a hundred by seven leaves two.  A million quote of the deep pool costs enough base
for a fee of 653, and the product grows. -/
theorem product_of_trade_rounded :
    buyCost shallow.baseAmount shallow.quoteAmount 3 = .ok 4 ∧ ProductChange 100 98 7 4 ∧
    sellCost deep.baseAmount deep.quoteAmount 1000000 = .ok 653714 ∧
    ProductChange 1600000000000000 1600031986000000 49000000 653061 := by
  obtain ⟨cost, hcost, hbought⟩ :=
    (product_of_trade shallow 3 4 7 14).1 (by decide) (by decide) (by decide)
  obtain ⟨cost', hcost', hsold⟩ :=
    (product_of_trade deep 1000000 653714 32653714 49000000).2 (by decide) (by decide) (by decide)
  obtain rfl : (4 : Amount) = cost := Except.ok.inj hcost
  obtain rfl : (653061 : Amount) = cost' := Except.ok.inj hcost'
  exact ⟨by decide, hbought, by decide, hsold⟩

/-- Not every trade keeps the product: an account with four of its quote buys three of its base. -/
theorem not_all_trades_keep_product :
    ¬ ∀ (pool : Pool) (before : PairBalances) (amount limit : Amount) (after : Traded),
      pool.buy before amount limit = .ok after → pool.product ≤ after.pool.product := by
  intro h
  have hproduct := h shallow ⟨none, some 4⟩ 3 4
    ⟨{ shallow with baseAmount := 7, quoteAmount := 14 }, 3, 0⟩ (by decide)
  exact absurd hproduct (by decide)

/-- **Rounding loses little.**  A swap that has a price, either way, takes less from the product
of the reserves than what stays of the one that is sold, and adds to it exactly from a price of
a thousand on. -/
theorem rounding_loss_bounded (base quote out paid : Amount) :
    (buyCost base quote out = .ok paid →
      ∃ cost, swapCost base quote out = .ok cost ∧ out.toNat < base.toNat ∧
        LossBound base.toNat quote.toNat (base.toNat - out.toNat) cost.toNat paid.toNat) ∧
    (sellCost base quote out = .ok paid →
      ∃ cost, swapCost quote base out = .ok cost ∧ out.toNat < quote.toNat ∧
        LossBound quote.toNat base.toNat (quote.toNat - out.toNat) cost.toNat paid.toNat) :=
  ⟨lossBound_of_priced, lossBound_of_priced⟩

/-- Of ten against ten, three cost four, and ninety-eight is short of a hundred by less than the
seven that stay.  Of five thousand against five thousand, a thousand cost 1250 and a fee of one:
the four thousand that stay make twenty-five million with 6250, and more with the fee. -/
theorem rounding_loss_bounded_thousand :
    buyCost 10 10 3 = .ok 4 ∧ LossBound 10 10 7 4 4 ∧
    sellCost 5000 5000 1000 = .ok 1251 ∧ LossBound 5000 5000 4000 1250 1251 := by
  obtain ⟨cost, hcost, -, hbought⟩ := (rounding_loss_bounded 10 10 3 4).1 (by decide)
  obtain ⟨cost', hcost', -, hsold⟩ := (rounding_loss_bounded 5000 5000 1000 1251).2 (by decide)
  obtain rfl : (4 : Amount) = cost := Except.ok.inj hcost
  obtain rfl : (1250 : Amount) = cost' := Except.ok.inj hcost'
  exact ⟨by decide, hbought, by decide, hsold⟩

end Pool

end AmmRollup
