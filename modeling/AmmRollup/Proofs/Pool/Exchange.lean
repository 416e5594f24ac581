import AmmRollup.Pool.Exchange
import AmmRollup.Proofs.Result
import Mathlib.Algebra.Ring.Nat

/-!
# AmmRollup.Proofs.Pool.Exchange

Trades and changes of liquidity move tokens between an account and a pool and make or
destroy none: of either token of the pair, the two hold together what they held before
(`Conserved`).  Fees and rounding decide how much moves, never whether it balances.
-/

namespace AmmRollup

/-! ## Amounts

Amounts have 64 bits, and adding to one may not fit.  Where it does fit, credits and debits are
sums and differences of numbers.
-/

theorem narrowAmount_eq_ok_iff {n : Nat} {a : Amount} : narrowAmount n = .ok a ↔ a.toNat = n := by
  rw [narrowAmount, Nat.one_shiftLeft]
  have ha := a.toNat_lt
  split
  · next h =>
      rw [Except.ok.injEq, ← UInt64.toNat_inj, UInt64.toNat_ofNat', Nat.mod_eq_of_lt h, eq_comm]
  · next h => exact ⟨fun h => (nomatch h), fun hn => absurd (hn ▸ ha) h⟩

/-- What is credited is added. -/
theorem credit_eq_ok_iff {prior : Option Amount} {amount after : Amount} :
    credit prior amount = .ok after ↔ after.toNat = (prior.getD 0).toNat + amount.toNat :=
  narrowAmount_eq_ok_iff

/-- What fits can be credited. -/
theorem credit_of_lt {prior : Option Amount} {amount : Amount}
    (h : (prior.getD 0).toNat + amount.toNat < 2 ^ 64) :
    ∃ after, credit prior amount = .ok after := by
  refine ⟨UInt64.ofNat ((prior.getD 0).toNat + amount.toNat), credit_eq_ok_iff.mpr ?_⟩
  rw [UInt64.toNat_ofNat', Nat.mod_eq_of_lt h]

/-- What is debited is taken away. -/
theorem debit_eq_ok_iff {prior : Option Amount} {amount after : Amount} :
    debit prior amount = .ok after ↔ (prior.getD 0).toNat = after.toNat + amount.toNat := by
  rw [debit]
  split
  · next h =>
      have hsub := UInt64.toNat_sub_of_le _ _ h
      have hle := UInt64.le_iff_toNat_le.mp h
      rw [Except.ok.injEq, ← UInt64.toNat_inj, hsub]
      omega
  · next h =>
      rw [UInt64.le_iff_toNat_le] at h
      exact ⟨fun h => (nomatch h), fun he => absurd he (by omega)⟩

/-! ## Worth

What an amount counts in a token: itself in its own and nothing in another.  With it one equation
covers both tokens of a pair, even if they are one.
-/

/-- What an amount of one token counts in another. -/
def worth (token of : Token) (amount : Amount) : Nat := if of = token then amount.toNat else 0

/-- What a record counts in a token. -/
def AccountRecord.amountOf (token : Token) (r : AccountRecord) : Nat := worth token r.token r.amount

/-- What the reserves of a pool count in a token, which both may be. -/
def Pool.reserveOf (token : Token) (p : Pool) : Nat :=
  worth token p.base p.baseAmount + worth token p.quote p.quoteAmount

/-- What is credited counts on top. -/
theorem worth_credit {prior : Option Amount} {amount after : Amount}
    (h : credit prior amount = .ok after) (token of : Token) :
    worth token of after = worth token of (prior.getD 0) + worth token of amount := by
  rw [credit_eq_ok_iff] at h
  unfold worth
  split <;> omega

/-- What is debited counts no more. -/
theorem worth_debit {prior : Option Amount} {amount after : Amount}
    (h : debit prior amount = .ok after) (token of : Token) :
    worth token of (prior.getD 0) = worth token of after + worth token of amount := by
  rw [debit_eq_ok_iff] at h
  unfold worth
  split <;> omega

/-! ## Exchange

Each operation moves amounts between an account and a pool, and makes none: its debits and its
credits cancel.
-/

/-- Of either token of a pair, an account and the pool hold together what they held
before.  An account without a balance holds nothing, and neither does a pool that is
only being opened. -/
structure Conserved (before : PairBalances) (reserves : Option Pool) (base quote : Amount)
    (pool : Pool) : Prop where
  base : (before.base.getD 0).toNat + (reserves.elim 0 fun p => p.baseAmount.toNat) =
    base.toNat + pool.baseAmount.toNat
  quote : (before.quote.getD 0).toNat + (reserves.elim 0 fun p => p.quoteAmount.toNat) =
    quote.toNat + pool.quoteAmount.toNat

/-- What an account and a pool hold together counts the same before and after. -/
theorem Conserved.worth_eq {before : PairBalances} {reserves : Option Pool} {base quote : Amount}
    {pool : Pool} (h : Conserved before reserves base quote pool)
    (hpair : ∀ p ∈ reserves, pool.base = p.base ∧ pool.quote = p.quote) (token : Token) :
    worth token pool.base (before.base.getD 0) + worth token pool.quote (before.quote.getD 0) +
        reserves.elim 0 (Pool.reserveOf token) =
      worth token pool.base base + worth token pool.quote quote + pool.reserveOf token := by
  obtain ⟨hbase, hquote⟩ := h
  cases reserves with
  | none =>
      simp only [Option.elim_none, worth, Pool.reserveOf] at hbase hquote ⊢
      split <;> split <;> omega
  | some p =>
      obtain ⟨hb, hq⟩ := hpair p rfl
      simp only [Option.elim_some, worth, Pool.reserveOf, hb, hq] at hbase hquote ⊢
      split <;> split <;> omega

namespace Pool

variable {pool : Pool} {before : PairBalances}

/-- A purchase conserves what account and pool have, and the pool's pair. -/
theorem buy_conserves {amount limit : Amount} {after : Traded}
    (h : pool.buy before amount limit = .ok after) :
    Conserved before (some pool) after.base after.quote after.pool ∧
      after.pool.base = pool.base ∧ after.pool.quote = pool.quote := by
  simp only [buy, bind_eq_ok_iff, pure_eq_ok_iff, credit_eq_ok_iff,
    debit_eq_ok_iff, Option.getD_some] at h
  obtain ⟨paid, -, _, -, base, hbase, quote, hquote, baseAmount, hb, quoteAmount, hq, rfl⟩ := h
  refine ⟨⟨?_, ?_⟩, rfl, rfl⟩ <;> simp only [Option.elim_some] <;> omega

/-- A sale conserves what account and pool have, and the pool's pair. -/
theorem sell_conserves {amount limit : Amount} {after : Traded}
    (h : pool.sell before amount limit = .ok after) :
    Conserved before (some pool) after.base after.quote after.pool ∧
      after.pool.base = pool.base ∧ after.pool.quote = pool.quote := by
  simp only [sell, bind_eq_ok_iff, pure_eq_ok_iff, credit_eq_ok_iff,
    debit_eq_ok_iff, Option.getD_some] at h
  obtain ⟨paid, -, _, -, base, hbase, quote, hquote, baseAmount, hb, quoteAmount, hq, rfl⟩ := h
  refine ⟨⟨?_, ?_⟩, rfl, rfl⟩ <;> simp only [Option.elim_some] <;> omega

/-- The opening of a pool conserves what its account has. -/
theorem opened_conserves {base quote : Token} {baseAmount quoteAmount : Amount} {after : Shared}
    (h : Pool.opened base quote before baseAmount quoteAmount = .ok after) :
    Conserved before none after.base after.quote after.pool ∧
      after.pool.base = base ∧ after.pool.quote = quote := by
  simp only [opened, bind_eq_ok_iff, pure_eq_ok_iff, debit_eq_ok_iff] at h
  obtain ⟨_, -, _, -, baseAfter, hb, quoteAfter, hq, rfl⟩ := h
  refine ⟨⟨?_, ?_⟩, rfl, rfl⟩ <;> simp only [Option.elim_none] <;> omega

/-- An addition to a pool conserves what account and pool have, and the pool's pair. -/
theorem provide_conserves {prior : Option Points} {baseIn quoteLimit : Amount} {after : Shared}
    (h : pool.provide before prior baseIn quoteLimit = .ok after) :
    Conserved before (some pool) after.base after.quote after.pool ∧
      after.pool.base = pool.base ∧ after.pool.quote = pool.quote := by
  simp only [provide, bind_eq_ok_iff, pure_eq_ok_iff, credit_eq_ok_iff,
    debit_eq_ok_iff, Option.getD_some] at h
  obtain ⟨⟨quoteIn, minted⟩, -, _, -, base, hbase, quote, hquote, points, -, baseAmount, hb,
    quoteAmount, hq, totalPoints, -, rfl⟩ := h
  refine ⟨⟨?_, ?_⟩, rfl, rfl⟩ <;> simp only [Option.elim_some] <;> omega

/-- A removal from a pool conserves what account and pool have, and the pool's pair. -/
theorem remove_conserves {prior : Option Points} {redeemed : Points} {baseLimit quoteLimit : Amount}
    {after : Shared} (h : pool.remove before prior redeemed baseLimit quoteLimit = .ok after) :
    Conserved before (some pool) after.base after.quote after.pool ∧
      after.pool.base = pool.base ∧ after.pool.quote = pool.quote := by
  simp only [remove, bind_eq_ok_iff, pure_eq_ok_iff, credit_eq_ok_iff,
    debit_eq_ok_iff, Option.getD_some] at h
  obtain ⟨⟨baseOut, quoteOut⟩, -, points, -, _, -, _, -, baseAmount, hb, quoteAmount, hq,
    totalPoints, -, base, hbase, quote, hquote, rfl⟩ := h
  refine ⟨⟨?_, ?_⟩, rfl, rfl⟩ <;> simp only [Option.elim_some] <;> omega

end Pool

end AmmRollup
