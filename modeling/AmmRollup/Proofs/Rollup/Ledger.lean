import AmmRollup.Proofs.Pool.Exchange
import AmmRollup.Proofs.Total
import AmmRollup.Rollup.Intent

/-!
# AmmRollup.Proofs.Rollup.Ledger

The rollup as a plain ledger: four maps from keys to values, and what each intent does
to them.  There are no trees, witnesses, indexes or roots here, only the arithmetic of
pools and accounts.  It is what the state of the rollup is compared with.

* `Ledger.apply` — what an intent does, or why it is refused;
* `Ledger.apply_frame` — it changes no key that it does not name;
* `Ledger.apply_conserves` — it makes or destroys no token.
-/

namespace AmmRollup

/-! ## Keys

A ledger has no leaves: balances are by account and token, pools by pair, points by provider and
pair, burn totals by account and token.
-/

/-- The key of a balance or of a burn total. -/
def AccountRecord.key (r : AccountRecord) : Address × Token := (r.account, r.token)

/-- The key of a pool. -/
def Pool.key (p : Pool) : Token × Token := (p.base, p.quote)

/-- The key of a provider's points. -/
def Liquidity.key (l : Liquidity) : Address × Token × Token := (l.provider, l.base, l.quote)

/-! ## Ledger

What an intent does to balances and pools, with nothing of trees, witnesses, claims or proofs in
it.  This is the specification that the rollup is refined to.
-/

/-- Balances, pools, points and burn totals by their keys. -/
structure Ledger where
  balance : Address × Token → Option Amount
  pool : Token × Token → Option Pool
  liquidity : Address × Token × Token → Option Points
  burned : Address × Token → Option Amount

/-- Why a ledger refuses an intent. -/
inductive LedgerError where
  /-- The pair has no pool. -/
  | noPool
  /-- Both tokens of the pair are one. -/
  | sameToken
  /-- The pool, or the provider's points in it, exist. -/
  | occupied (tree : StateTree)
  /-- An amount cannot be computed or is not accepted. -/
  | amount (cause : AmountError)

namespace Ledger

/-- The ledger without entries. -/
def empty : Ledger := ⟨fun _ => none, fun _ => none, fun _ => none, fun _ => none⟩

/-- Sets a balance. -/
def setBalance (l : Ledger) (owner : Address) (token : Token) (amount : Amount) : Ledger :=
  { l with balance := Function.update l.balance (owner, token) (some amount) }

/-- Sets a burn total. -/
def setBurned (l : Ledger) (owner : Address) (token : Token) (amount : Amount) : Ledger :=
  { l with burned := Function.update l.burned (owner, token) (some amount) }

/-- Sets the pool of a pair. -/
def setPool (l : Ledger) (base quote : Token) (pool : Pool) : Ledger :=
  { l with pool := Function.update l.pool (base, quote) (some pool) }

/-- Sets a provider's points in a pair. -/
def setPoints (l : Ledger) (provider : Address) (base quote : Token) (points : Points) : Ledger :=
  { l with liquidity := Function.update l.liquidity (provider, base, quote) (some points) }

/-- The balances of an account in a pair of distinct tokens. -/
def pair (l : Ledger) (owner : Address) (base quote : Token) : Except LedgerError PairBalances :=
  if base = quote then .error .sameToken
  else .ok ⟨l.balance (owner, base), l.balance (owner, quote)⟩

/-- A pair of balances is looked up unless the tokens are one. -/
theorem pair_eq_ok_iff {l : Ledger} {owner : Address} {base quote : Token}
    {before : PairBalances} : l.pair owner base quote = .ok before ↔
      base ≠ quote ∧ ⟨l.balance (owner, base), l.balance (owner, quote)⟩ = before := by
  unfold pair
  split
  · next h => exact iff_of_false (by simp) fun hne => hne.1 h
  · next h => simp [h]

/-- The pool of a pair that has one. -/
def existingPool (l : Ledger) (base quote : Token) : Except LedgerError Pool :=
  match l.pool (base, quote) with
  | some pool => .ok pool
  | none => .error .noPool

/-- A pool that exists is the one of the pair. -/
theorem existingPool_eq_ok_iff {l : Ledger} {base quote : Token} {pool : Pool} :
    l.existingPool base quote = .ok pool ↔ l.pool (base, quote) = some pool := by
  unfold existingPool
  split <;> simp_all

/-- Neither the pool of a pair nor the points of its first provider exist. -/
def vacant (l : Ledger) (provider : Address) (base quote : Token) : Except LedgerError Unit :=
  if (l.pool (base, quote)).isSome then .error (.occupied .pools)
  else if (l.liquidity (provider, base, quote)).isSome then .error (.occupied .liquidities)
  else .ok ()

/-- A pair is vacant when it has no pool and the provider no points in it. -/
theorem vacant_eq_ok_iff {l : Ledger} {provider : Address} {base quote : Token} {u : Unit} :
    l.vacant provider base quote = .ok u ↔
      l.pool (base, quote) = none ∧ l.liquidity (provider, base, quote) = none := by
  unfold vacant
  split
  · next h => simp [Option.isSome_iff_ne_none.mp h]
  · next hp =>
      split
      · next h => simp [Option.isSome_iff_ne_none.mp h]
      · next hl => simp_all

/-- What is not vacant is occupied. -/
theorem vacant_cases (l : Ledger) (provider : Address) (base quote : Token) :
    l.vacant provider base quote = .ok () ∨
      ∃ tree, l.vacant provider base quote = .error (.occupied tree) := by
  unfold vacant
  split
  · exact .inr ⟨_, rfl⟩
  · split
    · exact .inr ⟨_, rfl⟩
    · exact .inl rfl

/-- The ledger after a trade of an account. -/
def traded (l : Ledger) (account : Address) (base quote : Token) (after : Traded) : Ledger :=
  ((l.setPool base quote after.pool).setBalance account base after.base).setBalance account quote
    after.quote

/-- The ledger after an account has changed its part in a pool. -/
def shared (l : Ledger) (account : Address) (base quote : Token) (after : Shared) : Ledger :=
  (((l.setPool base quote after.pool).setPoints account base quote after.points).setBalance account
    base after.base).setBalance account quote after.quote

/-- What an intent does to a ledger. -/
def apply (l : Ledger) : Intent → Except LedgerError Ledger
  | .deposit d => do
      let after ← (credit (l.balance d.key) d.amount).mapError .amount
      return l.setBalance d.account d.token after
  | .burn owner token amount _ => do
      let balance ← (debit (l.balance (owner, token)) amount).mapError .amount
      let burned ← (credit (l.burned (owner, token)) amount).mapError .amount
      return (l.setBalance owner token balance).setBurned owner token burned
  | .createPool provider base quote baseAmount quoteAmount _ => do
      let before ← l.pair provider base quote
      l.vacant provider base quote
      let after ← (Pool.opened base quote before baseAmount quoteAmount).mapError .amount
      return l.shared provider base quote after
  | .provideLiquidity provider base quote baseIn quoteLimit _ => do
      let pool ← l.existingPool base quote
      let before ← l.pair provider base quote
      let prior := l.liquidity (provider, base, quote)
      let after ← (pool.provide before prior baseIn quoteLimit).mapError .amount
      return l.shared provider base quote after
  | .removeLiquidity provider base quote redeemed baseLimit quoteLimit _ => do
      let pool ← l.existingPool base quote
      let before ← l.pair provider base quote
      let prior := l.liquidity (provider, base, quote)
      let after ← (pool.remove before prior redeemed baseLimit quoteLimit).mapError .amount
      return l.shared provider base quote after
  | .buy trader base quote amount limit _ => do
      let pool ← l.existingPool base quote
      let before ← l.pair trader base quote
      return l.traded trader base quote (← (pool.buy before amount limit).mapError .amount)
  | .sell trader base quote amount limit _ => do
      let pool ← l.existingPool base quote
      let before ← l.pair trader base quote
      return l.traded trader base quote (← (pool.sell before amount limit).mapError .amount)

end Ledger

/-! ## Frame

An intent names the keys that it may change, and changes no other.
-/

namespace Intent

/-- The balances that an intent names. -/
def balanceKeys : Intent → List (Address × Token)
  | .deposit d => [d.key]
  | .burn owner token _ _ => [(owner, token)]
  | .createPool who base quote _ _ _ | .provideLiquidity who base quote _ _ _
  | .removeLiquidity who base quote _ _ _ _ | .buy who base quote _ _ _
  | .sell who base quote _ _ _ => [(who, base), (who, quote)]

/-- The pools that an intent names. -/
def poolKeys : Intent → List (Token × Token)
  | .deposit _ | .burn _ _ _ _ => []
  | .createPool _ base quote _ _ _ | .provideLiquidity _ base quote _ _ _
  | .removeLiquidity _ base quote _ _ _ _ | .buy _ base quote _ _ _
  | .sell _ base quote _ _ _ => [(base, quote)]

/-- The points that an intent names. -/
def liquidityKeys : Intent → List (Address × Token × Token)
  | .createPool who base quote _ _ _ | .provideLiquidity who base quote _ _ _
  | .removeLiquidity who base quote _ _ _ _ => [(who, base, quote)]
  | .deposit _ | .burn _ _ _ _ | .buy _ _ _ _ _ _ | .sell _ _ _ _ _ _ => []

/-- The burn totals that an intent names. -/
def burnKeys : Intent → List (Address × Token)
  | .burn owner token _ _ => [(owner, token)]
  | .deposit _ | .createPool _ _ _ _ _ _ | .provideLiquidity _ _ _ _ _ _
  | .removeLiquidity _ _ _ _ _ _ _ | .buy _ _ _ _ _ _ | .sell _ _ _ _ _ _ => []

end Intent

namespace Ledger

/-- Two ledgers agree on every key that an intent does not name. -/
structure AgreeBeside (i : Intent) (l l' : Ledger) : Prop where
  balance : ∀ k ∉ i.balanceKeys, l'.balance k = l.balance k
  pool : ∀ k ∉ i.poolKeys, l'.pool k = l.pool k
  liquidity : ∀ k ∉ i.liquidityKeys, l'.liquidity k = l.liquidity k
  burned : ∀ k ∉ i.burnKeys, l'.burned k = l.burned k

variable {l l' : Ledger} {i : Intent} {account : Address} {base quote : Token}

/-- A trade changes the pool and the account's balances in its pair. -/
theorem traded_frame (hb : i.balanceKeys = [(account, base), (account, quote)])
    (hp : i.poolKeys = [(base, quote)]) (after : Traded) :
    AgreeBeside i l (l.traded account base quote after) := by
  refine ⟨fun k hk => ?_, fun k hk => ?_, fun k _ => rfl, fun k _ => rfl⟩
  · simp only [hb, List.mem_cons, List.not_mem_nil, or_false, not_or] at hk
    simp [traded, setBalance, setPool, hk]
  · simp only [hp, List.mem_singleton] at hk
    simp [traded, setBalance, setPool, hk]

/-- A change of liquidity changes the account's points as well. -/
theorem shared_frame (hb : i.balanceKeys = [(account, base), (account, quote)])
    (hp : i.poolKeys = [(base, quote)]) (hl : i.liquidityKeys = [(account, base, quote)])
    (after : Shared) : AgreeBeside i l (l.shared account base quote after) := by
  refine ⟨fun k hk => ?_, fun k hk => ?_, fun k hk => ?_, fun k _ => rfl⟩
  · simp only [hb, List.mem_cons, List.not_mem_nil, or_false, not_or] at hk
    simp [shared, setBalance, setPoints, setPool, hk]
  · simp only [hp, List.mem_singleton] at hk
    simp [shared, setBalance, setPoints, setPool, hk]
  · simp only [hl, List.mem_singleton] at hk
    simp [shared, setBalance, setPoints, setPool, hk]

/-- An intent changes no key that it does not name. -/
theorem apply_frame (h : l.apply i = .ok l') : AgreeBeside i l l' := by
  -- every method sets the keys that its intent names
  cases i with
  | deposit d =>
      simp only [apply, bind_eq_ok_iff, pure_eq_ok_iff] at h
      obtain ⟨after, -, rfl⟩ := h
      refine ⟨fun k hk => ?_, fun k _ => rfl, fun k _ => rfl, fun k _ => rfl⟩
      exact Function.update_of_ne (by simpa [Intent.balanceKeys, AccountRecord.key] using hk) _ _
  | burn owner token amount signature =>
      simp only [apply, bind_eq_ok_iff, pure_eq_ok_iff] at h
      obtain ⟨balance, -, burned, -, rfl⟩ := h
      refine ⟨fun k hk => ?_, fun k _ => rfl, fun k _ => rfl, fun k hk => ?_⟩
      · exact Function.update_of_ne (by simpa [Intent.balanceKeys] using hk) _ _
      · exact Function.update_of_ne (by simpa [Intent.burnKeys] using hk) _ _
  | createPool provider base quote baseAmount quoteAmount signature =>
      simp only [apply, bind_eq_ok_iff, pure_eq_ok_iff] at h
      obtain ⟨before, -, _, -, after, -, rfl⟩ := h
      exact shared_frame rfl rfl rfl after
  | provideLiquidity provider base quote baseIn quoteLimit signature
  | removeLiquidity provider base quote redeemed baseLimit quoteLimit signature =>
      simp only [apply, bind_eq_ok_iff, pure_eq_ok_iff] at h
      obtain ⟨pool, -, before, -, after, -, rfl⟩ := h
      exact shared_frame rfl rfl rfl after
  | buy trader base quote amount limit signature | sell trader base quote amount limit signature =>
      simp only [apply, bind_eq_ok_iff, pure_eq_ok_iff] at h
      obtain ⟨pool, -, before, -, after, -, rfl⟩ := h
      exact traded_frame rfl rfl after

end Ledger

/-! ## Conservation

In the ledger, conservation is about sums over maps.  A trade or a change of liquidity sets two
balances and a pool of the same pair, and leaves their sum as it was.
-/

/-- What the entries of one token are, by their owners. -/
def column (amounts : Address × Token → Option Amount) (token : Token) (owner : Address) :
    Option Amount :=
  amounts (owner, token)

/-- The sum of the entries of one token. -/
noncomputable def columnTotal (amounts : Address × Token → Option Amount) (token : Token) : Nat :=
  total UInt64.toNat (column amounts token)

/-- The amounts of one token are finitely many if those of all are. -/
theorem FiniteMap.column {amounts : Address × Token → Option Amount} (h : FiniteMap amounts)
    (token : Token) : FiniteMap (column amounts token) :=
  h.preimage fun _ _ _ _ he => (Prod.mk.inj he).1

/-- An account that has no balance counts for nothing. -/
theorem elim_column (amounts : Address × Token → Option Amount) (token : Token) (owner : Address) :
    (column amounts token owner).elim 0 UInt64.toNat =
      ((amounts (owner, token)).getD 0).toNat := by
  rw [column]
  cases amounts (owner, token) <;> rfl

/-- Setting an entry changes the sum of its token by what it was and is. -/
theorem columnTotal_update {amounts : Address × Token → Option Amount} (h : FiniteMap amounts)
    (owner : Address) (of : Token) (amount : Amount) (token : Token) :
    columnTotal (Function.update amounts (owner, of) (some amount)) token +
        worth token of ((amounts (owner, of)).getD 0) =
      columnTotal amounts token + worth token of amount := by
  unfold worth columnTotal
  -- a change of one token is seen in its own column alone
  by_cases ht : of = token
  · subst ht
    have hcolumn : column (Function.update amounts (owner, of) (some amount)) of =
        Function.update (column amounts of) owner (some amount) := by
      funext o
      simp [column, Function.update_apply]
    have := total_update UInt64.toNat (h.column of) owner (some amount)
    rw [elim_column] at this
    rw [hcolumn, if_pos rfl, if_pos rfl]
    exact this
  · have hcolumn : column (Function.update amounts (owner, of) (some amount)) token =
        column amounts token := by
      funext o
      simp [column, Ne.symm ht]
    rw [hcolumn, if_neg ht, if_neg ht]

/-- What an intent deposits of a token. -/
def Intent.deposited (token : Token) : Intent → Nat
  | .deposit d => worth token d.token d.amount
  | _ => 0

/-- What an intent burns of a token. -/
def Intent.burned (token : Token) : Intent → Nat
  | .burn _ of amount _ => worth token of amount
  | _ => 0

namespace Ledger

/-- The sum of all balances and all reserves in a token. -/
noncomputable def circulating (l : Ledger) (token : Token) : Nat :=
  columnTotal l.balance token + total (Pool.reserveOf token) l.pool

/-- A ledger has finitely many entries, and every pool stands at the key of its pair. -/
structure Sound (l : Ledger) : Prop where
  balance : FiniteMap l.balance
  pool : FiniteMap l.pool
  burned : FiniteMap l.burned
  keyed : ∀ k p, l.pool k = some p → p.key = k

/-- A pool is of the pair that it stands for. -/
theorem Sound.pair_of_pool {l : Ledger} (hl : l.Sound) {base quote : Token} {pool : Pool}
    (h : l.pool (base, quote) = some pool) : pool.base = base ∧ pool.quote = quote := by
  simpa [Pool.key] using hl.keyed _ _ h

theorem sound_empty : empty.Sound :=
  ⟨.empty, .empty, .empty, fun _ _ h => (nomatch h)⟩

variable {l l' : Ledger} {i : Intent} {account : Address} {base quote : Token}

/-- What setting a pool and two balances of its pair does to the sum of a token. -/
theorem circulating_exchange (account : Address) (hl : l.Sound) (hne : base ≠ quote) (pool : Pool)
    (x y : Amount) (token : Token) :
    (((l.setPool base quote pool).setBalance account base x).setBalance account quote
          y).circulating token +
        (worth token base ((l.balance (account, base)).getD 0) +
          worth token quote ((l.balance (account, quote)).getD 0) +
          (l.pool (base, quote)).elim 0 (Pool.reserveOf token)) =
      l.circulating token +
        (worth token base x + worth token quote y + pool.reserveOf token) := by
  have hx := columnTotal_update hl.balance account base x token
  have hy := columnTotal_update (hl.balance.update (account, base) (some x)) account quote y token
  have hp := total_update (Pool.reserveOf token) hl.pool (base, quote) (some pool)
  rw [Function.update_of_ne (by simpa using hne.symm)] at hy
  simp only [circulating, setBalance, setPool, Option.elim_some] at hx hy hp ⊢
  omega

/-- A trade conserves what circulates. -/
theorem circulating_traded (after : Traded) (hl : l.Sound) (hne : base ≠ quote)
    {reserves : Option Pool} (hpool : l.pool (base, quote) = reserves)
    (h : Conserved ⟨l.balance (account, base), l.balance (account, quote)⟩ reserves after.base
      after.quote after.pool)
    (hb : after.pool.base = base) (hq : after.pool.quote = quote) (token : Token) :
    (l.traded account base quote after).circulating token = l.circulating token := by
  have hkeyed : ∀ p ∈ reserves, after.pool.base = p.base ∧ after.pool.quote = p.quote := by
    intro p hp
    obtain ⟨hpb, hpq⟩ := hl.pair_of_pool (hpool.trans hp)
    exact ⟨hb.trans hpb.symm, hq.trans hpq.symm⟩
  have hworth := h.worth_eq hkeyed token
  have hsum := circulating_exchange account hl hne after.pool after.base after.quote token
  rw [hb, hq] at hworth
  rw [hpool] at hsum
  simp only [traded] at hworth ⊢
  omega

/-- A trade keeps the ledger finite and its pools where they belong. -/
theorem sound_traded (after : Traded) (hl : l.Sound) (hb : after.pool.base = base)
    (hq : after.pool.quote = quote) : (l.traded account base quote after).Sound where
  balance := (hl.balance.update _ _).update _ _
  pool := hl.pool.update _ _
  burned := hl.burned
  keyed k p hp := by
    simp only [traded, setBalance, setPool, Function.update_apply] at hp
    split at hp
    · next hk => rw [hk, ← Option.some.inj hp, Pool.key, hb, hq]
    · exact hl.keyed k p hp

/-- A change of liquidity moves tokens as a trade does. -/
theorem circulating_shared (hl : l.Sound) (hne : base ≠ quote) {reserves : Option Pool}
    (hpool : l.pool (base, quote) = reserves) {after : Shared}
    (h : Conserved ⟨l.balance (account, base), l.balance (account, quote)⟩ reserves after.base
      after.quote after.pool)
    (hb : after.pool.base = base) (hq : after.pool.quote = quote) (token : Token) :
    (l.shared account base quote after).circulating token = l.circulating token :=
  circulating_traded ⟨after.pool, after.base, after.quote⟩ hl hne hpool h hb hq token

/-- A change of liquidity does so too. -/
theorem sound_shared (hl : l.Sound) {after : Shared} (hb : after.pool.base = base)
    (hq : after.pool.quote = quote) : (l.shared account base quote after).Sound :=
  have h : (l.traded account base quote ⟨after.pool, after.base, after.quote⟩).Sound :=
    sound_traded _ hl hb hq
  ⟨h.balance, h.pool, h.burned, h.keyed⟩

/-- What an intent does to the sums of a ledger: of every token, what circulates grows by
what is deposited and shrinks by what is burned, and burn totals grow by what is burned. -/
theorem apply_conserves (hl : l.Sound) (h : l.apply i = .ok l') :
    l'.Sound ∧ ∀ token,
      l'.circulating token + i.burned token = l.circulating token + i.deposited token ∧
        columnTotal l'.burned token = columnTotal l.burned token + i.burned token := by
  cases i with
  | deposit d =>
      simp only [apply, bind_eq_ok_iff, pure_eq_ok_iff, mapError_eq_ok_iff] at h
      obtain ⟨after, hafter, rfl⟩ := h
      refine ⟨⟨hl.balance.update _ _, hl.pool, hl.burned, hl.keyed⟩, fun token => ⟨?_, rfl⟩⟩
      have := columnTotal_update hl.balance d.account d.token after token
      have := worth_credit hafter token d.token
      simp only [circulating, setBalance, Intent.deposited, Intent.burned, AccountRecord.key] at *
      omega
  | burn owner of amount signature =>
      simp only [apply, bind_eq_ok_iff, pure_eq_ok_iff, mapError_eq_ok_iff] at h
      obtain ⟨balance, hbalance, burned, hburned, rfl⟩ := h
      refine ⟨⟨hl.balance.update _ _, hl.pool, hl.burned.update _ _, hl.keyed⟩,
        fun token => ⟨?_, ?_⟩⟩
      · have := columnTotal_update hl.balance owner of balance token
        have := worth_debit hbalance token of
        simp only [circulating, setBalance, setBurned, Intent.deposited, Intent.burned] at *
        omega
      · have := columnTotal_update hl.burned owner of burned token
        have := worth_credit hburned token of
        simp only [setBalance, setBurned, Intent.burned] at *
        omega
  | createPool provider base quote baseAmount quoteAmount signature =>
      simp only [apply, bind_eq_ok_iff, pure_eq_ok_iff, mapError_eq_ok_iff, pair_eq_ok_iff,
        vacant_eq_ok_iff] at h
      obtain ⟨before, ⟨hne, rfl⟩, _, ⟨hpool, -⟩, after, hafter, rfl⟩ := h
      -- pools exchange with one account, so what it gains the reserves lose
      obtain ⟨hconserved, hb, hq⟩ := Pool.opened_conserves hafter
      exact ⟨sound_shared hl hb hq, fun token =>
        ⟨circulating_shared hl hne hpool hconserved hb hq token, rfl⟩⟩
  | provideLiquidity provider base quote baseIn quoteLimit signature =>
      simp only [apply, bind_eq_ok_iff, pure_eq_ok_iff, mapError_eq_ok_iff, pair_eq_ok_iff,
        existingPool_eq_ok_iff] at h
      obtain ⟨pool, hpool, before, ⟨hne, rfl⟩, after, hafter, rfl⟩ := h
      obtain ⟨rfl, rfl⟩ := hl.pair_of_pool hpool
      obtain ⟨hconserved, hb, hq⟩ := Pool.provide_conserves hafter
      exact ⟨sound_shared hl hb hq, fun token =>
        ⟨circulating_shared hl hne hpool hconserved hb hq token, rfl⟩⟩
  | removeLiquidity provider base quote redeemed baseLimit quoteLimit signature =>
      simp only [apply, bind_eq_ok_iff, pure_eq_ok_iff, mapError_eq_ok_iff, pair_eq_ok_iff,
        existingPool_eq_ok_iff] at h
      obtain ⟨pool, hpool, before, ⟨hne, rfl⟩, after, hafter, rfl⟩ := h
      obtain ⟨rfl, rfl⟩ := hl.pair_of_pool hpool
      obtain ⟨hconserved, hb, hq⟩ := Pool.remove_conserves hafter
      exact ⟨sound_shared hl hb hq, fun token =>
        ⟨circulating_shared hl hne hpool hconserved hb hq token, rfl⟩⟩
  | buy trader base quote amount limit signature =>
      simp only [apply, bind_eq_ok_iff, pure_eq_ok_iff, mapError_eq_ok_iff, pair_eq_ok_iff,
        existingPool_eq_ok_iff] at h
      obtain ⟨pool, hpool, before, ⟨hne, rfl⟩, after, hafter, rfl⟩ := h
      obtain ⟨rfl, rfl⟩ := hl.pair_of_pool hpool
      obtain ⟨hconserved, hb, hq⟩ := Pool.buy_conserves hafter
      exact ⟨sound_traded after hl hb hq, fun token =>
        ⟨circulating_traded after hl hne hpool hconserved hb hq token, rfl⟩⟩
  | sell trader base quote amount limit signature =>
      simp only [apply, bind_eq_ok_iff, pure_eq_ok_iff, mapError_eq_ok_iff, pair_eq_ok_iff,
        existingPool_eq_ok_iff] at h
      obtain ⟨pool, hpool, before, ⟨hne, rfl⟩, after, hafter, rfl⟩ := h
      obtain ⟨rfl, rfl⟩ := hl.pair_of_pool hpool
      obtain ⟨hconserved, hb, hq⟩ := Pool.sell_conserves hafter
      exact ⟨sound_traded after hl hb hq, fun token =>
        ⟨circulating_traded after hl hne hpool hconserved hb hq token, rfl⟩⟩

/-- No burn total ever shrinks. -/
theorem burned_le_of_apply (h : l.apply i = .ok l') (k : Address × Token) :
    ((l.burned k).getD 0).toNat ≤ ((l'.burned k).getD 0).toNat := by
  cases i with
  | burn owner token amount signature =>
      simp only [apply, bind_eq_ok_iff, pure_eq_ok_iff, mapError_eq_ok_iff] at h
      obtain ⟨balance, -, burned, hburned, rfl⟩ := h
      rw [credit_eq_ok_iff] at hburned
      simp only [setBurned, setBalance, Function.update_apply]
      split
      · next heq =>
          rw [heq, Option.getD_some, hburned]
          exact Nat.le_add_right _ _
      · exact Nat.le_refl _
  | _ => rw [(apply_frame h).burned k List.not_mem_nil]

end Ledger

end AmmRollup
