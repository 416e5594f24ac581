import AmmRollup.Proofs.Rollup.State

/-!
# AmmRollup.Proofs.Rollup.Build

What building a step does to the state, and what it gives.  Whether it succeeds or not,
building binds leaves and changes nothing else (`RollupState.Builds`).  The step that it
gives states what the state holds: `RollupState.Asked` lists, for every intent, the
witnesses and prior values that the step carries, all of them of the state after it.
-/

namespace AmmRollup

namespace RollupState

variable {s s' : RollupState} {α β : Type}

/-! ## Running

Building a step only reads the state and asks for leaves.  `Builds` says of an operation that it
leaves a valid state which extends the given one, and what it returns; the lemmas follow the
operations that sequences are made of.
-/

/-- Running an operation leads to a valid state that extends the given one, and what it
gives, if it gives anything, is as said. -/
structure Builds (s : RollupState) (m : Build α) (Q : α → RollupState → Prop) : Prop where
  valid : (m.run.run s).2.Valid
  extended : s.Extends (m.run.run s).2
  post : ∀ a, (m.run.run s).1 = .ok a → Q a (m.run.run s).2

namespace Builds

variable {Q : α → RollupState → Prop} {R : β → RollupState → Prop}

/-- A result that is there leaves the state alone. -/
theorem pure (h : s.Valid) {a : α} (hq : Q a s) : s.Builds (pure a) Q :=
  ⟨h, .refl s, fun _ ha => Except.ok.inj ha ▸ hq⟩

/-- A refusal leaves it alone too, and there is no result to speak of. -/
theorem throw (h : s.Valid) (f : Failure) : s.Builds (throw f : Build α) Q :=
  ⟨h, .refl s, fun _ ha => nomatch ha⟩

/-- In a sequence the second operation starts where the first one ended, and its bindings come on
top. -/
theorem bind {m : Build α} {f : α → Build β} (h : s.Builds m Q)
    (hf : ∀ a s', s'.Valid → s.Extends s' → Q a s' → s'.Builds (f a) R) :
    s.Builds (m >>= f) R := by
  obtain ⟨hvalid, hext, hpost⟩ := h
  cases hm : m.run.run s with
  | mk r s' =>
      have hrun := run_bind (m := m) (f := f) (s := s)
      rw [hm] at hvalid hext hpost hrun
      -- what was refused ends the sequence in the state that the first operation left
      cases r with
      | error e =>
          refine ⟨?_, ?_, fun b hb => ?_⟩
          · rwa [hrun]
          · rwa [hrun]
          · rw [hrun] at hb
            contradiction
      | ok a =>
          obtain ⟨hvalid', hext', hpost'⟩ := hf a s' hvalid hext (hpost a rfl)
          refine ⟨?_, ?_, ?_⟩
          · rwa [hrun]
          · rw [hrun]
            exact hext.trans hext'
          · rwa [hrun]

/-- Reading the state gives the one that the operation starts from. -/
theorem get {f : RollupState → Build β} (h : s.Builds (f s) R) :
    s.Builds (MonadState.get >>= f) R :=
  ⟨h.valid, h.extended, h.post⟩

/-- A result that does not touch the state, at the head of a sequence. -/
theorem ofState_bind {r : Except StateError α} {f : α → Build β} (h : s.Valid)
    (hf : ∀ a, r = .ok a → s.Builds (f a) R) : s.Builds (ofState r >>= f) R := by
  cases r with
  | error e => exact .throw h _
  | ok a => exact hf a rfl

/-- A result that is refused as a failure of its own, at the head of a sequence. -/
theorem lift_bind {r : Except Failure α} {f : α → Build β} (h : s.Valid)
    (hf : ∀ a, r = .ok a → s.Builds (f a) R) : s.Builds (liftM r >>= f) R := by
  cases r with
  | error e => exact .throw h _
  | ok a => exact hf a rfl

end Builds

/-! ## Leaves

Asking for a leaf returns the leaf that the key has from then on.  A second key does not disturb
the first.
-/

/-- An operation that asks one table for a leaf. -/
theorem Builds.of_index {Q : Nat → RollupState → Prop} {m : Build Nat} {r : Except StateError Nat}
    (hrun : m.run.run s = (r.mapError fun e => .of (.state e), s')) (hvalid : s'.Valid)
    (hext : s.Extends s') (hpost : ∀ i, r = .ok i → Q i s') : s.Builds m Q := by
  refine ⟨?_, ?_, fun i hi => ?_⟩
  · rwa [hrun]
  · rwa [hrun]
  · rw [hrun, mapError_eq_ok_iff] at hi
    rw [hrun]
    exact hpost i hi

/-! Each asks its table, keeps what becomes of it, and passes on a refusal. -/

/-- One equation for each table, since the state has a field for each. -/
theorem run_balanceIndex (owner : Address) (token : Token) :
    (balanceIndex owner token).run.run s =
      ((s.balances.index (owner, token)).1.mapError fun e => .of (.state e),
        { s with balances := (s.balances.index (owner, token)).2 }) := by
  unfold balanceIndex
  rw [run_get, run_set]
  cases (s.balances.index (owner, token)).1 <;> rfl

theorem run_burnIndex (owner : Address) (token : Token) :
    (burnIndex owner token).run.run s =
      ((s.burns.index (owner, token)).1.mapError fun e => .of (.state e),
        { s with burns := (s.burns.index (owner, token)).2 }) := by
  unfold burnIndex
  rw [run_get, run_set]
  cases (s.burns.index (owner, token)).1 <;> rfl

theorem run_poolIndex (base quote : Token) :
    (poolIndex base quote).run.run s =
      ((s.pools.index (base, quote)).1.mapError fun e => .of (.state e),
        { s with pools := (s.pools.index (base, quote)).2 }) := by
  unfold poolIndex
  rw [run_get, run_set]
  cases (s.pools.index (base, quote)).1 <;> rfl

theorem run_liquidityIndex (provider : Address) (base quote : Token) :
    (liquidityIndex provider base quote).run.run s =
      ((s.liquidities.index (provider, base, quote)).1.mapError fun e => .of (.state e),
        { s with liquidities := (s.liquidities.index (provider, base, quote)).2 }) := by
  unfold liquidityIndex
  rw [run_get, run_set]
  cases (s.liquidities.index (provider, base, quote)).1 <;> rfl

/-- What is passed on is the leaf that the key has from then on. -/
theorem balanceIndex_spec (h : s.Valid) (owner : Address) (token : Token) :
    s.Builds (balanceIndex owner token) fun i s' => s'.balances.find? (owner, token) = some i := by
  obtain ⟨hvalid, hext, hfind⟩ := h.balances.index_spec (owner, token)
  exact .of_index (run_balanceIndex owner token)
    (h.with_balances hvalid) ⟨hext, .refl _, .refl _, .refl _, rfl, rfl, rfl⟩ hfind

theorem burnIndex_spec (h : s.Valid) (owner : Address) (token : Token) :
    s.Builds (burnIndex owner token) fun i s' => s'.burns.find? (owner, token) = some i := by
  obtain ⟨hvalid, hext, hfind⟩ := h.burns.index_spec (owner, token)
  exact .of_index (run_burnIndex owner token)
    (h.with_burns hvalid hext.find) ⟨.refl _, .refl _, .refl _, hext, rfl, rfl, rfl⟩ hfind

theorem poolIndex_spec (h : s.Valid) (base quote : Token) :
    s.Builds (poolIndex base quote) fun i s' => s'.pools.find? (base, quote) = some i := by
  obtain ⟨hvalid, hext, hfind⟩ := h.pools.index_spec (base, quote)
  exact .of_index (run_poolIndex base quote)
    (h.with_pools hvalid) ⟨.refl _, .refl _, hext, .refl _, rfl, rfl, rfl⟩ hfind

theorem liquidityIndex_spec (h : s.Valid) (provider : Address) (base quote : Token) :
    s.Builds (liquidityIndex provider base quote) fun i s' =>
      s'.liquidities.find? (provider, base, quote) = some i := by
  obtain ⟨hvalid, hext, hfind⟩ := h.liquidities.index_spec (provider, base, quote)
  exact .of_index (run_liquidityIndex provider base quote)
    (h.with_liquidities hvalid) ⟨.refl _, hext, .refl _, .refl _, rfl, rfl, rfl⟩ hfind

/-- Two leaves of one table: asking for the second one keeps the first. -/
theorem pairWitness_spec (h : s.Valid) (owner : Address) (base quote : Token) :
    s.Builds (pairWitness owner base quote) fun w s' =>
      s'.balances.OpenedAtBoth (owner, base) (owner, quote) w := by
  unfold pairWitness
  refine (balanceIndex_spec h owner base).bind fun i s₁ h₁ _ hi => ?_
  refine (balanceIndex_spec h₁ owner quote).bind fun j s₂ h₂ hext hj => .get ?_
  have hi' := hext.balances.find _ _ hi
  cases hw : s₂.balances.doubleWitness i j with
  | error e => exact .throw h₂ _
  | ok w => exact .pure h₂ (h₂.balances.doubleWitness_spec (by decide) hi' hj hw)

/-! ## Claims

What a step claims is read from the state while leaves are still being given out.  It stays true,
as giving out leaves changes no record.
-/

/-- What a built step claims of a pool and of an account's balances in its pair. -/
structure Claims (s : RollupState) (account : Address) (base quote : Token) (c : PoolClaim) :
    Prop where
  account_eq : c.account = account
  pool_eq : s.pool base quote = some c.pool
  balances_eq : c.balances = s.pairBalances account base quote
  pool_at : s.pools.OpenedAt (base, quote) c.poolWitness
  balances_at : s.balances.OpenedAtBoth (account, base) (account, quote) c.balanceWitness

/-- What a built step claims of an account's points. -/
structure ClaimsPoints (s : RollupState) (account : Address) (base quote : Token)
    (p : PointsClaim) : Prop where
  prior_eq : p.prior = s.liquidity account base quote
  points_at : s.liquidities.OpenedAt (account, base, quote) p.witness

/-- A pool that is found stands at the leaf of its pair. -/
theorem existingPool_spec {base quote : Token} {i : Nat} {pool : Pool}
    (h : s.existingPool base quote = .ok (i, pool)) :
    s.pools.find? (base, quote) = some i ∧ s.pool base quote = some pool := by
  unfold existingPool at h
  split at h
  · next hi hp =>
      obtain ⟨rfl, rfl⟩ := Prod.mk.inj (Except.ok.inj h)
      exact ⟨hi, hp⟩
  · contradiction

/-- The pool is opened before any balance has a leaf, and stays open since leaves are only bound. -/
theorem poolClaim_spec (h : s.Valid) {i : Nat} {pool : Pool} {base quote : Token}
    (hfind : s.pools.find? (base, quote) = some i) (hpool : s.pool base quote = some pool)
    (account : Address) :
    s.Builds (poolClaim i pool account base quote) fun c s' => s'.Claims account base quote c := by
  unfold poolClaim
  refine .get (.ofState_bind h fun w hw => ?_)
  refine (pairWitness_spec h account base quote).bind fun v s' h' hext hv => .get ?_
  refine .pure h' ⟨rfl, ?_, rfl, ?_, hv⟩
  · exact (congrFun (h.pools.get?_extends h'.pools hext.pools) (base, quote)).trans hpool
  · exact (h.pools.witness_spec (by decide) hfind hw).extends hext.pools

/-- The points come first here, and their path stays true while the balances are given leaves. -/
theorem shareClaims_spec (h : s.Valid) (account : Address) (base quote : Token) :
    s.Builds (shareClaims account base quote) fun c s' =>
      s'.Claims account base quote c.1 ∧ s'.ClaimsPoints account base quote c.2 := by
  unfold shareClaims
  refine .get (.lift_bind h ?_)
  rintro ⟨i, pool⟩ hexisting
  obtain ⟨hfind, hpool⟩ := existingPool_spec hexisting
  refine (liquidityIndex_spec h account base quote).bind fun j s₁ h₁ hext₁ hj => .get ?_
  refine .ofState_bind h₁ fun w hw => ?_
  have hpool₁ : s₁.pool base quote = some pool :=
    (congrFun (h.pools.get?_extends h₁.pools hext₁.pools) (base, quote)).trans hpool
  refine (poolClaim_spec h₁ (hext₁.pools.find _ _ hfind) hpool₁ account).bind
    fun c s₂ h₂ hext₂ hc => .get ?_
  refine .pure h₂ ⟨hc, rfl, ?_⟩
  exact (h₁.liquidities.witness_spec (by decide) hj hw).extends hext₂.liquidities

/-- A trade claims a pool and two balances, and passes on what was asked for. -/
theorem swapArgs_spec (h : s.Valid) (trader : Address) (base quote : Token)
    (amount limit : Amount) (signature : Ed25519.Signature) :
    s.Builds (swapArgs trader base quote amount limit signature) fun a s' =>
      ∃ c, s'.Claims trader base quote c ∧ a = ⟨c, amount, limit, signature⟩ := by
  unfold swapArgs
  refine .get (.lift_bind h ?_)
  rintro ⟨i, pool⟩ hexisting
  obtain ⟨hfind, hpool⟩ := existingPool_spec hexisting
  exact (poolClaim_spec h hfind hpool trader).bind fun c s₁ h₁ _ hc => .pure h₁ ⟨c, hc, rfl⟩

/-! ## Steps -/

/-- The step that an intent gives, for each method: what it is asked for is passed on, and
what it claims is taken from the state. -/
inductive Asked (s : RollupState) : Intent → Transition → Prop
  | deposit {d : AccountRecord} {w : Witness} (hw : s.balances.OpenedAt d.key w) :
      Asked s (.deposit d) (.deposit ⟨w, d, s.balance d.account d.token, s.depositHead,
        nextDepositHead s.depositHead d⟩)
  | burn {owner : Address} {token : Token} {amount : Amount} {signature : Ed25519.Signature}
      {w v : Witness} (hw : s.balances.OpenedAt (owner, token) w)
      (hv : s.burns.OpenedAt (owner, token) v) :
      Asked s (.burn owner token amount signature) (.burn ⟨w, v, owner, token, amount,
        s.balance owner token, s.burned owner token, signature⟩)
  | createPool {provider : Address} {base quote : Token} {baseAmount quoteAmount : Amount}
      {signature : Ed25519.Signature} {w v : Witness} {u : DoubleWitness}
      (hw : s.pools.OpenedAt (base, quote) w)
      (hv : s.liquidities.OpenedAt (provider, base, quote) v)
      (hu : s.balances.OpenedAtBoth (provider, base) (provider, quote) u) :
      Asked s (.createPool provider base quote baseAmount quoteAmount signature)
        (.createPool ⟨w, v, u, provider, base, quote, baseAmount, quoteAmount,
          s.pairBalances provider base quote, signature⟩)
  | provideLiquidity {provider : Address} {base quote : Token} {baseIn quoteLimit : Amount}
      {signature : Ed25519.Signature} {c : PoolClaim} {p : PointsClaim}
      (hc : s.Claims provider base quote c) (hp : s.ClaimsPoints provider base quote p) :
      Asked s (.provideLiquidity provider base quote baseIn quoteLimit signature)
        (.provideLiquidity ⟨c, p, baseIn, quoteLimit, signature⟩)
  | removeLiquidity {provider : Address} {base quote : Token} {redeemed : Points}
      {baseLimit quoteLimit : Amount} {signature : Ed25519.Signature} {c : PoolClaim}
      {p : PointsClaim} (hc : s.Claims provider base quote c)
      (hp : s.ClaimsPoints provider base quote p) :
      Asked s (.removeLiquidity provider base quote redeemed baseLimit quoteLimit signature)
        (.removeLiquidity ⟨c, p, redeemed, baseLimit, quoteLimit, signature⟩)
  | buy {trader : Address} {base quote : Token} {amount limit : Amount}
      {signature : Ed25519.Signature} {c : PoolClaim} (hc : s.Claims trader base quote c) :
      Asked s (.buy trader base quote amount limit signature) (.buy ⟨c, amount, limit, signature⟩)
  | sell {trader : Address} {base quote : Token} {amount limit : Amount}
      {signature : Ed25519.Signature} {c : PoolClaim} (hc : s.Claims trader base quote c) :
      Asked s (.sell trader base quote amount limit signature)
        (.sell ⟨c, amount, limit, signature⟩)

/-- Building binds leaves and nothing else, and gives the step that was asked for. -/
theorem Valid.build_spec (h : s.Valid) (i : Intent) :
    s.Builds (build i) fun t s' => s'.Asked i t := by
  cases i with
  | deposit d =>
      refine (balanceIndex_spec h _ _).bind fun i s₁ h₁ _ hi => .get (.ofState_bind h₁ ?_)
      intro w hw
      exact .pure h₁ (.deposit (h₁.balances.witness_spec (by decide) hi hw))
  | burn owner token amount signature =>
      refine (balanceIndex_spec h _ _).bind fun i s₁ h₁ _ hi => ?_
      refine (burnIndex_spec h₁ _ _).bind fun j s₂ h₂ hext hj => .get (.ofState_bind h₂ ?_)
      intro w hw
      refine .ofState_bind h₂ fun v hv => .pure h₂ (.burn ?_ ?_)
      · exact h₂.balances.witness_spec (by decide) (hext.balances.find _ _ hi) hw
      · exact h₂.burns.witness_spec (by decide) hj hv
  | createPool provider base quote baseAmount quoteAmount signature =>
      refine (poolIndex_spec h _ _).bind fun i s₁ h₁ _ hi => ?_
      refine (liquidityIndex_spec h₁ _ _ _).bind fun j s₂ h₂ hext hj => .get (.ofState_bind h₂ ?_)
      intro w hw
      refine .get (.ofState_bind h₂ fun v hv => ?_)
      refine (pairWitness_spec h₂ _ _ _).bind fun u s₃ h₃ hext' hu => .get ?_
      -- both paths were taken before the balances were bound, and still open their tables
      refine .pure h₃ (.createPool ?_ ?_ hu)
      · exact (h₂.pools.witness_spec (by decide) (hext.pools.find _ _ hi) hw).extends hext'.pools
      · exact (h₂.liquidities.witness_spec (by decide) hj hv).extends hext'.liquidities
  | provideLiquidity provider base quote baseIn quoteLimit signature =>
      exact (shareClaims_spec h _ _ _).bind fun c s₁ h₁ _ hc =>
        .pure h₁ (.provideLiquidity hc.1 hc.2)
  | removeLiquidity provider base quote redeemed baseLimit quoteLimit signature =>
      exact (shareClaims_spec h _ _ _).bind fun c s₁ h₁ _ hc =>
        .pure h₁ (.removeLiquidity hc.1 hc.2)
  | buy trader base quote amount limit signature =>
      refine (swapArgs_spec h _ _ _ _ _ _).bind ?_
      rintro a s₁ h₁ - ⟨c, hc, rfl⟩
      exact .pure h₁ (.buy hc)
  | sell trader base quote amount limit signature =>
      refine (swapArgs_spec h _ _ _ _ _ _).bind ?_
      rintro a s₁ h₁ - ⟨c, hc, rfl⟩
      exact .pure h₁ (.sell hc)

/-! ## Lookups

For the failures it does not matter what is looked up.  What holds of each lookup and passes on
to sequences holds of building any step.
-/

/-- What holds of the operations that look things up or ask for leaves, and of sequences of
these.  Failing is one of them, but not for the refusal of a step. -/
structure Lookups (P : ∀ {α : Type}, Build α → Prop) : Prop where
  pure : ∀ {α : Type} (a : α), P (Pure.pure a : Build α)
  get : P (MonadState.get : Build RollupState)
  throw : ∀ {α : Type} (f : Failure), (∀ e, f.cause ≠ .transition e) →
    P (MonadExcept.throw f : Build α)
  bind : ∀ {α β : Type} {m : Build α} {f : α → Build β}, P m → (∀ a, P (f a)) → P (m >>= f)
  balanceIndex : ∀ owner token, P (balanceIndex owner token)
  burnIndex : ∀ owner token, P (burnIndex owner token)
  poolIndex : ∀ base quote, P (poolIndex base quote)
  liquidityIndex : ∀ provider base quote, P (liquidityIndex provider base quote)

namespace Lookups

variable {P : ∀ {α : Type}, Build α → Prop} (h : Lookups P)

include h

theorem ofState (r : Except StateError α) : P (ofState r) := by
  cases r with
  | error e => exact h.throw _ nofun
  | ok a => exact h.pure a

theorem existingPool (s : RollupState) (base quote : Token) :
    P (liftM (s.existingPool base quote) : Build (Nat × Pool)) := by
  unfold RollupState.existingPool
  split
  · exact h.pure _
  · exact h.throw _ nofun

/-- What holds of each lookup holds of that of two balances. -/
theorem pairWitness (owner : Address) (base quote : Token) : P (pairWitness owner base quote) := by
  unfold RollupState.pairWitness
  refine h.bind (h.balanceIndex _ _) fun _ => ?_
  refine h.bind (h.balanceIndex _ _) fun _ => ?_
  refine h.bind h.get fun s => ?_
  split
  · exact h.pure _
  · exact h.throw _ nofun

/-- What holds of each lookup holds of that of a pool and two balances. -/
theorem poolClaim (index : Nat) (pool : Pool) (account : Address) (base quote : Token) :
    P (poolClaim index pool account base quote) := by
  refine h.bind h.get fun _ => ?_
  refine h.bind (h.ofState _) fun _ => ?_
  refine h.bind (h.pairWitness _ _ _) fun _ => ?_
  exact h.bind h.get fun _ => h.pure _

/-- What holds of each lookup holds of that of a pool and the points of an account. -/
theorem shareClaims (account : Address) (base quote : Token) :
    P (shareClaims account base quote) := by
  refine h.bind h.get fun _ => ?_
  refine h.bind (h.existingPool _ _ _) fun _ => ?_
  refine h.bind (h.liquidityIndex _ _ _) fun _ => ?_
  refine h.bind h.get fun _ => ?_
  refine h.bind (h.ofState _) fun _ => ?_
  refine h.bind (h.poolClaim _ _ _ _ _) fun _ => ?_
  exact h.bind h.get fun _ => h.pure _

/-- What holds of each lookup holds of that of what a trade needs. -/
theorem swapArgs (trader : Address) (base quote : Token) (amount limit : Amount)
    (signature : Ed25519.Signature) : P (swapArgs trader base quote amount limit signature) := by
  refine h.bind h.get fun _ => ?_
  refine h.bind (h.existingPool _ _ _) fun _ => ?_
  exact h.bind (h.poolClaim _ _ _ _ _) fun _ => h.pure _

/-- Building a step is a sequence of lookups. -/
theorem build (i : Intent) : P (build i) := by
  -- the methods ask for leaves in different orders, so each is spelled out
  cases i with
  | deposit d =>
      refine h.bind (h.balanceIndex _ _) fun _ => ?_
      refine h.bind h.get fun _ => ?_
      exact h.bind (h.ofState _) fun _ => h.pure _
  | burn owner token amount signature =>
      refine h.bind (h.balanceIndex _ _) fun _ => ?_
      refine h.bind (h.burnIndex _ _) fun _ => ?_
      refine h.bind h.get fun _ => ?_
      refine h.bind (h.ofState _) fun _ => ?_
      exact h.bind (h.ofState _) fun _ => h.pure _
  | createPool provider base quote baseAmount quoteAmount signature =>
      refine h.bind (h.poolIndex _ _) fun _ => ?_
      refine h.bind (h.liquidityIndex _ _ _) fun _ => ?_
      refine h.bind h.get fun _ => ?_
      refine h.bind (h.ofState _) fun _ => ?_
      refine h.bind h.get fun _ => ?_
      refine h.bind (h.ofState _) fun _ => ?_
      refine h.bind (h.pairWitness _ _ _) fun _ => ?_
      exact h.bind h.get fun _ => h.pure _
  | provideLiquidity | removeLiquidity => exact h.bind (h.shareClaims _ _ _) fun _ => h.pure _
  | buy | sell => exact h.bind (h.swapArgs _ _ _ _ _ _) fun _ => h.pure _

end Lookups

/-! ## Failures -/

/-- An operation that fails for want of a pool or of leaves alone, and not for the refusal of
a step. -/
def LooksUp (m : Build α) : Prop :=
  ∀ (s : RollupState) (f : Failure), (m.run.run s).1 = .error f → ∀ e, f.cause ≠ .transition e

namespace LooksUp

/-- A sequence fails where one of its operations does. -/
theorem bind {m : Build α} {f : α → Build β} (h : LooksUp m) (hf : ∀ a, LooksUp (f a)) :
    LooksUp (m >>= f) := by
  intro s g hg
  rw [run_bind] at hg
  cases hm : m.run.run s with
  | mk r s' =>
      rw [hm] at hg
      cases r with
      | error e =>
          obtain rfl : e = g := Except.error.inj hg
          exact h s e (by rw [hm])
      | ok a => exact hf a s' g hg

/-- A table that has no leaf left is not the refusal of a step. -/
theorem of_index {m : Build Nat} {r : RollupState → Except StateError Nat}
    {next : RollupState → RollupState}
    (hrun : ∀ s, m.run.run s = ((r s).mapError fun e => .of (.state e), next s)) : LooksUp m := by
  intro s f hf
  rw [hrun] at hf
  cases hr : r s with
  | error e =>
      rw [hr] at hf
      exact Except.error.inj hf ▸ nofun
  | ok i =>
      rw [hr] at hf
      contradiction

theorem lookups : Lookups LooksUp where
  pure _ _ _ h := nomatch h
  get _ _ h := nomatch h
  throw _ h _ _ hf := Except.error.inj hf ▸ h
  bind := bind
  balanceIndex _ _ := .of_index fun _ => run_balanceIndex _ _
  burnIndex _ _ := .of_index fun _ => run_burnIndex _ _
  poolIndex _ _ := .of_index fun _ => run_poolIndex _ _
  liquidityIndex _ _ _ := .of_index fun _ => run_liquidityIndex _ _ _

/-- Building a step refuses none: it only looks things up. -/
theorem build (i : Intent) : LooksUp (build i) := lookups.build i

end LooksUp

end RollupState

end AmmRollup
