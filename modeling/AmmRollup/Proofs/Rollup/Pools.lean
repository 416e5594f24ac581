import AmmRollup.Proofs.Pool.Liquidity
import AmmRollup.Proofs.Rollup.Forged
import AmmRollup.Proofs.Rollup.Perform

/-!
# AmmRollup.Proofs.Rollup.Pools

The pools of the rollup against the points of their providers.  Whatever was asked for, a
pool has as many points as its providers together, and is either live or drained
(`RollupState.performEach_pooled`).  So whoever gives back no more points than are theirs
takes nothing that is not there, and a drained pool stays as it is.

All of it is a matter of the ledger: `Ledger.Deals` says once what an accepted intent does to
pools and points, and the rest follows from that.
-/

namespace AmmRollup

namespace Ledger

variable {l l' : Ledger} {i : Intent} {account : Address} {base quote : Token}

/-! ## Providers

The points of a pool are kept with the pool, as their total, and with their providers, one entry
each.  The sum over the providers is what the total must be.
-/

/-- The points that are given out in a pair, by their providers. -/
def providers (l : Ledger) (pair : Token × Token) (provider : Address) : Option Points :=
  l.liquidity (provider, pair)

/-- The points of a pool that may not exist. -/
def poolPoints (l : Ledger) (pair : Token × Token) : Nat :=
  (l.pool pair).elim 0 fun p => p.totalPoints.toNat

/-- Changing the part of an account changes its own points, and nobody else's. -/
theorem providers_shared (after : Shared) (pair : Token × Token) :
    (l.shared account base quote after).providers pair =
      if pair = (base, quote) then
        Function.update (l.providers pair) account (some after.points)
      else l.providers pair := by
  funext provider
  split
  · next h => simp [providers, shared, setBalance, setPoints, setPool, h, Function.update_apply]
  · next h => simp [providers, shared, setBalance, setPoints, setPool, h]

/-- A change of liquidity leaves the pool that it computes. -/
theorem pool_shared (after : Shared) :
    (l.shared account base quote after).pool (base, quote) = some after.pool := by
  simp [shared, setBalance, setPoints, setPool]

/-- A pool that is written has its own points, and the other pools have theirs. -/
theorem poolPoints_setPool (l : Ledger) (base quote : Token) (pool : Pool)
    (pair : Token × Token) : (l.setPool base quote pool).poolPoints pair =
      if pair = (base, quote) then pool.totalPoints.toNat else l.poolPoints pair := by
  simp only [poolPoints, setPool, Function.update_apply]
  split <;> rfl

/-! ## Invariant -/

/-- Every pool has the points of its providers, and is live or drained. -/
structure Pooled (l : Ledger) : Prop where
  finite : ∀ pair, FiniteMap (l.providers pair)
  points : ∀ pair, total BitVec.toNat (l.providers pair) = l.poolPoints pair
  steady : ∀ pair p, l.pool pair = some p → p.Live ∨ p.Drained

/-- Without pools there are no points. -/
theorem pooled_empty : empty.Pooled where
  finite _ := .empty
  points _ := total_empty
  steady _ _ h := nomatch h

namespace Pooled

/-- The invariant is about pools and points alone. -/
theorem congr (h : l.Pooled) (hpool : l'.pool = l.pool) (hliquidity : l'.liquidity = l.liquidity) :
    l'.Pooled := by
  have hproviders : l'.providers = l.providers := by
    funext pair provider
    rw [providers, hliquidity, providers]
  refine ⟨?_, ?_, ?_⟩
  · rw [hproviders]
    exact h.finite
  · simp only [hproviders, poolPoints, hpool]
    exact h.points
  · rw [hpool]
    exact h.steady

/-- Setting a pool that is live or drained leaves no other kind. -/
theorem steady_setPool (h : l.Pooled) {pool : Pool} (hpool : pool.Live ∨ pool.Drained)
    {pair : Token × Token} {p : Pool} (hp : (l.setPool base quote pool).pool pair = some p) :
    p.Live ∨ p.Drained := by
  simp only [setPool, Function.update_apply] at hp
  split at hp
  · exact Option.some.inj hp ▸ hpool
  · exact h.steady pair p hp

/-- A trade leaves the points of its pool alone. -/
theorem traded (h : l.Pooled) {pool : Pool} (hpool : l.pool (base, quote) = some pool)
    {after : Traded} (hpoints : after.pool.totalPoints = pool.totalPoints)
    (hsteady : after.pool.Live ∨ after.pool.Drained) :
    (l.traded account base quote after).Pooled where
  finite := h.finite
  points pair := by
    have hafter := l.poolPoints_setPool base quote after.pool pair
    refine (h.points pair).trans (Eq.symm (hafter.trans ?_))
    split
    · next heq => rw [heq, poolPoints, hpool, hpoints, Option.elim_some]
    · rfl
  steady _ _ := h.steady_setPool hsteady

/-- A change of liquidity changes the points of the pool by those of the account. -/
theorem shared (h : l.Pooled) {after : Shared}
    (hpoints : after.pool.totalPoints.toNat +
        ((l.liquidity (account, base, quote)).getD 0).toNat =
      l.poolPoints (base, quote) + after.points.toNat)
    (hsteady : after.pool.Live ∨ after.pool.Drained) :
    (l.shared account base quote after).Pooled where
  finite pair := by
    rw [providers_shared]
    split
    · exact (h.finite pair).update account _
    · exact h.finite pair
  points pair := by
    have hafter := l.poolPoints_setPool base quote after.pool pair
    refine Eq.trans ?_ hafter.symm
    rw [providers_shared]
    split
    -- in the pair itself the account's points are replaced, and the sum moves with them
    · next heq =>
        subst heq
        have htotal := total_update BitVec.toNat (h.finite (base, quote)) account
          (some after.points)
        have hprior : (l.providers (base, quote) account).elim 0 BitVec.toNat =
            ((l.liquidity (account, base, quote)).getD 0).toNat := by
          rw [providers]
          cases l.liquidity (account, base, quote) <;> rfl
        rw [h.points, hprior, Option.elim_some] at htotal
        omega
    · exact h.points pair
  steady _ _ := h.steady_setPool hsteady

end Pooled

/-! ## Steps

Every accepted intent deals with live pools only, by the prices, and changes the points of a
provider by as much as the total.  What it leaves is a live pool, or a drained one with no points
at all.
-/

/-- What an accepted intent does to pools and points.  Of the pools that are there, it deals
with live ones alone. -/
inductive Deals (l : Ledger) (i : Intent) : Ledger → Prop
  | aside {l' : Ledger} (keys : i.poolKeys = []) (pool : l'.pool = l.pool)
      (liquidity : l'.liquidity = l.liquidity) : Deals l i l'
  | opened {account : Address} {base quote : Token} {after : Shared}
      (keys : i.poolKeys = [(base, quote)]) (vacant : l.pool (base, quote) = none)
      (prior : l.liquidity (account, base, quote) = none)
      (points : after.pool.totalPoints = after.points) (live : after.pool.Live) :
      Deals l i (l.shared account base quote after)
  | traded {account : Address} {base quote : Token} {pool : Pool} {after : Traded}
      (keys : i.poolKeys = [(base, quote)]) (existing : l.pool (base, quote) = some pool)
      (points : after.pool.totalPoints = pool.totalPoints) (live : pool.Live ∧ after.pool.Live) :
      Deals l i (l.traded account base quote after)
  | shared {account : Address} {base quote : Token} {pool : Pool} {after : Shared}
      (keys : i.poolKeys = [(base, quote)]) (existing : l.pool (base, quote) = some pool)
      (points : after.pool.totalPoints.toNat +
          ((l.liquidity (account, base, quote)).getD 0).toNat =
        pool.totalPoints.toNat + after.points.toNat)
      (steady : pool.Live ∧ (after.pool.Live ∨ after.pool.Drained)) :
      Deals l i (l.shared account base quote after)

/-- The prices allow no more. -/
theorem Pooled.deals (h : l.Pooled) (happly : l.apply i = .ok l') : l.Deals i l' := by
  cases i with
  | deposit d =>
      simp only [apply, bind_eq_ok_iff, pure_eq_ok_iff] at happly
      obtain ⟨after, -, rfl⟩ := happly
      exact .aside rfl rfl rfl
  | burn owner token amount signature =>
      simp only [apply, bind_eq_ok_iff, pure_eq_ok_iff] at happly
      obtain ⟨balance, -, burned, -, rfl⟩ := happly
      exact .aside rfl rfl rfl
  | createPool provider base quote baseAmount quoteAmount signature =>
      simp only [apply, bind_eq_ok_iff, pure_eq_ok_iff, mapError_eq_ok_iff, vacant_eq_ok_iff]
        at happly
      obtain ⟨before, -, _, ⟨hpool, hprior⟩, after, hafter, rfl⟩ := happly
      exact .opened rfl hpool hprior (Pool.opened_terms hafter).totalPoints
        (Pool.opened_live hafter)
  | provideLiquidity provider base quote baseIn quoteLimit signature =>
      simp only [apply, bind_eq_ok_iff, pure_eq_ok_iff, mapError_eq_ok_iff,
        existingPool_eq_ok_iff] at happly
      obtain ⟨pool, hpool, before, -, after, hafter, rfl⟩ := happly
      -- a drained pool prices nothing, so whoever provides finds a live one
      obtain ⟨hlive, hafterLive⟩ := Pool.provide_live (h.steady _ _ hpool) hafter
      obtain ⟨quoteIn, -, minted, hterms⟩ := Pool.provide_terms hafter
      have hpoints := hterms.points
      have htotal := hterms.totalPoints
      exact .shared rfl hpool (by omega) ⟨hlive, .inl hafterLive⟩
  | removeLiquidity provider base quote redeemed baseLimit quoteLimit signature =>
      simp only [apply, bind_eq_ok_iff, pure_eq_ok_iff, mapError_eq_ok_iff,
        existingPool_eq_ok_iff] at happly
      obtain ⟨pool, hpool, before, -, after, hafter, rfl⟩ := happly
      obtain ⟨baseOut, -, quoteOut, -, hterms⟩ := Pool.remove_terms hafter
      have hpoints := hterms.points
      have htotal := hterms.totalPoints
      exact .shared rfl hpool (by omega) (Pool.remove_steady (h.steady _ _ hpool) hafter)
  | buy trader base quote amount limit signature =>
      simp only [apply, bind_eq_ok_iff, pure_eq_ok_iff, mapError_eq_ok_iff,
        existingPool_eq_ok_iff] at happly
      obtain ⟨pool, hpool, before, -, after, hafter, rfl⟩ := happly
      obtain ⟨paid, -, hterms⟩ := Pool.buy_terms hafter
      exact .traded rfl hpool hterms.points (Pool.buy_live (h.steady _ _ hpool) hafter)
  | sell trader base quote amount limit signature =>
      simp only [apply, bind_eq_ok_iff, pure_eq_ok_iff, mapError_eq_ok_iff,
        existingPool_eq_ok_iff] at happly
      obtain ⟨pool, hpool, before, -, after, hafter, rfl⟩ := happly
      obtain ⟨paid, -, hterms⟩ := Pool.sell_terms hafter
      exact .traded rfl hpool hterms.points (Pool.sell_live (h.steady _ _ hpool) hafter)

/-- Every accepted intent preserves the invariant. -/
theorem apply_pooled (h : l.Pooled) (happly : l.apply i = .ok l') : l'.Pooled := by
  cases h.deals happly with
  | aside _ hpool hliquidity => exact h.congr hpool hliquidity
  | opened _ hvacant hprior hpoints hlive =>
      refine h.shared ?_ (.inl hlive)
      rw [hprior, poolPoints, hvacant, hpoints, Nat.add_comm]
      rfl
  | traded _ hpool hpoints hlive => exact h.traded hpool hpoints (.inl hlive.2)
  | shared _ hpool hpoints hsteady =>
      refine h.shared ?_ hsteady.2
      rwa [poolPoints, hpool]

/-- No accepted intent deals with a drained pool, so it stays as it is. -/
theorem apply_drained (h : l.Pooled) (happly : l.apply i = .ok l') {pair : Token × Token}
    {p : Pool} (hp : l.pool pair = some p) (hdrained : p.Drained) : l'.pool pair = some p := by
  have hframe := (apply_frame happly).pool pair
  suffices hpair : pair ∉ i.poolKeys from (hframe hpair).trans hp
  intro hpair
  cases h.deals happly with
  | aside hkeys => simp [hkeys] at hpair
  | opened hkeys hvacant =>
      obtain rfl := List.mem_singleton.mp (hkeys ▸ hpair)
      exact nomatch hp.symm.trans hvacant
  | traded hkeys hpool _ hlive | shared hkeys hpool _ hlive =>
      obtain rfl := List.mem_singleton.mp (hkeys ▸ hpair)
      obtain rfl := Option.some.inj (hpool.symm.trans hp)
      exact hlive.1.not_drained hdrained

/-! ## Giving back points

A provider has no more points than there are, so giving back some of them takes nothing that is
not there.
-/

/-- A provider has no more points than the pool. -/
theorem Pooled.providers_le (h : l.Pooled) {pool : Pool} (hpool : l.pool (base, quote) = some pool)
    (provider : Address) : (l.liquidity (provider, base, quote)).getD 0 ≤ pool.totalPoints := by
  have hle := le_total (h.finite (base, quote)) BitVec.toNat provider
  rw [h.points, poolPoints, hpool, Option.elim_some, providers] at hle
  cases hprior : l.liquidity (provider, base, quote) with
  | none => exact BitVec.le_def.mpr (Nat.zero_le _)
  | some points =>
      rw [hprior] at hle
      exact BitVec.le_def.mpr hle

/-- Lookups refuse no amounts. -/
theorem existingPool_ne_amount {e : AmountError} :
    l.existingPool base quote ≠ .error (.amount e) := by
  unfold existingPool
  split <;> simp

theorem pair_ne_amount {e : AmountError} : l.pair account base quote ≠ .error (.amount e) := by
  unfold pair
  split <;> simp

/-- Giving back no more points than are one's own takes nothing that is not there. -/
theorem remove_ne_underflow (h : l.Pooled) {provider : Address} {redeemed : Points}
    {baseLimit quoteLimit : Amount} {signature : Ed25519.Signature}
    (hredeemed : redeemed ≤ (l.liquidity (provider, base, quote)).getD 0) :
    l.apply (.removeLiquidity provider base quote redeemed baseLimit quoteLimit signature) ≠
      .error (.amount .underflow) := by
  refine bind_ne_error existingPool_ne_amount fun pool hpool => ?_
  refine bind_ne_error pair_ne_amount fun before _ => ?_
  refine bind_ne_error (mapError_ne_error (fun _ => LedgerError.amount.inj) ?_)
    fun _ _ => pure_ne_error
  have hprovider := h.providers_le (existingPool_eq_ok_iff.mp hpool) provider
  exact Pool.remove_ne_underflow hredeemed (BitVec.le_trans hredeemed hprovider)

end Ledger

namespace RollupState

/-! ## Runs

The invariant is one of ledgers, and is carried over to runs of the rollup by the refinement.
-/

/-- The pools of a state are whole. -/
structure Pooled (s : RollupState) : Prop where
  /-- A pool has as many points as all its providers have. -/
  points : ∀ base quote p, s.pool base quote = some p →
    FiniteMap (fun provider => s.liquidity provider base quote) ∧
      total BitVec.toNat (fun provider => s.liquidity provider base quote) = p.totalPoints.toNat
  /-- Its reserves and its points are all there or all gone. -/
  steady : ∀ base quote p, s.pool base quote = some p → p.Live ∨ p.Drained
  /-- No points that are a provider's own are refused because something is not there. -/
  removable : ∀ provider base quote redeemed,
    redeemed ≤ (s.liquidity provider base quote).getD 0 →
      ∀ v earlier baseLimit quoteLimit signature f,
        ((perform v earlier (.removeLiquidity provider base quote redeemed baseLimit quoteLimit
          signature)).run.run s).1 = .error f → f.cause ≠ .transition (.amount .underflow)

variable {s : RollupState}

/-- The lookups of a valid state are those of its ledger. -/
theorem Valid.pooled (h : s.Valid) (hledger : s.ledger.Pooled) : s.Pooled where
  points base quote p hp := by
    refine ⟨hledger.finite (base, quote), (hledger.points (base, quote)).trans ?_⟩
    rw [Ledger.poolPoints, show s.ledger.pool (base, quote) = some p from hp]
    rfl
  steady base quote := hledger.steady (base, quote)
  removable provider base quote redeemed hredeemed v earlier baseLimit quoteLimit signature f hrun
      hcause := by
    have hrefusal := h.perform_refusal
      (i := .removeLiquidity provider base quote redeemed baseLimit quoteLimit signature)
      (fun _ => trivial) hrun
    exact Ledger.remove_ne_underflow hledger hredeemed (hrefusal.amount_eq hcause)

/-- **Pools.**  After any run the pools are whole, and a pool that was drained in between is
as it was then. -/
theorem performEach_pooled (requests : List Request)
    (hc : CollisionFree (initial.performPreimages requests)) :
    (initial.performEach requests).Pooled ∧
      ∀ before after, requests = before ++ after → ∀ base quote p,
        (initial.performEach before).pool base quote = some p → p.Drained →
          (initial.performEach requests).pool base quote = some p := by
  have hpooled (requests : List Request) (hc : CollisionFree (initial.performPreimages requests)) :=
    valid_initial.performEach_invariant (fun _ _ _ => Ledger.apply_pooled) Ledger.pooled_empty hc
  obtain ⟨hvalid, hledger⟩ := hpooled requests hc
  refine ⟨hvalid.pooled hledger, ?_⟩
  rintro before after rfl base quote p hp hdrained
  rw [performPreimages_append] at hc
  obtain ⟨hvalid, hledger⟩ := hpooled before (hc.mono Set.subset_union_left)
  rw [performEach, List.foldl_append]
  exact (hvalid.performEach_invariant (P := fun l => l.Pooled ∧ l.pool (base, quote) = some p)
    (fun _ _ _ h happly => ⟨Ledger.apply_pooled h.1 happly,
      Ledger.apply_drained h.1 happly h.2 hdrained⟩) ⟨hledger, hp⟩
    (hc.mono Set.subset_union_right)).2.2

/-! ## An instance

The pool that the forged step was after, opened as it should be.  Two deposits pay for it, and
its provider gets all of its points.
-/

/-- What the funded account is asked to sign to open its pool. -/
def openingIntent : Intent :=
  .createPool firstRecord.account firstRecord.token secondRecord.token 2 3 ⟨.zero, .zero⟩

/-- Both deposits, and the pool that they allow. -/
def openingRequests : List Request :=
  [⟨.trusting, some (.start initial.roots), .deposit firstRecord⟩,
    ⟨.trusting, some (.start (initial.deposited 0 firstRecord).roots), .deposit secondRecord⟩,
    ⟨.trusting, some (.start funded.roots), openingIntent⟩]

/-- The step that opens the pool: that of the forger, with flags and true claims. -/
def openingArgs : CreatePoolArgs :=
  { forgedArgs with
    balanceWitness := { forgedArgs.balanceWitness with meets := mergeFlags 0 1 22 }
    balances := ⟨some 5, some 7⟩ }

/-- The pool that it opens. -/
def openedPool : Pool := ⟨firstRecord.token, secondRecord.token, 2, 3, 6⟩

/-- Building binds a leaf to the pool and one to its points, and leaves the prepared state. -/
theorem build_opening :
    (build openingIntent).run.run funded = (.ok (.createPool openingArgs), prepared) := rfl

/-- The step is the one that the state builds for the intent. -/
theorem asked_opening : prepared.Asked openingIntent (.createPool openingArgs) := by
  have hbuilds := funded_reachable.valid.build_spec openingIntent
  have hasked := hbuilds.post (.createPool openingArgs)
  rw [build_opening] at hasked
  exact hasked rfl

/-- A first deposit of a token is credited as it is. -/
theorem Valid.performed_deposit {s : RollupState} (h : s.Valid) {d : AccountRecord} {index : Nat}
    (hindex : (s.balances.index d.key).1 = .ok index)
    (hcredit : credit (s.balance d.account d.token) d.amount = .ok d.amount) :
    s.performed ⟨.trusting, some (.start s.roots), .deposit d⟩ = s.deposited index d := by
  have hpair : s.balances.index d.key = (.ok index, (s.balances.index d.key).2) :=
    Prod.ext hindex rfl
  obtain ⟨t, o, hbuild, hrun⟩ := h.run_deposit hpair hcredit (checkEarlier_start s.roots)
  rw [performed, perform, run_bind, hbuild]
  exact congrArg Prod.snd hrun

/-- The first deposit leaves one balance. -/
theorem performed_first :
    initial.performed ⟨.trusting, some (.start initial.roots), .deposit firstRecord⟩ =
      initial.deposited 0 firstRecord :=
  valid_initial.performed_deposit rfl rfl

/-- The second deposit leaves the funded state. -/
theorem performed_second : (initial.deposited 0 firstRecord).performed
    ⟨.trusting, some (.start (initial.deposited 0 firstRecord).roots), .deposit secondRecord⟩ =
      funded :=
  deposited_reachable.valid.performed_deposit rfl rfl

/-- The ledger opens the pool with two and three of what the account has. -/
theorem apply_opening : prepared.ledger.apply openingIntent = .ok (prepared.ledger.shared
    firstRecord.account firstRecord.token secondRecord.token ⟨openedPool, 3, 4, 6⟩) := rfl

/-- The step is accepted, and does what the ledger does. -/
theorem ledger_opening :
    (funded.performed ⟨.trusting, some (.start funded.roots), openingIntent⟩).ledger =
      prepared.ledger.shared firstRecord.account firstRecord.token secondRecord.token
        ⟨openedPool, 3, 4, 6⟩ := by
  have hsigned : openingIntent.SignedUnder .trusting := fun _ _ => rfl
  have hearlier : checkEarlier .trusting prepared.roots (some (.start funded.roots)) = .ok () :=
    checkEarlier_start prepared.roots
  rcases asked_opening.run_apply_of_vacant prepared_reachable.valid hearlier hsigned
      ⟨rfl, rfl⟩ with ⟨e, herror, -⟩ | ⟨o, written, happly, -, hrun⟩
  · exact nomatch apply_opening.symm.trans herror
  · rw [performed, perform, run_bind, build_opening]
    simp only [hrun, ledger_counted]
    exact Except.ok.inj (happly.symm.trans apply_opening)

/-- The pool is there in the end. -/
theorem pool_opening : (initial.performEach openingRequests).pool firstRecord.token
    secondRecord.token = some openedPool := by
  have hfinal : initial.performEach openingRequests =
      funded.performed ⟨.trusting, some (.start funded.roots), openingIntent⟩ := by
    rw [performEach, openingRequests, List.foldl_cons, performed_first, List.foldl_cons,
      performed_second, List.foldl_cons, List.foldl_nil]
  have hpool (s : RollupState) : s.pool firstRecord.token secondRecord.token =
      s.ledger.pool (firstRecord.token, secondRecord.token) := rfl
  rw [hfinal, hpool, ledger_opening, Ledger.pool_shared]

/-- The claims of the step are true, so it hashes what the trees do. -/
theorem preimages_opening :
    (Transition.createPool openingArgs).preimages ⊆ prepared.records.preimages := by
  have hfits := asked_opening.fits
  have hopens := asked_opening.opens
  have hholds := asked_opening.holds prepared_reachable.valid ⟨rfl, rfl⟩
  rintro bytes (((h | h) | h) | h)
  · exact View.balances.preimages_subset _ (Opening.preimages_double_subset View.balances.depth_le
      hfits.balances hholds.balances hopens.balances forgedArgs_forged.second_at.opens h)
  · exact View.liquidities.preimages_subset _ (Opening.preimages_single_subset
      View.liquidities.depth_le hfits.liquidities hholds.liquidities hopens.liquidities h)
  · exact View.pools.preimages_subset _ (Opening.preimages_single_subset View.pools.depth_le
      hfits.pools hholds.pools hopens.pools h)
  · contradiction

/-- The run hashes what the forged one does until then, and no more. -/
theorem collisionFree_opening : CollisionFree (initial.performPreimages openingRequests) := by
  refine .of_nodup ?_ nodup_history
  rw [openingRequests, performPreimages, performed_first, performPreimages, performed_second,
    performPreimages]
  rintro bytes (h | h | h | h)
  · have hempty := Records.preimages_empty (valid_initial.buildPreimages_deposit firstRecord h)
    simp [historyStrings, forgedStrings, hempty]
  · exact preimages_deposited (deposited_reachable.valid.buildPreimages_deposit secondRecord h)
  · rw [buildPreimages, build_opening] at h
    exact List.mem_append_left _ (preimages_prepared (h.elim id fun h => preimages_opening h))
  · contradiction

/-- The account that has opened the pool has all of its points. -/
theorem performEach_pooled_opened :
    CollisionFree (initial.performPreimages openingRequests) ∧
      (initial.performEach openingRequests).pool firstRecord.token secondRecord.token =
        some openedPool ∧
      total BitVec.toNat (fun provider => (initial.performEach openingRequests).liquidity provider
        firstRecord.token secondRecord.token) = 6 :=
  ⟨collisionFree_opening, pool_opening,
    ((performEach_pooled openingRequests collisionFree_opening).1.points _ _ _ pool_opening).2⟩

end RollupState

end AmmRollup
