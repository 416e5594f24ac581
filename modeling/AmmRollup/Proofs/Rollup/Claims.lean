import AmmRollup.Proofs.Rollup.Forged

/-!
# AmmRollup.Proofs.Rollup.Claims

What a step must have claimed to be applied, whoever made it.  If digests do not collide,
the claims that the core has checked are those of the leaves at the indexes of the
witnesses, and the commit has checked that these leaves belong to the keys of the step.
So the step claims what the state stores (`RollupState.apply_claims_stored`).

There is one exception.  The merge flags of a double witness are taken as they are, and
where none is set the second leaf of the pair is not looked at.  Such a step may claim any
balance in the quote token; what the commit makes sure of is that it writes the balance
that is stored there already.
-/

namespace AmmRollup

/-- What a step claims of an account's balances in a pair. -/
structure PairClaim where
  witness : DoubleWitness
  account : Address
  base : Token
  quote : Token
  balances : PairBalances

namespace Transition

/-- The claim of a step about a pair of balances, if it makes one. -/
def pair? : Transition → Option PairClaim
  | .createPool a => some ⟨a.balanceWitness, a.provider, a.base, a.quote, a.balances⟩
  | .provideLiquidity ⟨c, _, _, _, _⟩ | .removeLiquidity ⟨c, _, _, _, _, _⟩ | .buy ⟨c, _, _, _⟩
  | .sell ⟨c, _, _, _⟩ =>
      some ⟨c.balanceWitness, c.account, c.pool.base, c.pool.quote, c.balances⟩
  | .genesis | .deposit _ | .burn _ => none

/-- The methods that open two balances open those of the claimed pair. -/
theorem balanceOpening_of_pair {t : Transition} {p : PairClaim} (h : t.pair? = some p) :
    t.balanceOpening = pairOpening p.witness p.account p.base p.quote p.balances := by
  cases t <;> simp only [pair?, Option.some.injEq, reduceCtorEq] at h <;> subst h <;> rfl

/-- The leaves of a pair that fits are distinct. -/
theorem Fits.pair_distinct {t : Transition} {p : PairClaim} (h : t.Fits)
    (hp : t.pair? = some p) : p.witness.indexes.1 ≠ p.witness.indexes.2 := by
  have hfits := h.balances
  rw [balanceOpening_of_pair hp] at hfits
  exact hfits.2

/-- Everything that a step claims, but the balance in the quote token of a pair, is what
the state stores for its key. -/
def Stored (s : RollupState) : Transition → Prop
  | .genesis => True
  | .deposit a => a.priorBalance = s.balance a.deposit.account a.deposit.token
  | .burn a =>
      a.priorBalance = s.balance a.owner a.token ∧ a.priorBurned = s.burned a.owner a.token
  | .createPool a =>
      s.pool a.base a.quote = none ∧ s.liquidity a.provider a.base a.quote = none ∧
        a.balances.base = s.balance a.provider a.base
  | .provideLiquidity ⟨c, p, _, _, _⟩ | .removeLiquidity ⟨c, p, _, _, _, _⟩ =>
      s.pool c.pool.base c.pool.quote = some c.pool ∧
        p.prior = s.liquidity c.account c.pool.base c.pool.quote ∧
        c.balances.base = s.balance c.account c.pool.base
  | .buy ⟨c, _, _, _⟩ | .sell ⟨c, _, _, _⟩ =>
      s.pool c.pool.base c.pool.quote = some c.pool ∧
        c.balances.base = s.balance c.account c.pool.base

end Transition

namespace RollupState

variable {s s' : RollupState} {t : Transition} {o : Outcome} {hashed : Set Bytes}

/-! ## Balances of a pair

The two balances of a pair are written at two leaves by one witness.  The claim of the first is
bound by the root whatever the flags are.  That of the second is bound if some flag is set; if
none is, the root after the writes is that of the first leaf rewritten, so the second balance
cannot have changed.
-/

/-- The amount of a claimed record is the claimed amount. -/
theorem map_amount_accountRecord? (account : Address) (token : Token) (amount : Option Amount) :
    (accountRecord? account token amount).map AccountRecord.amount = amount := by
  cases amount <;> rfl

/-- The points of a claimed record are the claimed points. -/
theorem map_points_pointsRecord? (account : Address) (pool : Pool) (points : Option Points) :
    (pointsRecord? account pool points).map Liquidity.points = points := by
  cases points <;> rfl

/-- The balances of a pair, after both were written at the leaves of a double witness: each
was found at its leaf, and the keys are distinct. -/
structure PairWritten (s : RollupState) (w : DoubleWitness) (account : Address)
    (base quote : Token) (s' : RollupState) : Prop where
  first : s.balance account base =
    (s.records.balances w.indexes.1.toNat).map AccountRecord.amount
  second : s.balance account quote =
    (s.records.balances w.indexes.2.toNat).map AccountRecord.amount
  bound : s'.balances.find? (account, quote) = some w.indexes.2.toNat

/-- Two writes at distinct leaves are of two keys. -/
theorem pairWritten_of_writes {mid next : RollupState} {u v : Undo} {w : DoubleWitness}
    {account : Address} {base quote : Token} {x y : Amount} (hne : w.indexes.1 ≠ w.indexes.2)
    (h₁ : s.Writes ⟨w.indexes.1, .balance ⟨account, base, x⟩⟩ mid u)
    (h₂ : mid.Writes ⟨w.indexes.2, .balance ⟨account, quote, y⟩⟩ next v) :
    s.PairWritten w account base quote next := by
  have hbase : next.balances.find? (account, base) = some w.indexes.1.toNat := h₂.bound _ h₁.now
  have hquote : next.balances.find? (account, quote) = some w.indexes.2.toNat := h₂.now
  have hindex : w.indexes.2.toNat ≠ w.indexes.1.toNat := fun he =>
    hne (UInt64.toNat_inj.mp he.symm)
  -- distinct leaves have distinct keys, so the first write is not seen at the second
  have htoken : (account, quote) ≠ (account, base) := fun he => by
    rw [he, hbase] at hquote
    exact hindex (Option.some.inj hquote).symm
  refine ⟨h₁.grounded, ?_, hquote⟩
  have hgrounded : mid.ledger.balance (account, quote) =
      (mid.records.balances w.indexes.2.toNat).map AccountRecord.amount := h₂.grounded
  rw [h₁.ledger, h₁.records] at hgrounded
  simp only [Ledger.write, Ledger.setBalance, Function.update_of_ne htoken] at hgrounded
  rw [show (s.records.writeAll [_]).balances = Function.update _ _ _ from rfl,
    Function.update_of_ne hindex] at hgrounded
  exact hgrounded

/-- Where a pair of claims folds to the root before the writes, and the writes to the root
after them, the claims are stored; that of the second leaf if a flag is set, and if none
is, its balance does not change. -/
theorem PairWritten.claims {w : DoubleWitness} {account : Address} {base quote : Token}
    {balances : PairBalances} {x y : Amount} (h : s.PairWritten w account base quote s')
    (hvalid : s'.Valid) (hc : CollisionFree hashed) (hbefore : s.records.preimages ⊆ hashed)
    (hafter : s'.records.preimages ⊆ hashed)
    (hfits : w.Fits (balancesHeight - 1)) (hne : w.indexes.1 ≠ w.indexes.2)
    (hclaimed : (pairOpening w account base quote balances).preimages ⊆ hashed)
    (hwritten : (Opening.double w (some (⟨account, base, x⟩ : AccountRecord))
      (some ⟨account, quote, y⟩)).preimages ⊆ hashed)
    (hfold : (pairOpening w account base quote balances).FoldsTo s.records.roots.balances)
    (hfold' : (Opening.double w (some (⟨account, base, x⟩ : AccountRecord))
      (some ⟨account, quote, y⟩)).FoldsTo s'.records.roots.balances) :
    balances.base = s.balance account base ∧
      (true ∈ w.meets → balances.quote = s.balance account quote) ∧
      (true ∉ w.meets → s'.balance account quote = s.balance account quote) := by
  rw [show s.records.roots.balances = _ from View.balances.root_roots s.records] at hfold
  rw [show s'.records.roots.balances = _ from View.balances.root_roots s'.records] at hfold'
  simp only [Opening.FoldsTo, pairOpening] at hfold hfold'
  have hfirst := hfits.toNat_indexes_fst (by decide)
  have hsecond := hfits.toNat_indexes_snd (by decide)
  have hnodes := Set.subset_union_left.trans
    ((View.balances.preimages_subset s.records).trans hbefore)
  have hnodes' := Set.subset_union_left.trans
    ((View.balances.preimages_subset s'.records).trans hafter)
  have hrecord (i : Nat) : leafPreimages (s.records.balances i) ⊆ hashed := fun _ hb =>
    hbefore (View.balances.preimages_subset _ (.inr ⟨i, hb⟩))
  have hrecord' (i : Nat) : leafPreimages (s'.records.balances i) ⊆ hashed := fun _ hb =>
    hafter (View.balances.preimages_subset _ (.inr ⟨i, hb⟩))
  have hfolds := Set.subset_union_left.trans hclaimed
  have hfolds' := Set.subset_union_left.trans hwritten
  have hclaims := Set.subset_union_right.trans hclaimed
  have hwrites := Set.subset_union_right.trans hwritten
  refine ⟨?_, fun hflag => ?_, fun hflags => ?_⟩
  · have hleaf := (DoubleWitness.joined_of_root hc hnodes hfits hfolds hfold).1
    rw [← hfirst] at hleaf
    have hfound := hc.leafOrEmpty_inj (Set.subset_union_left.trans hclaims) (hrecord _) hleaf
    rw [h.first, ← hfound, map_amount_accountRecord?]
  · obtain ⟨k, hk⟩ := List.mem_iff_getElem?.mp hflag
    have hleaf := (DoubleWitness.second_of_root hc hnodes hfits hfolds hfold hk).1
    have hleaf' := (DoubleWitness.second_of_root hc hnodes' hfits hfolds' hfold' hk).1
    have hfound := hc.leafOrEmpty_inj (Set.subset_union_right.trans hclaims) (hrecord _) hleaf
    have hfound' := hc.leafOrEmpty_inj (Set.subset_union_right.trans hwrites) (hrecord' _) hleaf'
    -- the flagged level decides where the second leaf stands, and the commit that it is there
    have hindex := (hvalid.balances.keyed _ _ hfound'.symm).symm.trans h.bound
    rw [h.second, ← Option.some.inj hindex, ← hfound, map_amount_accountRecord?]
  · have hagree := DoubleWitness.agree_of_unflagged hc hnodes hnodes' hfits (by decide) hflags hne
      hfolds hfolds' hfold hfold'
    rw [← hsecond] at hagree
    have hsame := hc.leafOrEmpty_inj (hrecord _) (hrecord' _) hagree
    have hget := Table.get?_eq h.bound
    rw [h.second, hsame, balance, hget]
    rfl

/-- Writes beside the balances do not matter to a pair. -/
theorem PairWritten.congr {mid : RollupState} {w : DoubleWitness} {account : Address}
    {base quote : Token} (h : mid.PairWritten w account base quote s')
    (hledger : mid.ledger.balance = s.ledger.balance)
    (hrecords : mid.records.balances = s.records.balances) :
    s.PairWritten w account base quote s' := by
  refine ⟨?_, ?_, h.bound⟩
  · rw [← hrecords, ← h.first]
    exact (congrFun hledger (account, base)).symm
  · rw [← hrecords, ← h.second]
    exact (congrFun hledger (account, quote)).symm

/-! ## Written outcomes

That an outcome was committed means that every leaf was written where its key is bound.  From
this it is known which key each claim is about.
-/

variable {roots : StateRoots} {base quote : Token}

/-- What is known of the leaves of a trade once they were written. -/
theorem WritesAll.traded {c : PoolClaim} {after : Traded}
    (h : WritesAll s (Transition.tradedOutcome roots c after).writes s')
    (hne : c.balanceWitness.indexes.1 ≠ c.balanceWitness.indexes.2)
    (hbase : after.pool.base = base) (hquote : after.pool.quote = quote) :
    s.pool base quote = s.records.pools c.poolWitness.index.toNat ∧
      s.PairWritten c.balanceWitness c.account base quote s' := by
  subst hbase hquote
  obtain _ | ⟨hpool, hrest⟩ := h
  obtain _ | ⟨hfirst, hrest⟩ := hrest
  obtain _ | ⟨hsecond, hrest⟩ := hrest
  obtain _ | _ := hrest
  refine ⟨hpool.grounded, (pairWritten_of_writes hne hfirst hsecond).congr ?_ ?_⟩
  · rw [hpool.ledger]
    rfl
  · rw [hpool.records]
    rfl

/-- What is known of the leaves of a change of liquidity once they were written. -/
theorem WritesAll.shared {account : Address} {w v : Witness} {u : DoubleWitness} {after : Shared}
    (h : WritesAll s (Transition.sharedOutcome roots account w v u after).writes s')
    (hne : u.indexes.1 ≠ u.indexes.2) (hbase : after.pool.base = base)
    (hquote : after.pool.quote = quote) :
    s.pool base quote = s.records.pools w.index.toNat ∧
      s.liquidity account base quote =
        (s.records.liquidities v.index.toNat).map Liquidity.points ∧
      s.PairWritten u account base quote s' := by
  subst hbase hquote
  obtain _ | ⟨hpool, hrest⟩ := h
  obtain _ | ⟨hpoints, hrest⟩ := hrest
  obtain _ | ⟨hfirst, hrest⟩ := hrest
  obtain _ | ⟨hsecond, hrest⟩ := hrest
  obtain _ | _ := hrest
  have hgrounded := hpoints.grounded
  simp only [Grounded, hpool.ledger, hpool.records] at hgrounded
  refine ⟨hpool.grounded, hgrounded, (pairWritten_of_writes hne hfirst hsecond).congr ?_ ?_⟩
  · rw [hpoints.ledger, hpool.ledger]
    rfl
  · rw [hpoints.records, hpool.records]
    rfl

/-! ## Applied steps

A step of whatever origin: nothing is assumed about how it was built.  What it claims is bound by
the roots that it was executed on, and its keys by the commit.
-/

/-- A step passed the checks of the core, and its outcome was written. -/
structure Applied (s : RollupState) (t : Transition) (o : Outcome) (written : RollupState) :
    Prop where
  fits : t.Fits
  folds : t.FoldsTo s.records.roots
  outcome : t.outcome s.records.roots = .ok o
  writes : WritesAll s o.writes written
  valid : written.Valid
  roots_eq : written.records.roots = o.roots

/-- Applying a step is executing it and committing what comes of it. -/
theorem Valid.applied_of_run (h : s.Valid) {v : Verifiers} {earlier : Option Proof}
    (hrun : (apply v earlier t).run.run s = (.ok o, s')) :
    ∃ written, s.Applied t o written ∧ s' = written.counted t := by
  obtain ⟨hexecute, written, hcommit, rfl⟩ := run_apply_eq_ok hrun
  rw [h.roots_eq, Transition.execute_eq_ok_iff] at hexecute
  obtain ⟨-, hfits, -, ⟨hfolds, -⟩, houtcome⟩ := hexecute
  obtain ⟨hwrites, hroots⟩ := h.commit_ok hcommit
  have hvalid := hwrites.valid h
  rw [hvalid.roots_eq] at hroots
  exact ⟨written, ⟨hfits, hfolds, houtcome, hwrites, hvalid, hroots⟩, rfl⟩

namespace Applied

variable {written : RollupState} {p : PairClaim}

/-- The claims of a step that has no pair are those of the leaves at the indexes of its
witnesses. -/
theorem holds (h : s.Applied t o written) (hc : CollisionFree (applyPreimages s t o written))
    (hflags : t.balanceOpening.Flagged) : t.Holds s.records :=
  (Transition.holds_of_foldsTo hc (fun _ hb => .inl (.inl (.inl hb)))
    (fun _ hb => .inl (.inl (.inr hb))) h.fits hflags h.folds).1

/-- The claims of every step about points, pools and burns are those of the leaves at the indexes of
its witnesses. -/
theorem holds_beside (h : s.Applied t o written)
    (hc : CollisionFree (applyPreimages s t o written)) :
    t.liquidityOpening.Holds s.records.liquidities ∧ t.poolOpening.Holds s.records.pools ∧
      t.burnOpening.Holds s.records.burns :=
  Transition.holds_beside hc (fun _ hb => .inl (.inl (.inl hb)))
    (fun _ hb => .inl (.inl (.inr hb))) h.fits h.folds

/-- One leaf of balances: the claim is the record, and the record is what the state shows. -/
theorem deposit_stored {a : DepositArgs} (h : s.Applied (.deposit a) o written)
    (hc : CollisionFree (applyPreimages s (.deposit a) o written)) :
    (Transition.deposit a).Stored s := by
  have hclaim : accountRecord? _ _ a.priorBalance = s.records.balances a.witness.index.toNat :=
    (h.holds hc trivial).balances
  have houtcome := h.outcome
  simp only [Transition.outcome, bind_eq_ok_iff, pure_eq_ok_iff] at houtcome
  obtain ⟨amount, -, rfl⟩ := houtcome
  obtain _ | ⟨hwrite, -⟩ := h.writes
  have hgrounded : s.balance a.deposit.account a.deposit.token =
    (s.records.balances a.witness.index.toNat).map AccountRecord.amount := hwrite.grounded
  rw [Transition.Stored, hgrounded, ← hclaim, map_amount_accountRecord?]

/-- A leaf of balances and one of burns: the claims are the records, and these are what the state
shows. -/
theorem burn_stored {a : BurnArgs} (h : s.Applied (.burn a) o written)
    (hc : CollisionFree (applyPreimages s (.burn a) o written)) :
    (Transition.burn a).Stored s := by
  have hheld := h.holds hc trivial
  have hclaim : accountRecord? _ _ a.priorBalance =
    s.records.balances a.balanceWitness.index.toNat := hheld.balances
  have hburnt : accountRecord? _ _ a.priorBurned =
    s.records.burns a.burnWitness.index.toNat := hheld.burns
  have houtcome := h.outcome
  simp only [Transition.outcome, bind_eq_ok_iff, pure_eq_ok_iff] at houtcome
  obtain ⟨balance, -, burned, -, rfl⟩ := houtcome
  obtain _ | ⟨hfirst, hrest⟩ := h.writes
  obtain _ | ⟨hsecond, -⟩ := hrest
  have hbalance : s.balance a.owner a.token =
    (s.records.balances a.balanceWitness.index.toNat).map AccountRecord.amount := hfirst.grounded
  -- the write of the balance is in another tree than the burn record
  have hgrounded := hsecond.grounded
  simp only [Grounded, hfirst.ledger, hfirst.records] at hgrounded
  have hburned : s.burned a.owner a.token =
    (s.records.burns a.burnWitness.index.toNat).map AccountRecord.amount := hgrounded
  rw [Transition.Stored, hbalance, hburned, ← hclaim, ← hburnt, map_amount_accountRecord?,
    map_amount_accountRecord?]
  exact ⟨rfl, rfl⟩

/-- The claims of a step about a pair, whose two balances it has written. -/
theorem pair_stored (h : s.Applied t o written)
    (hc : CollisionFree (applyPreimages s t o written)) (hp : t.pair? = some p)
    (hpair : s.PairWritten p.witness p.account p.base p.quote written) {x y : Amount}
    (hgives : (pairOpening p.witness p.account p.base p.quote p.balances).rewritten
        (writesOf LeafValue.balance? o.writes) =
      .double p.witness (some ⟨p.account, p.base, x⟩) (some ⟨p.account, p.quote, y⟩))
    (hroot : o.roots.balances = p.witness.root (Record.leaf (AccountRecord.mk p.account p.base x))
      (Record.leaf (AccountRecord.mk p.account p.quote y))) :
    p.balances.base = s.balance p.account p.base ∧
      (true ∈ p.witness.meets → p.balances.quote = s.balance p.account p.quote) ∧
      (true ∉ p.witness.meets →
        written.balance p.account p.quote = s.balance p.account p.quote) := by
  have hopening := Transition.balanceOpening_of_pair hp
  have hfit := h.fits.balances
  have hfold := h.folds.balances
  have hclaimed := t.each_preimages.balances
  rw [hopening] at hfit hfold hclaimed
  refine hpair.claims (x := x) (y := y) h.valid hc (fun _ hb => .inl (.inl (.inl hb)))
    (fun _ hb => .inr hb) hfit.1 hfit.2 (fun _ hb => .inl (.inl (.inr (hclaimed hb))))
    (fun _ hb => .inl (.inr ?_)) hfold ?_
  · rw [← hgives, ← hopening] at hb
    exact .inl (.inl (.inl hb))
  · rw [Opening.FoldsTo, h.roots_eq, hroot]
    rfl

/-- The claims of a change of liquidity about its pair, and where its other claims are to be
found. -/
theorem shared_stored (h : s.Applied t o written)
    (hc : CollisionFree (applyPreimages s t o written)) (hp : t.pair? = some p) {w v : Witness}
    {after : Shared} (ho : o = Transition.sharedOutcome roots p.account w v p.witness after)
    (hbase : after.pool.base = p.base) (hquote : after.pool.quote = p.quote) :
    s.pool p.base p.quote = s.records.pools w.index.toNat ∧
      s.liquidity p.account p.base p.quote =
        (s.records.liquidities v.index.toNat).map Liquidity.points ∧
      p.balances.base = s.balance p.account p.base ∧
      (true ∈ p.witness.meets → p.balances.quote = s.balance p.account p.quote) ∧
      (true ∉ p.witness.meets →
        written.balance p.account p.quote = s.balance p.account p.quote) := by
  subst ho
  obtain ⟨hpool, hpoints, hpair⟩ := h.writes.shared (h.fits.pair_distinct hp) hbase hquote
  refine ⟨hpool, hpoints, h.pair_stored hc hp hpair (x := after.base) (y := after.quote) ?_ ?_⟩
  · simp only [Transition.sharedOutcome, hbase, hquote]
    rfl
  · simp only [Transition.sharedOutcome, hbase, hquote]

/-- The claims of a trade about its pair, and where its pool is to be found. -/
theorem traded_stored {c : PoolClaim} (h : s.Applied t o written)
    (hc : CollisionFree (applyPreimages s t o written))
    (hp : t.pair? = some ⟨c.balanceWitness, c.account, c.pool.base, c.pool.quote, c.balances⟩)
    {after : Traded} (ho : o = Transition.tradedOutcome roots c after)
    (hbase : after.pool.base = c.pool.base) (hquote : after.pool.quote = c.pool.quote) :
    s.pool c.pool.base c.pool.quote = s.records.pools c.poolWitness.index.toNat ∧
      c.balances.base = s.balance c.account c.pool.base ∧
      (true ∈ c.balanceWitness.meets →
        c.balances.quote = s.balance c.account c.pool.quote) ∧
      (true ∉ c.balanceWitness.meets →
        written.balance c.account c.pool.quote = s.balance c.account c.pool.quote) := by
  subst ho
  obtain ⟨hpool, hpair⟩ := h.writes.traded (h.fits.pair_distinct hp) hbase hquote
  refine ⟨hpool, h.pair_stored hc hp hpair (x := after.base) (y := after.quote) ?_ ?_⟩
  · simp only [Transition.tradedOutcome, hbase, hquote]
    rfl
  · simp only [Transition.tradedOutcome, hbase, hquote]

end Applied

/-- **Claims are stored.**  A step of whatever origin that is applied to a state has claimed
what the state stores for its keys, and nothing where it stores nothing.  Of a pair this is
so for the balance in the quote token if any merge flag is set; if none is, that balance is
left as it is, whatever was claimed. -/
theorem apply_claims_stored {v : Verifiers} {earlier : Option Proof} (hs : s.Reachable)
    (hrun : (apply v earlier t).run.run s = (.ok o, s'))
    (hc : CollisionFree (applyPreimages s t o s')) :
    t.Stored s ∧ ∀ p ∈ t.pair?,
      (true ∈ p.witness.meets → p.balances.quote = s.balance p.account p.quote) ∧
      (true ∉ p.witness.meets → s'.balance p.account p.quote = s.balance p.account p.quote) := by
  obtain ⟨written, h, rfl⟩ := hs.valid.applied_of_run hrun
  have houtcome := h.outcome
  cases t with
  | genesis => exact ⟨trivial, fun p hp => absurd hp (Option.not_mem_none p)⟩
  | deposit a => exact ⟨h.deposit_stored hc, fun p hp => absurd hp (Option.not_mem_none p)⟩
  | burn a => exact ⟨h.burn_stored hc, fun p hp => absurd hp (Option.not_mem_none p)⟩
  | createPool a =>
      -- pool and points are opened by themselves, so their claims hold whatever the flags are
      obtain ⟨hpoints, hpool, -⟩ := h.holds_beside hc
      simp only [Transition.outcome, bind_eq_ok_iff, pure_eq_ok_iff] at houtcome
      obtain ⟨after, hamounts, ho⟩ := houtcome
      obtain ⟨-, hb, hq⟩ := Pool.opened_conserves hamounts
      obtain ⟨hpool', hpoints', hbase, hquote⟩ := h.shared_stored hc rfl ho.symm hb hq
      rw [← hpoints] at hpoints'
      exact ⟨⟨hpool'.trans hpool.symm, hpoints', hbase⟩,
        fun p hp => Option.some.inj hp ▸ hquote⟩
  | provideLiquidity a =>
      obtain ⟨c, p, baseIn, quoteLimit, signature⟩ := a
      obtain ⟨hpoints, hpool, -⟩ := h.holds_beside hc
      simp only [Transition.outcome, bind_eq_ok_iff, pure_eq_ok_iff] at houtcome
      obtain ⟨after, hamounts, ho⟩ := houtcome
      obtain ⟨-, hb, hq⟩ := Pool.provide_conserves hamounts
      obtain ⟨hpool', hpoints', hbase, hquote⟩ := h.shared_stored hc rfl ho.symm hb hq
      rw [← hpoints, map_points_pointsRecord?] at hpoints'
      exact ⟨⟨hpool'.trans hpool.symm, hpoints'.symm, hbase⟩,
        fun p hp => Option.some.inj hp ▸ hquote⟩
  | removeLiquidity a =>
      obtain ⟨c, p, redeemed, baseLimit, quoteLimit, signature⟩ := a
      obtain ⟨hpoints, hpool, -⟩ := h.holds_beside hc
      simp only [Transition.outcome, bind_eq_ok_iff, pure_eq_ok_iff] at houtcome
      obtain ⟨after, hamounts, ho⟩ := houtcome
      obtain ⟨-, hb, hq⟩ := Pool.remove_conserves hamounts
      obtain ⟨hpool', hpoints', hbase, hquote⟩ := h.shared_stored hc rfl ho.symm hb hq
      rw [← hpoints, map_points_pointsRecord?] at hpoints'
      exact ⟨⟨hpool'.trans hpool.symm, hpoints'.symm, hbase⟩,
        fun p hp => Option.some.inj hp ▸ hquote⟩
  | buy a =>
      obtain ⟨c, amount, limit, signature⟩ := a
      obtain ⟨-, hpool, -⟩ := h.holds_beside hc
      simp only [Transition.outcome, bind_eq_ok_iff, pure_eq_ok_iff] at houtcome
      obtain ⟨after, hamounts, ho⟩ := houtcome
      obtain ⟨-, hb, hq⟩ := Pool.buy_conserves hamounts
      obtain ⟨hpool', hbase, hquote⟩ := h.traded_stored hc rfl ho.symm hb hq
      exact ⟨⟨hpool'.trans hpool.symm, hbase⟩, fun p hp => Option.some.inj hp ▸ hquote⟩
  | sell a =>
      obtain ⟨c, amount, limit, signature⟩ := a
      obtain ⟨-, hpool, -⟩ := h.holds_beside hc
      simp only [Transition.outcome, bind_eq_ok_iff, pure_eq_ok_iff] at houtcome
      obtain ⟨after, hamounts, ho⟩ := houtcome
      obtain ⟨-, hb, hq⟩ := Pool.sell_conserves hamounts
      obtain ⟨hpool', hbase, hquote⟩ := h.traded_stored hc rfl ho.symm hb hq
      exact ⟨⟨hpool'.trans hpool.symm, hbase⟩, fun p hp => Option.some.inj hp ▸ hquote⟩

/-- The forged step is applied, all its other claims are stored, and what its account has in
the quote token stays. -/
theorem apply_claims_stored_forged :
    ∃ written, prepared.Reachable ∧
      (apply .trusting (some (.start prepared.roots)) (.createPool forgedArgs)).run.run prepared =
        (.ok forgedOutcome, written) ∧
      CollisionFree (applyPreimages prepared (.createPool forgedArgs) forgedOutcome written) ∧
      (Transition.createPool forgedArgs).Stored prepared ∧
      written.balance secondRecord.account secondRecord.token = some secondRecord.amount := by
  obtain ⟨written, hrun, hc⟩ := forged_applied
  obtain ⟨hstored, hquote⟩ := apply_claims_stored prepared_reachable hrun hc
  refine ⟨written, prepared_reachable, hrun, hc, hstored, ?_⟩
  exact (hquote _ rfl).2 forgedArgs_forged.unflagged

/-- The exception is real: the forged step claims a balance in the quote token that is not
the one stored. -/
theorem apply_quote_claim_not_stored :
    ¬ ∀ {s s' : RollupState} {t : Transition} {o : Outcome} {v : Verifiers}
      {earlier : Option Proof}, s.Reachable → (apply v earlier t).run.run s = (.ok o, s') →
      CollisionFree (applyPreimages s t o s') →
      t.Stored s ∧ ∀ p ∈ t.pair?, p.balances.quote = s.balance p.account p.quote := by
  intro hclaim
  obtain ⟨written, hrun, hc⟩ := forged_applied
  have hquote : some (10 : Amount) = some 7 := (hclaim prepared_reachable hrun hc).2 _ rfl
  exact absurd (Option.some.inj hquote) (by decide)

end RollupState

end AmmRollup
