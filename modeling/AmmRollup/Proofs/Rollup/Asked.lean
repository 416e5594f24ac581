import AmmRollup.Proofs.Rollup.Build
import AmmRollup.Proofs.Transition.Outcome

/-!
# AmmRollup.Proofs.Rollup.Asked

The steps that the state builds, against the core and against the ledger.  Their
witnesses fit and open the trees, and what they claim is so (`Asked.fits`, `Asked.opens`,
`Asked.holds`); so they pass every check but that of the signature.  One exception is
deliberate: a step that opens a pool claims that its leaves are unwritten whether they
are or not.

The amounts that the core then computes are those of the ledger, and the leaves that it
writes are bound to the keys that the ledger changes (`Asked.outcome_agrees`).
-/

namespace AmmRollup

namespace RollupState

variable {s : RollupState} {i : Intent} {t : Transition} {account : Address}
  {base quote token : Token} {c : PoolClaim} {p : PointsClaim}

/-! ## Claimed records

The lookups that a step is built from show what stands at the leaves of its keys.  So each claim
of the step is a record of the trees.
-/

/-- The record of an amount that a table of accounts shows is the one at its leaf. -/
theorem accountRecord?_eq {depth : Nat} {table : Table depth (Address × Token) AccountRecord}
    (h : table.Valid AccountRecord.key) {index : Nat}
    (hfind : table.find? (account, token) = some index) :
    accountRecord? account token ((table.get? (account, token)).map AccountRecord.amount) =
      table.records.get? index := by
  rw [← Table.get?_eq hfind]
  cases hget : table.get? (account, token) with
  | none => rfl
  | some r =>
      obtain ⟨rfl, rfl⟩ := Prod.mk.inj (h.keyOf_eq hget)
      rfl

/-- The record of the points that the state shows is the one at their leaf. -/
theorem pointsRecord?_eq (h : s.Valid) {pool : Pool} {index : Nat}
    (hfind : s.liquidities.find? (account, pool.base, pool.quote) = some index) :
    pointsRecord? account pool (s.liquidity account pool.base pool.quote) =
      s.records.liquidities index := by
  change pointsRecord? account pool (Option.map _ _) = s.liquidities.records.get? index
  rw [← Table.get?_eq hfind]
  cases hget : s.liquidities.get? (account, pool.base, pool.quote) with
  | none => rfl
  | some l =>
      obtain ⟨provider, base, quote, points⟩ := l
      have := h.liquidities.keyOf_eq hget
      simp only [Liquidity.key, Prod.mk.injEq] at this
      obtain ⟨rfl, rfl, rfl⟩ := this
      rfl

/-- The pool of a claim is that of its pair. -/
theorem Claims.pair (h : s.Valid) (hc : s.Claims account base quote c) :
    c.pool.base = base ∧ c.pool.quote = quote := by
  simpa [Pool.key] using h.pools.keyOf_eq hc.pool_eq

/-- The balances that the state shows for a pair are the records at the two leaves. -/
theorem pairOpening_holds (h : s.Valid) {w : DoubleWitness}
    (hw : s.balances.OpenedAtBoth (account, base) (account, quote) w) :
    (pairOpening w account base quote (s.pairBalances account base quote)).Holds
      s.records.balances :=
  ⟨accountRecord?_eq h.balances hw.first, accountRecord?_eq h.balances hw.second⟩

/-- What a step claims of a pool and its account's balances is so. -/
theorem Claims.holds (h : s.Valid) (hc : s.Claims account base quote c) :
    (pairOpening c.balanceWitness c.account c.pool.base c.pool.quote c.balances).Holds
        s.records.balances ∧
      some c.pool = s.records.pools c.poolWitness.index.toNat := by
  obtain ⟨rfl, rfl⟩ := hc.pair h
  obtain rfl := hc.account_eq
  rw [hc.balances_eq]
  exact ⟨pairOpening_holds h hc.balances_at,
    hc.pool_eq.symm.trans (Table.get?_eq hc.pool_at.find)⟩

/-- What a step claims of points is so. -/
theorem ClaimsPoints.holds (h : s.Valid) (hc : s.Claims account base quote c)
    (hp : s.ClaimsPoints account base quote p) :
    pointsRecord? c.account c.pool p.prior =
      s.records.liquidities p.witness.index.toNat := by
  obtain ⟨rfl, rfl⟩ := hc.pair h
  obtain rfl := hc.account_eq
  rw [hp.prior_eq]
  exact pointsRecord?_eq h hp.points_at.find

namespace Asked

/-! ## Checks

A built step passes the checks of the core by how it was built: the paths have the length of
their trees, they are the trees' own, the flags are those that they call for, and the claims are
true.  Only a step that opens a pool claims what may not be so, that there is nothing yet.
-/

/-- A step that opens a pool finds its leaves unwritten. -/
def Vacant (s : RollupState) : Intent → Prop
  | .createPool provider base quote _ _ _ =>
      s.pool base quote = none ∧ s.liquidity provider base quote = none
  | _ => True

/-- The signature that a step needs is the one that was asked for. -/
theorem signed?_eq (h : s.Valid) (ha : s.Asked i t) : t.signed? = i.signed? := by
  cases ha with
  | deposit | burn | createPool => rfl
  | provideLiquidity hc _ | removeLiquidity hc _ | buy hc | sell hc =>
      obtain ⟨hb, hq⟩ := hc.pair h
      simp only [Transition.signed?, Intent.signed?, hc.account_eq, hb, hq]

/-- A deposit is the next link of the chain. -/
theorem linked (ha : s.Asked i t) : t.Linked := by
  cases ha <;> trivial

/-- The paths are as long as their trees are high, and two leaves are never one. -/
theorem fits (ha : s.Asked i t) : t.Fits := by
  cases ha with
  | deposit hw => exact ⟨hw.opens.length_eq, trivial, trivial, trivial⟩
  | burn hw hv => exact ⟨hw.opens.length_eq, trivial, trivial, hv.opens.length_eq⟩
  | createPool hw hv hu =>
      exact ⟨⟨hu.opens.fits, hu.ne⟩, hv.opens.length_eq, hw.opens.length_eq, trivial⟩
  | provideLiquidity hc hp | removeLiquidity hc hp =>
      exact ⟨⟨hc.balances_at.opens.fits, hc.balances_at.ne⟩, hp.points_at.opens.length_eq,
        hc.pool_at.opens.length_eq, trivial⟩
  | buy hc | sell hc =>
      exact ⟨⟨hc.balances_at.opens.fits, hc.balances_at.ne⟩, trivial,
        hc.pool_at.opens.length_eq, trivial⟩

/-- The witnesses of a step that was asked for are paths of the trees as they stand. -/
theorem opens (ha : s.Asked i t) : t.Opens s.records := by
  cases ha with
  | deposit hw => exact ⟨hw.opens, trivial, trivial, trivial⟩
  | burn hw hv => exact ⟨hw.opens, trivial, trivial, hv.opens⟩
  | createPool hw hv hu => exact ⟨hu.opens, hv.opens, hw.opens, trivial⟩
  | provideLiquidity hc hp | removeLiquidity hc hp =>
      exact ⟨hc.balances_at.opens, hp.points_at.opens, hc.pool_at.opens, trivial⟩
  | buy hc | sell hc => exact ⟨hc.balances_at.opens, trivial, hc.pool_at.opens, trivial⟩

/-- The flags of a built step are the ones that its paths call for. -/
theorem flagged (ha : s.Asked i t) : t.balanceOpening.Flagged := by
  cases ha with
  | deposit | burn => trivial
  | createPool _ _ hu => exact hu.flags
  | provideLiquidity hc _ | removeLiquidity hc _ | buy hc | sell hc => exact hc.balances_at.flags

/-- What a built step claims is so. -/
theorem holds (h : s.Valid) (ha : s.Asked i t) (hv : Vacant s i) : t.Holds s.records := by
  cases ha with
  | deposit hw => exact ⟨accountRecord?_eq h.balances hw.find, trivial, trivial, trivial⟩
  | burn hw hu =>
      exact ⟨accountRecord?_eq h.balances hw.find, trivial, trivial,
        accountRecord?_eq h.burns hu.find⟩
  | createPool hw hl hu =>
      refine ⟨pairOpening_holds h hu, ?_, ?_, trivial⟩
      · exact ((Table.get?_eq hl.find).symm.trans (Option.map_eq_none_iff.mp hv.2)).symm
      · exact ((Table.get?_eq hw.find).symm.trans hv.1).symm
  | provideLiquidity hc hp | removeLiquidity hc hp =>
      exact ⟨(hc.holds h).1, hp.holds h hc, (hc.holds h).2, trivial⟩
  | buy hc | sell hc => exact ⟨(hc.holds h).1, trivial, (hc.holds h).2, trivial⟩

end Asked

/-! ## Amounts

The core computes with what a step claims, the ledger with what its keys have.  As the claims are
true the two compute the same, and refuse for the same reason.
-/

/-- What the core computes for a step against what the ledger does: the leaves it writes
are those of the keys that change, or both refuse for the same reason. -/
inductive Agrees (s : RollupState) : Except LedgerError Ledger → Except AmountError Outcome → Prop
  | ok {l : Ledger} {o : Outcome} (ledger : o.writes.foldl (fun l w => l.write w.leaf) s.ledger = l)
      (bound : ∀ w ∈ o.writes, s.Bound w) : Agrees s (.ok l) (.ok o)
  | error {e : AmountError} : Agrees s (.error (.amount e)) (.error e)

/-- Two computations from one result of amounts agree when they do after every success. -/
theorem Agrees.of_amount {α : Type} {x : Except AmountError α} {f : α → Except LedgerError Ledger}
    {g : α → Except AmountError Outcome} (h : ∀ a, x = .ok a → Agrees s (f a) (g a)) :
    Agrees s (x.mapError .amount >>= f) (x >>= g) := by
  cases x with
  | error e => exact .error
  | ok a => exact h a rfl

/-- Keys at distinct leaves are of distinct tokens. -/
theorem ledger_pair {w : DoubleWitness}
    (hw : s.balances.OpenedAtBoth (account, base) (account, quote) w) :
    s.ledger.pair account base quote = .ok (s.pairBalances account base quote) := by
  refine Ledger.pair_eq_ok_iff.mpr ⟨fun heq => hw.ne ?_, rfl⟩
  subst heq
  exact UInt64.toNat_inj.mp (Option.some.inj (hw.first.symm.trans hw.second))

/-- The ledger finds the pool and the balances that are claimed. -/
theorem Claims.ledger_eq (hc : s.Claims account base quote c) :
    s.ledger.existingPool base quote = .ok c.pool ∧
      s.ledger.pair account base quote = .ok c.balances :=
  ⟨Ledger.existingPool_eq_ok_iff.mpr hc.pool_eq, hc.balances_eq ▸ ledger_pair hc.balances_at⟩

/-- A trade writes what the ledger changes, at leaves bound to its keys. -/
theorem agrees_traded {roots : StateRoots} (h : s.Valid) (hc : s.Claims account base quote c)
    {after : Traded} (hbase : after.pool.base = c.pool.base)
    (hquote : after.pool.quote = c.pool.quote) :
    Agrees s (.ok (s.ledger.traded account base quote after))
      (.ok (Transition.tradedOutcome roots c after)) := by
  obtain ⟨rfl, rfl⟩ := hc.pair h
  obtain rfl := hc.account_eq
  refine .ok ?_ ?_
  · simp only [Transition.tradedOutcome, List.foldl_cons, List.foldl_nil, Ledger.write, hbase,
      hquote]
    rfl
  · simpa [Transition.tradedOutcome, Bound, AccountRecord.key, Pool.key, hbase, hquote] using
      ⟨hc.pool_at.find, hc.balances_at.first, hc.balances_at.second⟩

/-- A change of liquidity writes what the ledger changes, at leaves bound to its keys. -/
theorem agrees_shared {roots : StateRoots} {w v : Witness} {u : DoubleWitness}
    (hw : s.pools.OpenedAt (base, quote) w) (hv : s.liquidities.OpenedAt (account, base, quote) v)
    (hu : s.balances.OpenedAtBoth (account, base) (account, quote) u) {after : Shared}
    (hbase : after.pool.base = base) (hquote : after.pool.quote = quote) :
    Agrees s (.ok (s.ledger.shared account base quote after))
      (.ok (Transition.sharedOutcome roots account w v u after)) := by
  refine .ok ?_ ?_
  · simp only [Transition.sharedOutcome, List.foldl_cons, List.foldl_nil, Ledger.write, hbase,
      hquote]
    rfl
  · simpa [Transition.sharedOutcome, Bound, AccountRecord.key, Pool.key, Liquidity.key, hbase,
      hquote] using ⟨hw.find, hv.find, hu.first, hu.second⟩

namespace Asked

/-- The amounts of a built step are those of the ledger. -/
theorem outcome_agrees (h : s.Valid) (ha : s.Asked i t) (hv : Vacant s i) (roots : StateRoots) :
    Agrees s (s.ledger.apply i) (t.outcome roots) := by
  cases ha with
  | deposit hw =>
      refine .of_amount fun after _ => .ok rfl ?_
      simpa [Bound, AccountRecord.key] using hw.find
  | burn hw hu =>
      refine .of_amount fun balance _ => .of_amount fun burned _ => .ok rfl ?_
      simpa [Bound, AccountRecord.key] using ⟨hw.find, hu.find⟩
  | @createPool provider base quote baseAmount quoteAmount signature w v u hw hl hu =>
      -- the one method that looks for something absent
      have hvacant : s.ledger.vacant provider base quote = .ok () := by
        refine Ledger.vacant_eq_ok_iff.mpr ⟨hv.1, hv.2⟩
      simp only [Ledger.apply, ledger_pair hu, hvacant]
      refine .of_amount fun after hafter => ?_
      obtain ⟨-, hbase, hquote⟩ := Pool.opened_conserves hafter
      exact agrees_shared hw hl hu hbase hquote
  | provideLiquidity hc hp =>
      obtain ⟨hpool, hpair⟩ := hc.ledger_eq
      obtain ⟨rfl, rfl⟩ := hc.pair h
      obtain rfl := hc.account_eq
      simp only [Ledger.apply, hpool, hpair, Transition.outcome, hp.prior_eq]
      refine .of_amount fun after hafter => ?_
      obtain ⟨-, hbase, hquote⟩ := Pool.provide_conserves hafter
      exact agrees_shared hc.pool_at hp.points_at hc.balances_at hbase hquote
  | removeLiquidity hc hp =>
      obtain ⟨hpool, hpair⟩ := hc.ledger_eq
      obtain ⟨rfl, rfl⟩ := hc.pair h
      obtain rfl := hc.account_eq
      simp only [Ledger.apply, hpool, hpair, Transition.outcome, hp.prior_eq]
      refine .of_amount fun after hafter => ?_
      obtain ⟨-, hbase, hquote⟩ := Pool.remove_conserves hafter
      exact agrees_shared hc.pool_at hp.points_at hc.balances_at hbase hquote
  | buy hc =>
      obtain ⟨hpool, hpair⟩ := hc.ledger_eq
      simp only [Ledger.apply, hpool, hpair]
      refine .of_amount fun after hafter => ?_
      obtain ⟨-, hbase, hquote⟩ := Pool.buy_conserves hafter
      exact agrees_traded h hc hbase hquote
  | sell hc =>
      obtain ⟨hpool, hpair⟩ := hc.ledger_eq
      simp only [Ledger.apply, hpool, hpair]
      refine .of_amount fun after hafter => ?_
      obtain ⟨-, hbase, hquote⟩ := Pool.sell_conserves hafter
      exact agrees_traded h hc hbase hquote

end Asked

/-- An outcome that agrees with the ledger writes at the leaves of its keys. -/
theorem Agrees.bound {r : Except LedgerError Ledger} {o : Outcome} (h : s.Agrees r (.ok o)) :
    ∀ w ∈ o.writes, s.Bound w := by
  cases h with
  | ok _ hbound => exact hbound

/-- A built step writes at leaves that its keys have, and so does one that opens a pool again. -/
theorem Asked.bound_of_outcome (h : s.Valid) (ha : s.Asked i t) {roots : StateRoots} {o : Outcome}
    (houtcome : t.outcome roots = .ok o) : ∀ w ∈ o.writes, s.Bound w := by
  have hagrees (hv : Asked.Vacant s i) := (ha.outcome_agrees h hv roots)
  rw [houtcome] at hagrees
  cases ha with
  | createPool hw hl hu =>
      -- whether its leaves are unwritten does not matter for where it writes
      obtain ⟨after, hafter, hout⟩ := bind_eq_ok_iff.mp houtcome
      obtain ⟨-, hbase, hquote⟩ := Pool.opened_conserves hafter
      obtain rfl := Except.ok.inj hout
      exact (agrees_shared hw hl hu hbase hquote).bound
  | _ => exact (hagrees trivial).bound

end RollupState

end AmmRollup
