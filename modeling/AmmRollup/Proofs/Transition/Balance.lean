import AmmRollup.Proofs.Pool.Exchange
import AmmRollup.Proofs.Transition.Outcome

/-!
# AmmRollup.Proofs.Transition.Balance

What an accepted step does to the sums over the records, if its claims hold.  Of every
token the balances and the reserves together grow by what is deposited and shrink by
what is burned, and the burn records grow by what is burned (`Transition.outcome_totals`).

Two facts give this.  Writing the leaves of an opening changes the sum over its tree by
what was claimed and what is written; and of every method, the claims and the writes
differ by the deposit or the burn alone.
-/

namespace AmmRollup

/-! ## Worth

A token is created by deposits and destroyed by burns, and by nothing else.  What a step deposits
or burns of a token is read off its method.
-/

/-- The sum of all balances and of all reserves in a token. -/
noncomputable def Records.circulating (r : Records) (token : Token) : Nat :=
  total (AccountRecord.amountOf token) r.balances + total (Pool.reserveOf token) r.pools

/-- The sum of all burn records in a token. -/
noncomputable def Records.burned (r : Records) (token : Token) : Nat :=
  total (AccountRecord.amountOf token) r.burns

/-- What a step deposits of a token. -/
def Transition.deposited (token : Token) : Transition → Nat
  | .deposit a => a.deposit.amountOf token
  | _ => 0

/-- What a step burns of a token. -/
def Transition.burned (token : Token) : Transition → Nat
  | .burn a => worth token a.token a.amount
  | _ => 0

/-! ## One tree

Writing an opened tree replaces the claimed records with the written ones, so a sum over the tree
changes by the difference.  With true claims nothing else of the sum needs to be known.
-/

namespace Opening

variable {ρ : Type} {value : ρ → Nat} {records : Nat → Option ρ} {depth : Nat} {o : Opening ρ}
  {writes : List (Nat × ρ)} {before after : Bytes32}

/-- What the claimed records are worth. -/
def claimed (value : ρ → Nat) : Opening ρ → Nat
  | untouched => 0
  | single _ prior => prior.elim 0 value
  | double _ first second => first.elim 0 value + second.elim 0 value

/-- What written records are worth. -/
def written (value : ρ → Nat) (writes : List (Nat × ρ)) : Nat :=
  (writes.map fun w => value w.2).sum

/-- Writing what was opened changes a sum by what was claimed and what is written. -/
theorem Gives.total_eq [Record ρ] (value : ρ → Nat) (h : o.Gives before writes after)
    (hf : FiniteMap records) (hfits : o.Fits depth) (hholds : o.Holds records) :
    total value (writeAt records writes) + o.claimed value =
      total value records + written value writes := by
  cases h with
  | untouched => simp [writeAt, claimed, written]
  | single w prior r =>
      have := total_update value hf w.index.toNat (some r)
      rw [← hholds] at this
      simpa [writeAt, claimed, written] using this
  -- the leaves differ, so what is written at the one leaves the claim about the other
  | double w first second r s =>
      have hne : w.indexes.2.toNat ≠ w.indexes.1.toNat := fun h =>
        hfits.2 (UInt64.toNat_inj.mp h.symm)
      have hfirst := total_update value hf w.indexes.1.toNat (some r)
      have hsecond := total_update value (hf.update w.indexes.1.toNat (some r))
        w.indexes.2.toNat (some s)
      rw [← hholds.1] at hfirst
      rw [Function.update_of_ne hne, ← hholds.2] at hsecond
      simp only [writeAt, claimed, written, List.foldl_cons, List.foldl_nil, List.map_cons,
        List.map_nil, List.sum_cons, List.sum_nil, Option.elim_some] at hfirst hsecond ⊢
      omega

end Opening

/-! ## One step

Each method moves amounts between the balances of a pair and the reserves of its pool.  That the
two sides are equal is `Pool.Conserved`, proved beside the operations of a pool; here it is
summed over the trees.
-/

theorem elim_accountRecord? (account : Address) (token of : Token) (amount : Option Amount) :
    (accountRecord? account of amount).elim 0 (AccountRecord.amountOf token) =
      worth token of (amount.getD 0) := by
  cases amount <;> simp [accountRecord?, AccountRecord.amountOf, worth]

namespace Transition

variable {roots : StateRoots} {t : Transition} {o : Outcome} {r : Records}

/-- What the writes of an outcome are worth, in balances and reserves. -/
def written (token : Token) (o : Outcome) : Nat :=
  Opening.written (AccountRecord.amountOf token) (writesOf LeafValue.balance? o.writes) +
    Opening.written (Pool.reserveOf token) (writesOf LeafValue.pool? o.writes)

theorem written_sharedOutcome (account : Address) (poolWitness pointsWitness : Witness)
    (balanceWitness : DoubleWitness) (after : Shared) (token : Token) :
    written token
        (sharedOutcome roots account poolWitness pointsWitness balanceWitness after) =
      AccountRecord.amountOf token ⟨account, after.pool.base, after.base⟩ +
        AccountRecord.amountOf token ⟨account, after.pool.quote, after.quote⟩ +
        after.pool.reserveOf token := by
  simp [written, sharedOutcome, writesOf, Opening.written, LeafValue.balance?, LeafValue.pool?]

theorem written_tradedOutcome (c : PoolClaim) (after : Traded) (token : Token) :
    written token (tradedOutcome roots c after) =
      AccountRecord.amountOf token ⟨c.account, after.pool.base, after.base⟩ +
        AccountRecord.amountOf token ⟨c.account, after.pool.quote, after.quote⟩ +
        after.pool.reserveOf token := by
  simp [written, tradedOutcome, writesOf, Opening.written, LeafValue.balance?, LeafValue.pool?]

/-- What a pair and its pool are claimed to hold together is what is written of them, where
it is conserved. -/
theorem pair_balanced {before : PairBalances} {reserves : Option Pool} {x y : Amount}
    {pool : Pool} {base quote : Token} (h : Conserved before reserves x y pool)
    (hkeyed : ∀ p ∈ reserves, p.base = base ∧ p.quote = quote) (hbase : pool.base = base)
    (hquote : pool.quote = quote) (w : DoubleWitness) (account : Address) (token : Token) :
    (pairOpening w account base quote before).claimed (AccountRecord.amountOf token) +
        reserves.elim 0 (Pool.reserveOf token) =
      AccountRecord.amountOf token ⟨account, pool.base, x⟩ +
        AccountRecord.amountOf token ⟨account, pool.quote, y⟩ + pool.reserveOf token := by
  subst hbase hquote
  have hworth := h.worth_eq (fun p hp => ⟨(hkeyed p hp).1.symm, (hkeyed p hp).2.symm⟩) token
  rw [pairOpening, Opening.claimed, elim_accountRecord?, elim_accountRecord?, hworth,
    AccountRecord.amountOf, AccountRecord.amountOf]

/-- Of every method, the balances and reserves that are claimed and those that are written
differ by what is deposited or burned. -/
theorem outcome_balanced (h : t.outcome roots = .ok o) (token : Token) :
    t.balanceOpening.claimed (AccountRecord.amountOf token) +
        t.poolOpening.claimed (Pool.reserveOf token) + t.deposited token =
      written token o + t.burned token := by
  -- a trade or a change of liquidity conserves a pair and its pool; only deposits and burns do not
  cases t with
  | genesis =>
      simp only [outcome, pure_eq_ok_iff] at h
      subst h
      rfl
  | deposit a =>
      simp only [outcome, bind_eq_ok_iff, pure_eq_ok_iff] at h
      obtain ⟨amount, hcredit, rfl⟩ := h
      simp only [balanceOpening, poolOpening, Opening.claimed, elim_accountRecord?, deposited,
        burned, written, writesOf, Opening.written, AccountRecord.amountOf, LeafValue.balance?,
        LeafValue.pool?, List.filterMap_cons, List.filterMap_nil, Option.map_some, Option.map_none,
        List.map_cons, List.map_nil, List.sum_cons, List.sum_nil]
      rw [worth_credit hcredit token]
      omega
  | burn a =>
      simp only [outcome, bind_eq_ok_iff, pure_eq_ok_iff] at h
      obtain ⟨balance, hdebit, total, -, rfl⟩ := h
      simp only [balanceOpening, poolOpening, Opening.claimed, elim_accountRecord?, deposited,
        burned, written, writesOf, Opening.written, AccountRecord.amountOf, LeafValue.balance?,
        LeafValue.pool?, List.filterMap_cons, List.filterMap_nil, Option.map_some, Option.map_none,
        List.map_cons, List.map_nil, List.sum_cons, List.sum_nil]
      rw [worth_debit hdebit token]
      omega
  | createPool a =>
      simp only [outcome, bind_eq_ok_iff, pure_eq_ok_iff] at h
      obtain ⟨after, hafter, rfl⟩ := h
      obtain ⟨hconserved, hbase, hquote⟩ := Pool.opened_conserves hafter
      rw [written_sharedOutcome,
        ← pair_balanced hconserved (by simp) hbase hquote a.balanceWitness a.provider token]
      rfl
  | provideLiquidity a =>
      simp only [outcome, bind_eq_ok_iff, pure_eq_ok_iff] at h
      obtain ⟨after, hafter, rfl⟩ := h
      obtain ⟨hconserved, hbase, hquote⟩ := Pool.provide_conserves hafter
      rw [written_sharedOutcome, ← pair_balanced hconserved (by simp) hbase hquote
        a.claim.balanceWitness a.claim.account token]
      rfl
  | removeLiquidity a =>
      simp only [outcome, bind_eq_ok_iff, pure_eq_ok_iff] at h
      obtain ⟨after, hafter, rfl⟩ := h
      obtain ⟨hconserved, hbase, hquote⟩ := Pool.remove_conserves hafter
      rw [written_sharedOutcome, ← pair_balanced hconserved (by simp) hbase hquote
        a.claim.balanceWitness a.claim.account token]
      rfl
  | buy a =>
      simp only [outcome, bind_eq_ok_iff, pure_eq_ok_iff] at h
      obtain ⟨after, hafter, rfl⟩ := h
      obtain ⟨hconserved, hbase, hquote⟩ := Pool.buy_conserves hafter
      rw [written_tradedOutcome, ← pair_balanced hconserved (by simp) hbase hquote
        a.claim.balanceWitness a.claim.account token]
      rfl
  | sell a =>
      simp only [outcome, bind_eq_ok_iff, pure_eq_ok_iff] at h
      obtain ⟨after, hafter, rfl⟩ := h
      obtain ⟨hconserved, hbase, hquote⟩ := Pool.sell_conserves hafter
      rw [written_tradedOutcome, ← pair_balanced hconserved (by simp) hbase hquote
        a.claim.balanceWitness a.claim.account token]
      rfl

/-- The burn records that are claimed and those that are written differ by what is burned. -/
theorem outcome_burns (h : t.outcome roots = .ok o) (token : Token) :
    t.burnOpening.claimed (AccountRecord.amountOf token) + t.burned token =
      Opening.written (AccountRecord.amountOf token) (writesOf LeafValue.burn? o.writes) := by
  cases t with
  | burn a =>
      simp only [outcome, bind_eq_ok_iff, pure_eq_ok_iff] at h
      obtain ⟨balance, -, total, hcredit, rfl⟩ := h
      simp only [burnOpening, Opening.claimed, elim_accountRecord?, burned, writesOf,
        Opening.written, AccountRecord.amountOf, LeafValue.burn?, List.filterMap_cons,
        List.filterMap_nil, Option.map_some, Option.map_none, List.map_cons, List.map_nil,
        List.sum_cons, List.sum_nil]
      rw [worth_credit hcredit token]
      omega
  | genesis =>
      simp only [outcome, pure_eq_ok_iff] at h
      subst h
      rfl
  | _ =>
      -- no other method opens the burns tree
      simp only [outcome, bind_eq_ok_iff, pure_eq_ok_iff] at h
      obtain ⟨_, -, rfl⟩ := h
      rfl

/-- What an accepted step with true claims does to the sums over the records. -/
theorem outcome_totals (hr : r.Finite) (hfits : t.Fits) (hholds : t.Holds r)
    (h : t.outcome roots = .ok o) (token : Token) :
    (r.writeAll o.writes).circulating token + t.burned token =
        r.circulating token + t.deposited token ∧
      (r.writeAll o.writes).burned token = r.burned token + t.burned token := by
  have hgives := outcome_gives h
  -- each tree by itself: what was claimed goes and what is written comes
  have hbalances := hgives.balances.total_eq (AccountRecord.amountOf token) hr.balances
    hfits.balances hholds.balances
  have hpools := hgives.pools.total_eq (Pool.reserveOf token) hr.pools hfits.pools
    hholds.pools
  have hburns := hgives.burns.total_eq (AccountRecord.amountOf token) hr.burns
    hfits.burns hholds.burns
  have hmoved := outcome_balanced h token
  have hburned := outcome_burns h token
  simp only [View.balances, View.pools, View.burns, written] at hbalances hpools hburns hmoved
  simp only [Records.circulating, Records.burned, Records.writeAll]
  constructor <;> omega

end Transition

end AmmRollup
