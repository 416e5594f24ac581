import AmmRollup.Proofs.Rollup.Refine

/-!
# AmmRollup.Proofs.Rollup.Forged

What unset merge flags let through.  A double witness without flags folds its first leaf
alone, so a step that carries one may claim any balance of the second token, as long as it
writes the balance that stands there: neither the core nor the commit can tell.  Whoever
opens a pool this way fills its quote reserve with tokens that were never paid
(`RollupState.Forged.run_apply`).
-/

namespace AmmRollup

namespace RollupState

variable {s : RollupState} {a : CreatePoolArgs}

/-- A step that opens a pool which does not exist, with the witnesses that the state gives
but without merge flags.  It claims what is true, and of the balance in the quote token
anything. -/
structure Forged (s : RollupState) (a : CreatePoolArgs) : Prop where
  ne : a.base ≠ a.quote
  vacant : s.pool a.base a.quote = none ∧ s.liquidity a.provider a.base a.quote = none
  base_eq : a.balances.base = s.balance a.provider a.base
  pool_at : s.pools.OpenedAt (a.base, a.quote) a.poolWitness
  points_at : s.liquidities.OpenedAt (a.provider, a.base, a.quote) a.liquidityWitness
  first_at : s.balances.OpenedAt (a.provider, a.base) ⟨a.balanceWitness.first⟩
  second_at : s.balances.OpenedAt (a.provider, a.quote) ⟨a.balanceWitness.second⟩
  meets : a.balanceWitness.meets = List.replicate (balancesHeight - 1) false

namespace Forged

/-- The paths are those of two leaves, and as many flags are unset as there are levels. -/
theorem fits_pair (hf : s.Forged a) : a.balanceWitness.Fits (balancesHeight - 1) :=
  ⟨hf.first_at.opens.length_eq, hf.second_at.opens.length_eq,
    by rw [hf.meets, List.length_replicate]⟩

theorem unflagged (hf : s.Forged a) : true ∉ a.balanceWitness.meets := by
  rw [hf.meets, List.mem_replicate]
  simp

/-- The leaves of two tokens are distinct. -/
theorem indexes_ne (h : s.Valid) (hf : s.Forged a) :
    a.balanceWitness.indexes.1.toNat ≠ a.balanceWitness.indexes.2.toNat := by
  intro he
  have hfirst := hf.first_at.find
  have hsecond := hf.second_at.find
  change _ = some a.balanceWitness.indexes.1.toNat at hfirst
  change _ = some a.balanceWitness.indexes.2.toNat at hsecond
  rw [he] at hfirst
  exact hf.ne (Prod.mk.inj (h.balances.key_unique hfirst hsecond)).2

/-- Nothing about the shape of the forged step gives it away. -/
theorem fits (h : s.Valid) (hf : s.Forged a) : (Transition.createPool a).Fits :=
  ⟨⟨hf.fits_pair, fun he => hf.indexes_ne h (congrArg UInt64.toNat he)⟩,
    hf.points_at.opens.length_eq, hf.pool_at.opens.length_eq, trivial⟩

/-- Whatever is claimed of the second leaf, the root is that of the first leaf rewritten. -/
theorem root_eq (hf : s.Forged a) (x y : Option AccountRecord) :
    a.balanceWitness.root (Record.leafOrEmpty x) (Record.leafOrEmpty y) =
      nodeOver (leavesOf (Function.update s.records.balances
        a.balanceWitness.indexes.1.toNat x)) (balancesHeight - 1) 0 := by
  rw [DoubleWitness.root_of_unflagged hf.fits_pair hf.unflagged hf.first_at.opens, leavesOf_update,
    hf.fits_pair.toNat_indexes_fst (by decide)]
  rfl

/-- Its claims fold to the roots, the false one included. -/
theorem foldsTo (h : s.Valid) (hf : s.Forged a) :
    (Transition.createPool a).FoldsTo s.records.roots := by
  refine ⟨?_, ?_, ?_, trivial⟩
  -- of the balances only the first claim is folded, and it is true
  · have hfirst : accountRecord? a.provider a.base a.balances.base =
        s.records.balances a.balanceWitness.indexes.1.toNat := by
      rw [hf.base_eq]
      exact accountRecord?_eq h.balances hf.first_at.find
    refine (hf.root_eq _ _).trans ?_
    rw [hfirst, Function.update_eq_self]
    rfl
  · refine Opening.foldsTo_of_holds (o := .single a.liquidityWitness none) (by decide)
      hf.points_at.opens.length_eq ?_ hf.points_at.opens
    exact ((Table.get?_eq hf.points_at.find).symm.trans
      (Option.map_eq_none_iff.mp hf.vacant.2)).symm
  · refine Opening.foldsTo_of_holds (o := .single a.poolWitness none) (by decide)
      hf.pool_at.opens.length_eq ?_ hf.pool_at.opens
    exact ((Table.get?_eq hf.pool_at.find).symm.trans hf.vacant.1).symm

variable {after : Shared}

/-- Writing the balance that stands at the second leaf again changes no root. -/
theorem outcome_roots (h : s.Valid) (hf : s.Forged a)
    (hopened : Pool.opened a.base a.quote a.balances a.baseAmount a.quoteAmount = .ok after)
    (hkept : s.balance a.provider a.quote = some after.quote) {o : Outcome}
    (houtcome : (Transition.createPool a).outcome s.records.roots = .ok o) :
    o.roots = (s.records.writeAll o.writes).roots := by
  have hgives := Transition.outcome_gives houtcome
  have hfits := hf.fits h
  have hpoints := View.liquidities.root_eq_of_gives hgives.liquidities hfits.liquidities
    hf.points_at.opens
  have hpool := View.pools.root_eq_of_gives hgives.pools hfits.pools hf.pool_at.opens
  have hburns := View.burns.root_eq_of_gives hgives.burns trivial trivial
  -- three roots are those of an honest step; the balances are left
  refine StateRoots.ext ?_ hpoints hpool hburns
  obtain ⟨-, -, hquote⟩ := Pool.opened_conserves hopened
  have hstored : s.records.balances a.balanceWitness.indexes.2.toNat =
      some ⟨a.provider, after.pool.quote, after.quote⟩ := by
    rw [hquote]
    refine (accountRecord?_eq h.balances hf.second_at.find).symm.trans ?_
    exact congrArg (accountRecord? a.provider a.quote) hkept
  simp only [Transition.outcome, hopened] at houtcome
  obtain rfl := Except.ok.inj houtcome
  -- the written quote balance is the one that stands there already
  have hrewrite := Function.update_eq_self a.balanceWitness.indexes.2.toNat
    (Function.update s.records.balances a.balanceWitness.indexes.1.toNat
      (some ⟨a.provider, after.pool.base, after.base⟩))
  rw [Function.update_of_ne (hf.indexes_ne h).symm, hstored] at hrewrite
  refine (hf.root_eq (some ⟨a.provider, after.pool.base, after.base⟩)
    (some ⟨a.provider, after.pool.quote, after.quote⟩)).trans ?_
  rw [← hrewrite]
  rfl

/-- **Forgery.**  The forged step is applied: what it claims to have in the quote token
fills the pool, and what the account has in truth stays. -/
theorem run_apply (h : s.Valid) (hf : s.Forged a)
    (hopened : Pool.opened a.base a.quote a.balances a.baseAmount a.quoteAmount = .ok after)
    (hkept : s.balance a.provider a.quote = some after.quote) {v : Verifiers}
    {earlier : Option Proof} (hearlier : checkEarlier v s.roots earlier = .ok ())
    (hsigned : (Transition.createPool a).checkSignature v = .ok ()) :
    ∃ written, (apply v earlier (.createPool a)).run.run s =
      (.ok (Transition.sharedOutcome s.roots a.provider a.poolWitness a.liquidityWitness
        a.balanceWitness after), written) ∧
      WritesAll s (Transition.sharedOutcome s.roots a.provider a.poolWitness a.liquidityWitness
        a.balanceWitness after).writes written := by
  obtain ⟨-, hbase, hquote⟩ := Pool.opened_conserves hopened
  have hfolds := hf.foldsTo h
  rw [← h.roots_eq] at hfolds
  have houtcome : (Transition.createPool a).outcome s.roots =
      .ok (Transition.sharedOutcome s.roots a.provider a.poolWitness a.liquidityWitness
        a.balanceWitness after) := by
    simp only [Transition.outcome, hopened]
    rfl
  have hexecute : (Transition.createPool a).execute v s.roots earlier =
      .ok (Transition.sharedOutcome s.roots a.provider a.poolWitness a.liquidityWitness
        a.balanceWitness after) := by
    rw [Transition.execute_of_fits hearlier (hf.fits h), hsigned,
      Transition.checkRoots_eq_ok_iff.mpr ⟨hfolds, trivial⟩, houtcome]
    rfl
  -- all four leaves belong to their keys, so the commit writes them
  have hbound : ∀ w ∈ (Transition.sharedOutcome s.roots a.provider a.poolWitness
      a.liquidityWitness a.balanceWitness after).writes, s.Bound w := by
    simpa [Transition.sharedOutcome, Bound, AccountRecord.key, Pool.key, Liquidity.key, hbase,
      hquote] using ⟨hf.pool_at.find, hf.points_at.find, hf.first_at.find, hf.second_at.find⟩
  obtain ⟨written, hcommit, hwrites⟩ := h.commit_of_bound hbound
    (hf.outcome_roots h hopened hkept (h.roots_eq ▸ houtcome))
  refine ⟨written, ?_, hwrites⟩
  rw [run_apply_of_ok hexecute, run_commitStep_of_ok hcommit]
  rfl

end Forged

/-! ## An instance

Two deposits give an account two balances, and building a step that opens a pool gives leaves to
the pool and to its points.  The forged step then claims a balance of ten where there is less.
-/

/-- A state after a deposit, by its leaf. -/
def deposited (s : RollupState) (index : Nat) (d : AccountRecord) : RollupState :=
  { s with balances := (s.balances.index d.key).2.restore index (some d) }.consumeDeposit
    (nextDepositHead s.depositHead d)

/-- What the same account deposits of another token. -/
def secondRecord : AccountRecord := ⟨firstRecord.account, .ofWord 2, 7⟩

/-- An account with two balances. -/
def funded : RollupState := (initial.deposited 0 firstRecord).deposited 1 secondRecord

/-- One deposit leads to the first balance. -/
theorem deposited_reachable : (initial.deposited 0 firstRecord).Reachable :=
  Reachable.initial.deposit (Prod.ext rfl rfl) rfl

/-- One deposit more leads to two balances. -/
theorem funded_reachable : funded.Reachable :=
  deposited_reachable.deposit (Prod.ext rfl rfl) rfl

/-- The account has built a step that opens a pool of the two tokens, which has assigned
leaves to the pool and to its points. -/
def prepared : RollupState :=
  { funded with
    pools := (funded.pools.index (firstRecord.token, secondRecord.token)).2
    liquidities :=
      (funded.liquidities.index (firstRecord.account, firstRecord.token, secondRecord.token)).2 }

/-- Building the step is an action of its own, even if it is never applied. -/
theorem prepared_reachable : prepared.Reachable :=
  funded_reachable.step (.build
    (.createPool firstRecord.account firstRecord.token secondRecord.token 2 3 ⟨.zero, .zero⟩))

/-- The step that opens the pool, without flags, and claims ten of the second token. -/
def forgedArgs : CreatePoolArgs where
  poolWitness := ⟨prepared.pools.tree.path 0⟩
  liquidityWitness := ⟨prepared.liquidities.tree.path 0⟩
  balanceWitness :=
    ⟨prepared.balances.tree.path 0, prepared.balances.tree.path 1, List.replicate 22 false⟩
  provider := firstRecord.account
  base := firstRecord.token
  quote := secondRecord.token
  baseAmount := 2
  quoteAmount := 3
  balances := ⟨some 5, some 10⟩
  signature := ⟨.zero, .zero⟩

/-- All that is forged is the claim of the quote balance, and the flags. -/
theorem forgedArgs_forged : prepared.Forged forgedArgs := by
  have h := prepared_reachable.valid
  exact {
    ne := by decide
    vacant := ⟨rfl, rfl⟩
    base_eq := rfl
    pool_at := h.pools.openedAt_path (by decide) rfl
    points_at := h.liquidities.openedAt_path (by decide) rfl
    first_at := h.balances.openedAt_path (by decide) rfl
    second_at := h.balances.openedAt_path (by decide) rfl
    meets := rfl }

/-- The pool that it opens, and what it writes to the account. -/
def forgedAfter : Shared := ⟨⟨firstRecord.token, secondRecord.token, 2, 3, 6⟩, 3, 7, 6⟩

def forgedOutcome : Outcome :=
  Transition.sharedOutcome prepared.roots firstRecord.account forgedArgs.poolWitness
    forgedArgs.liquidityWitness forgedArgs.balanceWitness forgedAfter

/-! ### What the instance hashes

That nothing collides is shown for the instance by listing its strings.  The trees have two
balances, one pool and one entry of points, all at the front, so few digests are not of unwritten
subtrees.
-/

/-- The balance in the second token that the step claims. -/
def forgedClaim : AccountRecord := ⟨firstRecord.account, secondRecord.token, 10⟩

/-- What the step leaves of the balance in the first token. -/
def forgedBase : AccountRecord := ⟨firstRecord.account, firstRecord.token, 3⟩

/-- The points that the step gives. -/
def forgedPoints : Liquidity := ⟨firstRecord.account, firstRecord.token, secondRecord.token, 6⟩

/-- The paths of the two balances. -/
def firstPath : List Sibling := ⟨Record.leaf secondRecord, false⟩ :: emptyPath 1 21

def secondPath : List Sibling := ⟨Record.leaf firstRecord, true⟩ :: emptyPath 1 21

/-- Everything that applying the forged step hashes. -/
def forgedStrings : List Bytes :=
  emptyStrings 22 ++
    Record.preimage firstRecord :: foldStrings (Record.leaf firstRecord) firstPath ++
    Record.preimage secondRecord :: Record.preimage forgedClaim ::
      foldStrings (Record.leaf forgedClaim) secondPath ++
    Record.preimage forgedBase :: foldStrings (Record.leaf forgedBase) firstPath ++
    Record.preimage forgedAfter.pool ::
      foldStrings (Record.leaf forgedAfter.pool) (emptyPath 0 (poolsHeight - 1)) ++
    Record.preimage forgedPoints ::
      foldStrings (Record.leaf forgedPoints) (emptyPath 0 (liquiditiesHeight - 1))

/-- What was hashed with the forged step or before it, on the path of the first balance when it was
alone. -/
def historyStrings : List Bytes :=
  forgedStrings ++ foldStrings (Record.leaf firstRecord) (emptyPath 0 (balancesHeight - 1))

variable {bytes : Bytes}

/-- The first deposit leaves the records of the transition's own example. -/
theorem records_deposited : (initial.deposited 0 firstRecord).records = depositedRecords :=
  congrArg (fun balances => { Records.empty with balances }) (Table.records_restore _ _ _)

/-- The trees after the first deposit. -/
theorem preimages_deposited (h : bytes ∈ (initial.deposited 0 firstRecord).records.preimages) :
    bytes ∈ historyStrings := by
  rw [records_deposited] at h
  replace h := mem_frontStrings_of_deposited h
  simp only [frontStrings, List.mem_append, List.mem_cons] at h
  rcases h with h | rfl | h
  · simp [historyStrings, forgedStrings, h]
  · simp [historyStrings, forgedStrings]
  · simp [historyStrings, h]

/-- The two deposits are all that stands in the tree of balances. -/
theorem prepared_balances : prepared.records.balances = Function.update
    (Function.update (fun _ => none) 0 (some firstRecord)) 1 (some secondRecord) := by
  have hfirst : (initial.deposited 0 firstRecord).records.balances =
      Function.update (fun _ => none) 0 (some firstRecord) := congrArg _ records_deposited
  rw [← hfirst]
  exact Table.records_restore _ _ _

/-- Behind the two balances there is no record. -/
theorem prepared_beyond (j : Nat) (hj : 1 < j) : prepared.records.balances j = none := by
  rw [prepared_balances, Function.update_of_ne (by omega), Function.update_of_ne (by omega)]

/-- Behind the two balances every leaf is empty. -/
theorem leavesOf_prepared (j : Nat) (hj : 1 < j) :
    leavesOf prepared.records.balances j = emptyLeaf := by
  rw [leavesOf, prepared_beyond j hj, Record.leafOrEmpty]

/-- The path of the first balance, which the step opens. -/
theorem path_prepared_first : prepared.balances.tree.path 0 = firstPath :=
  (prepared_reachable.valid.balances.stores.tree_over.path_eq (by decide)).trans
    (pathOver_of_front leavesOf_prepared 21 (by decide))

/-- The path of the second balance, which the step opens; the two are each other's neighbours. -/
theorem path_prepared_second : prepared.balances.tree.path 1 = secondPath :=
  (prepared_reachable.valid.balances.stores.tree_over.path_eq (by decide)).trans
    (pathOver_of_front leavesOf_prepared 21 (by decide))

/-- The path of the pool, which is the first of its tree. -/
theorem path_prepared_pool : prepared.pools.tree.path 0 = emptyPath 0 (poolsHeight - 1) :=
  (prepared_reachable.valid.pools.stores.tree_over.path_eq (by decide)).trans
    (pathOver_of_front (fun _ _ => rfl) 19 (by decide))

/-- The path of the points, which are the first of their tree. -/
theorem path_prepared_points :
    prepared.liquidities.tree.path 0 = emptyPath 0 (liquiditiesHeight - 1) :=
  (prepared_reachable.valid.liquidities.stores.tree_over.path_eq (by decide)).trans
    (pathOver_of_front (fun _ _ => rfl) 20 (by decide))

/-- The trees before the step. -/
theorem preimages_prepared (h : bytes ∈ prepared.records.preimages) : bytes ∈ forgedStrings := by
  obtain ((h | h) | h) | h := h
  · obtain h | h | h | h := mem_strings_of_front prepared_beyond (n := 22) (by decide) h
    · simp [forgedStrings, h]
    · obtain rfl : bytes = Record.preimage firstRecord := h
      simp [forgedStrings]
    · obtain rfl : bytes = Record.preimage secondRecord := h
      simp [forgedStrings]
    · replace h : bytes ∈ foldStrings (Record.leaf firstRecord) firstPath := h
      simp [forgedStrings, h]
  all_goals
    have hempty := mem_emptyStrings_of_tree (n := 22) (by decide) h
    simp [forgedStrings, hempty]

/-- The double witness folds the first leaf up its path alone, for either pair of leaves. -/
theorem preimages_pair (x y : Option AccountRecord)
    (h : bytes ∈ (Opening.double forgedArgs.balanceWitness x y).preimages) :
    bytes ∈ foldStrings (Record.leafOrEmpty x) firstPath ∨
      bytes ∈ foldPreimages (Record.leafOrEmpty y) secondPath ∨
      bytes ∈ leafPreimages x ∨ bytes ∈ leafPreimages y := by
  have hf := forgedArgs_forged
  have hfirst : forgedArgs.balanceWitness.first = firstPath := path_prepared_first
  have hsecond : forgedArgs.balanceWitness.second = secondPath := path_prepared_second
  obtain (h | h) | h | h := h
  · rw [hf.fits_pair.joined_of_unflagged hf.unflagged, hfirst] at h
    exact .inl (mem_foldStrings h)
  · rw [hsecond] at h
    exact .inr (.inl h)
  · exact .inr (.inr (.inl h))
  · exact .inr (.inr (.inr h))

/-- What the step claims. -/
theorem preimages_claims (h : bytes ∈ (Transition.createPool forgedArgs).preimages) :
    bytes ∈ forgedStrings := by
  obtain ((h | h) | h) | h := h
  -- balances: the first path, the second path, and the two claimed records
  · obtain h | h | h | h := preimages_pair _ _ h
    · replace h : bytes ∈ foldStrings (Record.leaf firstRecord) firstPath := h
      simp [forgedStrings, h]
    · replace h : bytes ∈ foldStrings (Record.leaf forgedClaim) secondPath := mem_foldStrings h
      simp [forgedStrings, h]
    · obtain rfl : bytes = Record.preimage firstRecord := h
      simp [forgedStrings]
    · obtain rfl : bytes = Record.preimage forgedClaim := h
      simp [forgedStrings]
  · obtain h | h := h
    · refine preimages_prepared (View.liquidities.preimages_subset _ (.inl ?_))
      exact forgedArgs_forged.points_at.opens.preimages_subset h
    · contradiction
  · obtain h | h := h
    · refine preimages_prepared (View.pools.preimages_subset _ (.inl ?_))
      exact forgedArgs_forged.pool_at.opens.preimages_subset h
    · contradiction
  · contradiction

/-- The roots of its outcome. -/
theorem preimages_outcome
    (h : bytes ∈ (Transition.createPool forgedArgs).outcomePreimages forgedOutcome) :
    bytes ∈ forgedStrings := by
  obtain ((h | h) | h) | h := h
  · obtain h | h | h | h := preimages_pair _ _ h
    · replace h : bytes ∈ foldStrings (Record.leaf forgedBase) firstPath := h
      simp [forgedStrings, h]
    · -- the second leaf is as it was, and its path that of the tree before the step
      refine preimages_prepared (View.balances.preimages_subset _ (.inl ?_))
      have hpath := pathOver_of_front leavesOf_prepared 21 (Nat.le_refl 1)
      have hfold : bytes ∈ foldPreimages (nodeOver (leavesOf prepared.records.balances) 0 1)
          (pathOver (leavesOf prepared.records.balances) 22 0 1) := hpath ▸ h
      exact foldPreimages_pathOver 22 0 1 (Nat.le_refl 22) hfold
    · obtain rfl : bytes = Record.preimage forgedBase := h
      simp [forgedStrings]
    · obtain rfl : bytes = Record.preimage secondRecord := h
      simp [forgedStrings]
  · obtain h | h := h
    · replace h := mem_foldStrings h
      rw [show forgedArgs.liquidityWitness.siblings = _ from path_prepared_points] at h
      replace h : bytes ∈ foldStrings (Record.leaf forgedPoints)
        (emptyPath 0 (liquiditiesHeight - 1)) := h
      simp [forgedStrings, h]
    · obtain rfl : bytes = Record.preimage forgedPoints := h
      simp [forgedStrings]
  · obtain h | h := h
    · replace h := mem_foldStrings h
      rw [show forgedArgs.poolWitness.siblings = _ from path_prepared_pool] at h
      replace h : bytes ∈ foldStrings (Record.leaf forgedAfter.pool)
        (emptyPath 0 (poolsHeight - 1)) := h
      simp [forgedStrings, h]
    · obtain rfl : bytes = Record.preimage forgedAfter.pool := h
      simp [forgedStrings]
  · contradiction

/-- What the step leaves behind the leaves: two balances, the points and the pool. -/
theorem records_forged : prepared.records.writeAll forgedOutcome.writes =
    { balances := Function.update (Function.update prepared.records.balances 0
        (some forgedBase)) 1 (some secondRecord)
      liquidities := Function.update (fun _ => none) 0 (some forgedPoints)
      pools := Function.update (fun _ => none) 0 (some forgedAfter.pool)
      burns := fun _ => none } := by
  have hf := forgedArgs_forged
  have hfirst : forgedArgs.balanceWitness.indexes.1.toNat = 0 :=
    Option.some.inj (hf.first_at.find.symm.trans rfl)
  have hsecond : forgedArgs.balanceWitness.indexes.2.toNat = 1 :=
    Option.some.inj (hf.second_at.find.symm.trans rfl)
  have hpoints : forgedArgs.liquidityWitness.index.toNat = 0 :=
    Option.some.inj (hf.points_at.find.symm.trans rfl)
  have hpool : forgedArgs.poolWitness.index.toNat = 0 :=
    Option.some.inj (hf.pool_at.find.symm.trans rfl)
  -- the witnesses of the state are those of the leaves 0 and 1, and 0 in the two other trees
  change Records.mk (Function.update (Function.update prepared.records.balances
      forgedArgs.balanceWitness.indexes.1.toNat (some forgedBase))
      forgedArgs.balanceWitness.indexes.2.toNat (some secondRecord))
    (Function.update (fun _ => none) forgedArgs.liquidityWitness.index.toNat (some forgedPoints))
    (Function.update (fun _ => none) forgedArgs.poolWitness.index.toNat (some forgedAfter.pool))
    (fun _ => none) = _
  rw [hfirst, hsecond, hpoints, hpool]

/-- The trees after the step. -/
theorem preimages_written
    (h : bytes ∈ (prepared.records.writeAll forgedOutcome.writes).preimages) :
    bytes ∈ forgedStrings := by
  rw [records_forged] at h
  obtain ((h | h) | h) | h := h
  -- each tree has at most two leaves in front, and is unwritten behind them
  · have hbeyond (j : Nat) (hj : 1 < j) : Function.update (Function.update
        prepared.records.balances 0 (some forgedBase)) 1 (some secondRecord) j = none := by
      rw [Function.update_of_ne (by omega), Function.update_of_ne (by omega),
        prepared_beyond j hj]
    obtain h | h | h | h := mem_strings_of_front hbeyond (n := 22) (by decide) h
    · simp [forgedStrings, h]
    · obtain rfl : bytes = Record.preimage forgedBase := h
      simp [forgedStrings]
    · obtain rfl : bytes = Record.preimage secondRecord := h
      simp [forgedStrings]
    · replace h : bytes ∈ foldStrings (Record.leaf forgedBase) firstPath := h
      simp [forgedStrings, h]
  · have hbeyond (j : Nat) (hj : 1 < j) :
        Function.update (fun _ => none) 0 (some forgedPoints) j = none := by
      rw [Function.update_of_ne (by omega)]
    obtain h | h | h | h := mem_strings_of_front hbeyond (n := 22) (by decide) h
    · simp [forgedStrings, h]
    · obtain rfl : bytes = Record.preimage forgedPoints := h
      simp [forgedStrings]
    · contradiction
    · replace h : bytes ∈ foldStrings (Record.leaf forgedPoints)
        (emptyPath 0 (liquiditiesHeight - 1)) := h
      simp [forgedStrings, h]
  · have hbeyond (j : Nat) (hj : 1 < j) :
        Function.update (fun _ => none) 0 (some forgedAfter.pool) j = none := by
      rw [Function.update_of_ne (by omega)]
    obtain h | h | h | h := mem_strings_of_front hbeyond (n := 22) (by decide) h
    · simp [forgedStrings, h]
    · obtain rfl : bytes = Record.preimage forgedAfter.pool := h
      simp [forgedStrings]
    · contradiction
    · replace h : bytes ∈ foldStrings (Record.leaf forgedAfter.pool)
        (emptyPath 0 (poolsHeight - 1)) := h
      simp [forgedStrings, h]
  · have hempty := mem_emptyStrings_of_tree (n := 22) (by decide) h
    simp [forgedStrings, hempty]

/-- The digests on the path of the first balance, before the step and after it. -/
theorem fingerprints_firstPath :
    (Record.leaf firstRecord :: foldNodes (Record.leaf firstRecord) firstPath).map fingerprint =
        [48198, 57682, 40023, 31985, 17513, 64911, 57304, 56893, 7546, 16051, 40984, 9815, 35213,
          62722, 43920, 22848, 27626, 1712, 11319, 43423, 18220, 59135, 53380] ∧
      (Record.leaf forgedBase :: foldNodes (Record.leaf forgedBase) firstPath).map fingerprint =
        [6815, 44767, 50146, 26381, 35136, 48541, 17557, 49424, 65105, 45239, 60400, 7737, 21776,
          27916, 10252, 1948, 32006, 45573, 24000, 17820, 83, 46243, 6704] := by
  decide +kernel

/-- The digests on the path of the second balance, and on it above what is claimed there. -/
theorem fingerprints_secondPath : (Record.leaf secondRecord :: Record.leaf forgedClaim ::
    foldNodes (Record.leaf forgedClaim) secondPath).map fingerprint =
    [63122, 63262, 10788, 49829, 38502, 9466, 24515, 24806, 20018, 2562, 31139, 17963, 26106,
      23289, 26378, 8727, 16544, 31761, 26749, 12710, 20110, 56677, 16487, 37988] := by
  decide +kernel

/-- The digests on the paths of the pool and the points. -/
theorem fingerprints_opened :
    (Record.leaf forgedAfter.pool ::
        foldNodes (Record.leaf forgedAfter.pool) (emptyPath 0 (poolsHeight - 1))).map
          fingerprint =
        [50594, 27033, 62986, 22805, 30710, 12734, 27598, 2312, 50161, 16596, 38715, 28415, 31556,
          58080, 65036, 18437, 41426, 11919, 13274, 11065, 3667] ∧
      (Record.leaf forgedPoints ::
        foldNodes (Record.leaf forgedPoints) (emptyPath 0 (liquiditiesHeight - 1))).map
          fingerprint =
        [6813, 17991, 49907, 54820, 33783, 40172, 3645, 6088, 3155, 12001, 43289, 41179, 4727,
          11399, 43737, 18163, 6167, 61990, 63491, 64465, 31666, 58678] := by
  decide +kernel

/-- The digests of all that was hashed differ. -/
theorem nodup_history : (emptyLeaf :: historyStrings.map keccak256).Nodup := by
  have hmap : emptyLeaf :: historyStrings.map keccak256 = emptySubtreesFrom emptyLeaf 23 ++
      Record.leaf firstRecord :: foldNodes (Record.leaf firstRecord) firstPath ++
      Record.leaf secondRecord :: Record.leaf forgedClaim ::
      foldNodes (Record.leaf forgedClaim) secondPath ++
      Record.leaf forgedBase :: foldNodes (Record.leaf forgedBase) firstPath ++
      Record.leaf forgedAfter.pool ::
      foldNodes (Record.leaf forgedAfter.pool) (emptyPath 0 (poolsHeight - 1)) ++
      Record.leaf forgedPoints ::
      foldNodes (Record.leaf forgedPoints) (emptyPath 0 (liquiditiesHeight - 1)) ++
      foldNodes (Record.leaf firstRecord) (emptyPath 0 (balancesHeight - 1)) := by
    rw [← map_emptyStrings]
    simp only [historyStrings, forgedStrings, List.map_append, List.map_cons, map_foldStrings,
      List.cons_append]
    rfl
  rw [hmap]
  -- the path of the balance when it was alone, without the leaf itself
  have halone := congrArg List.tail fingerprints_deposited
  rw [List.map_cons, List.tail_cons] at halone
  -- numbers that differ come from digests that differ, and the numbers are computed by now
  refine .of_map fingerprint ?_
  simp only [List.map_append]
  rw [Records.fingerprints_empty, fingerprints_firstPath.1, fingerprints_secondPath,
    fingerprints_firstPath.2, fingerprints_opened.1, fingerprints_opened.2, halone]
  decide +kernel

/-- The forged step is applied, and nothing collides. -/
theorem forged_applied : ∃ written,
    (apply .trusting (some (.start prepared.roots)) (.createPool forgedArgs)).run.run prepared =
      (.ok forgedOutcome, written) ∧
    CollisionFree (applyPreimages prepared (.createPool forgedArgs) forgedOutcome written) := by
  have hopened : Pool.opened forgedArgs.base forgedArgs.quote forgedArgs.balances
      forgedArgs.baseAmount forgedArgs.quoteAmount = .ok forgedAfter := rfl
  obtain ⟨written, hrun, hwrites⟩ := forgedArgs_forged.run_apply prepared_reachable.valid hopened
    rfl (checkEarlier_start _) rfl
  refine ⟨written, hrun, .of_nodup (fun bytes h => List.mem_append_left _ ?_) nodup_history⟩
  obtain ((h | h) | h) | h := h
  · exact preimages_prepared h
  · exact preimages_claims h
  · exact preimages_outcome h
  · rw [hwrites.records_eq] at h
    exact preimages_written h

end RollupState

end AmmRollup
