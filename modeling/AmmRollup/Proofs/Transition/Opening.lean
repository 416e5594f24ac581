import AmmRollup.Proofs.Transition.Records
import AmmRollup.Transition.Execute

/-!
# AmmRollup.Proofs.Transition.Opening

What a step claims of each tree.  Every method opens at most one leaf or one pair of
leaves in a tree, so its claims are four *openings* (`Opening`), and the checks of all
methods are the same two checks on openings:

* `Transition.checkShapes_eq_ok_iff` — the witnesses fit their trees;
* `Transition.checkRoots_eq_ok_iff` — the claims fold to the roots.

An opening whose claims fold to the root of a tree over records states those records
(`Opening.holds_of_root`), and one that states them folds to the root
(`Opening.foldsTo_of_holds`).  The first needs that digests do not collide, the second
that the witnesses are the tree's own.
-/

namespace AmmRollup

/-- What a step claims of one tree: nothing, one leaf, or two at once. -/
inductive Opening (ρ : Type) where
  | untouched
  | single (witness : Witness) (prior : Option ρ)
  | double (witness : DoubleWitness) (first second : Option ρ)

namespace Opening

variable {ρ : Type}

/-- The witness fits a tree of a depth, and two leaves are distinct. -/
def Fits (depth : Nat) : Opening ρ → Prop
  | untouched => True
  | single w _ => w.siblings.length = depth
  | double w _ _ => w.Fits depth ∧ w.indexes.1 ≠ w.indexes.2

/-- The flags of a double witness are the ones that its two paths call for. -/
def Flagged : Opening ρ → Prop
  | untouched | single _ _ => True
  | double w _ _ => w.meets = w.expectedFlags

/-- The claims are the records at the indexes of the witness. -/
def Holds (records : Nat → Option ρ) : Opening ρ → Prop
  | untouched => True
  | single w prior => prior = records w.index.toNat
  | double w first second =>
      first = records w.indexes.1.toNat ∧ second = records w.indexes.2.toNat

/-- The witness opens the tree over some leaves. -/
def Opens (leaves : Nat → Bytes32) (depth : Nat) : Opening ρ → Prop
  | untouched => True
  | single w _ => w.Opens leaves depth
  | double w _ _ => w.Opens leaves depth

variable [Record ρ]

/-- The claims fold to a root. -/
def FoldsTo (root : Bytes32) : Opening ρ → Prop
  | untouched => True
  | single w prior => w.root (Record.leafOrEmpty prior) = root
  | double w first second =>
      w.root (Record.leafOrEmpty first) (Record.leafOrEmpty second) = root

/-- What checking the claims hashes. -/
def preimages : Opening ρ → Set Bytes
  | untouched => ∅
  | single w prior => w.preimages (Record.leafOrEmpty prior) ∪ leafPreimages prior
  | double w first second =>
      w.preimages (Record.leafOrEmpty first) (Record.leafOrEmpty second) ∪
        (leafPreimages first ∪ leafPreimages second)

variable {records : Nat → Option ρ} {depth : Nat} {o : Opening ρ}

/-- Claims that fold to the root of a tree state its records. -/
theorem holds_of_root [LawfulRecord ρ] {hashed : Set Bytes} (hc : CollisionFree hashed)
    (hrecords : treePreimages records depth ⊆ hashed) (hopening : o.preimages ⊆ hashed)
    (hd : depth ≤ 64) (hfits : o.Fits depth) (hflags : o.Flagged)
    (h : o.FoldsTo (nodeOver (leavesOf records) depth 0)) :
    o.Holds records ∧ o.Opens (leavesOf records) depth := by
  have hnodes := Set.subset_union_left.trans hrecords
  have hrecord (i : Nat) : leafPreimages (records i) ⊆ hashed :=
    fun _ hb => hrecords (.inr ⟨i, hb⟩)
  -- the root binds the leaves that are opened, and a leaf binds its record
  cases o with
  | untouched => exact ⟨trivial, trivial⟩
  | single w prior =>
      obtain ⟨hleaf, hopens⟩ := Witness.opens_of_root hc hnodes hfits
        (Set.subset_union_left.trans hopening) h
      rw [← Witness.toNat_index (hfits.trans_le hd)] at hleaf
      exact ⟨hc.leafOrEmpty_inj (Set.subset_union_right.trans hopening) (hrecord _) hleaf, hopens⟩
  | double w first second =>
      obtain ⟨hfirst, hsecond, hopens⟩ := DoubleWitness.opens_of_root hc hnodes hfits.1 hd hflags
        hfits.2 (Set.subset_union_left.trans hopening) h
      rw [← hfits.1.toNat_indexes_fst hd] at hfirst
      rw [← hfits.1.toNat_indexes_snd hd] at hsecond
      have hclaims := Set.subset_union_right.trans hopening
      exact ⟨⟨hc.leafOrEmpty_inj (Set.subset_union_left.trans hclaims) (hrecord _) hfirst,
        hc.leafOrEmpty_inj (Set.subset_union_right.trans hclaims) (hrecord _) hsecond⟩, hopens⟩

/-- Claims that state the records of a tree fold to its root, when the witness is its own. -/
theorem foldsTo_of_holds (hd : depth ≤ 64) (hfits : o.Fits depth) (h : o.Holds records)
    (hopens : o.Opens (leavesOf records) depth) :
    o.FoldsTo (nodeOver (leavesOf records) depth 0) := by
  -- a record that stands where it is claimed folds to what the tree has, as writing it changes
  -- nothing
  cases o with
  | untouched => trivial
  | single w prior =>
      have hprior : Record.leafOrEmpty prior = leavesOf records (pathPosition w.siblings) := by
        rw [leavesOf, ← Witness.toNat_index (hfits.trans_le hd), ← h]
      rw [FoldsTo, Witness.Opens.root_eq hopens, hprior, Function.update_eq_self]
  | double w first second =>
      have hfirst : Record.leafOrEmpty first = leavesOf records (pathPosition w.first) := by
        rw [leavesOf, ← hfits.1.toNat_indexes_fst hd, ← h.1]
      have hsecond : Record.leafOrEmpty second = leavesOf records (pathPosition w.second) := by
        rw [leavesOf, ← hfits.1.toNat_indexes_snd hd, ← h.2]
      rw [FoldsTo, DoubleWitness.Opens.root_eq hopens, hfirst, hsecond, Function.update_eq_self,
        Function.update_eq_self]

/-- Checking a claim that states a record of a tree hashes what the tree does. -/
theorem preimages_single_subset {w : Witness} {prior : Option ρ} (hd : depth ≤ 64)
    (hfits : (single w prior).Fits depth) (h : (single w prior).Holds records)
    (hopens : (single w prior).Opens (leavesOf records) depth) :
    (single w prior).preimages ⊆ treePreimages records depth := by
  have hprior : prior = records (pathPosition w.siblings) := by
    rw [← Witness.toNat_index (hfits.trans_le hd)]
    exact h
  rw [hprior]
  exact Set.union_subset_union (Witness.Opens.preimages_subset hopens) fun _ hb => ⟨_, hb⟩

/-- Checking two claims at once hashes what the tree does, when the second path is the tree's own as
well. -/
theorem preimages_double_subset {w : DoubleWitness} {first second : Option ρ} (hd : depth ≤ 64)
    (hfits : (double w first second).Fits depth) (h : (double w first second).Holds records)
    (hopens : (double w first second).Opens (leavesOf records) depth)
    (hsecond : (⟨w.second⟩ : Witness).Opens (leavesOf records) depth) :
    (double w first second).preimages ⊆ treePreimages records depth := by
  obtain ⟨hfirst, rfl⟩ := h
  subst hfirst
  rw [hfits.1.toNat_indexes_fst hd, hfits.1.toNat_indexes_snd hd]
  refine Set.union_subset_union (Set.union_subset ?_ hsecond.preimages_subset) ?_
  -- above the branches the paths are one, so folding both hashes what the tree does
  · have hjoined := hopens.joined (leavesOf records (pathPosition w.second))
    rw [Function.update_eq_self] at hjoined
    have hfold := foldPreimages_pathOver (f := leavesOf records) depth 0 (pathPosition w.first)
      (Nat.zero_add depth).le
    rwa [← hjoined] at hfold
  · rintro bytes (hb | hb)
    · exact ⟨_, hb⟩
    · exact ⟨_, hb⟩

end Opening

/-- Claims about a state tree that fold to its root state its records. -/
theorem View.holds_of_root {ρ : Type} [Record ρ] [LawfulRecord ρ] (view : View ρ) {o : Opening ρ}
    {r : Records} {hashed : Set Bytes} (hc : CollisionFree hashed) (hr : r.preimages ⊆ hashed)
    (ho : o.preimages ⊆ hashed) (hfits : o.Fits view.depth) (hflags : o.Flagged)
    (h : o.FoldsTo (view.root r.roots)) :
    o.Holds (view.records r) ∧ o.Opens (leavesOf (view.records r)) view.depth := by
  rw [view.root_roots] at h
  exact Opening.holds_of_root hc ((view.preimages_subset r).trans hr) ho view.depth_le hfits
    hflags h

/-! ## Openings of a step

Each method claims records of some of the four trees, by one witness a tree.  `Transition.Each`
states something of all four openings at once; the methods differ in what they open, and nothing
further is said about them separately.
-/

/-- The record of an account's amount of a token. -/
def accountRecord? (account : Address) (token : Token) (amount : Option Amount) :
    Option AccountRecord :=
  amount.map (AccountRecord.mk account token)

/-- The record of an account's points in a pool. -/
def pointsRecord? (account : Address) (pool : Pool) (points : Option Points) : Option Liquidity :=
  points.map (Liquidity.mk account pool.base pool.quote)

/-- The opening of an account's balances in a pair. -/
def pairOpening (w : DoubleWitness) (account : Address) (base quote : Token)
    (balances : PairBalances) : Opening AccountRecord :=
  .double w (accountRecord? account base balances.base)
    (accountRecord? account quote balances.quote)

namespace Transition

/-- What a step claims of the balances tree. -/
def balanceOpening : Transition → Opening AccountRecord
  | .genesis => .untouched
  | .deposit a =>
      .single a.witness (accountRecord? a.deposit.account a.deposit.token a.priorBalance)
  | .burn a => .single a.balanceWitness (accountRecord? a.owner a.token a.priorBalance)
  | .createPool a => pairOpening a.balanceWitness a.provider a.base a.quote a.balances
  | .provideLiquidity ⟨c, _, _, _, _⟩ | .removeLiquidity ⟨c, _, _, _, _, _⟩
  | .buy ⟨c, _, _, _⟩ | .sell ⟨c, _, _, _⟩ =>
      pairOpening c.balanceWitness c.account c.pool.base c.pool.quote c.balances

/-- What a step claims of the liquidities tree. -/
def liquidityOpening : Transition → Opening Liquidity
  | .createPool a => .single a.liquidityWitness none
  | .provideLiquidity ⟨c, p, _, _, _⟩ | .removeLiquidity ⟨c, p, _, _, _, _⟩ =>
      .single p.witness (pointsRecord? c.account c.pool p.prior)
  | .genesis | .deposit _ | .burn _ | .buy _ | .sell _ => .untouched

/-- What a step claims of the pools tree. -/
def poolOpening : Transition → Opening Pool
  | .createPool a => .single a.poolWitness none
  | .provideLiquidity ⟨c, _, _, _, _⟩ | .removeLiquidity ⟨c, _, _, _, _, _⟩
  | .buy ⟨c, _, _, _⟩ | .sell ⟨c, _, _, _⟩ => .single c.poolWitness (some c.pool)
  | .genesis | .deposit _ | .burn _ => .untouched

/-- What a step claims of the burns tree. -/
def burnOpening : Transition → Opening AccountRecord
  | .burn a => .single a.burnWitness (accountRecord? a.owner a.token a.priorBurned)
  | .genesis | .deposit _ | .createPool _ | .provideLiquidity _ | .removeLiquidity _ | .buy _
  | .sell _ => .untouched

/-- A deposit is the next link of the chain of deposits. -/
def Linked : Transition → Prop
  | .deposit a => nextDepositHead a.currentHead a.deposit = a.expectedHead
  | _ => True

/-- A statement about what a step claims of each of the four trees. -/
structure Each (t : Transition)
    (P : ∀ {ρ : Type} [Record ρ] [LawfulRecord ρ], View ρ → Opening ρ → Prop) : Prop where
  balances : P View.balances t.balanceOpening
  liquidities : P View.liquidities t.liquidityOpening
  pools : P View.pools t.poolOpening
  burns : P View.burns t.burnOpening

theorem each_iff {t : Transition}
    {P : ∀ {ρ : Type} [Record ρ] [LawfulRecord ρ], View ρ → Opening ρ → Prop} :
    t.Each P ↔ P View.balances t.balanceOpening ∧ P View.liquidities t.liquidityOpening ∧
      P View.pools t.poolOpening ∧ P View.burns t.burnOpening :=
  ⟨fun h => ⟨h.balances, h.liquidities, h.pools, h.burns⟩, fun ⟨hb, hl, hp, hu⟩ => ⟨hb, hl, hp, hu⟩⟩

section

variable {t : Transition}
  {P Q : ∀ {ρ : Type} [Record ρ] [LawfulRecord ρ], View ρ → Opening ρ → Prop}

theorem Each.mp (h : t.Each P)
    (imp : ∀ {ρ : Type} [Record ρ] [LawfulRecord ρ] (view : View ρ) (o : Opening ρ),
      P view o → Q view o) : t.Each Q :=
  ⟨imp _ _ h.balances, imp _ _ h.liquidities, imp _ _ h.pools, imp _ _ h.burns⟩

theorem Each.and (hp : t.Each P) (hq : t.Each Q) : t.Each fun view o => P view o ∧ Q view o :=
  ⟨⟨hp.balances, hq.balances⟩, ⟨hp.liquidities, hq.liquidities⟩, ⟨hp.pools, hq.pools⟩,
    ⟨hp.burns, hq.burns⟩⟩

end

/-- The witnesses of a step fit their trees. -/
def Fits (t : Transition) : Prop := t.Each fun view o => o.Fits view.depth

/-- The claims of a step are the records at the indexes of its witnesses. -/
def Holds (t : Transition) (r : Records) : Prop := t.Each fun view o => o.Holds (view.records r)

/-- The witnesses of a step open the trees over some records. -/
def Opens (t : Transition) (r : Records) : Prop :=
  t.Each fun view o => o.Opens (leavesOf (view.records r)) view.depth

/-- The claims of a step fold to some roots. -/
def FoldsTo (t : Transition) (roots : StateRoots) : Prop :=
  t.Each fun view o => o.FoldsTo (view.root roots)

/-- What checking the claims of a step hashes. -/
def preimages (t : Transition) : Set Bytes :=
  t.balanceOpening.preimages ∪ t.liquidityOpening.preimages ∪ t.poolOpening.preimages ∪
    t.burnOpening.preimages

/-! ## Checks

The checks of a step, put as conditions on its openings: that the witnesses fit their trees, and
that the claims fold to the roots.
-/

theorem checkShape_eq_ok_iff {w : Witness} {height : Nat} (hh : 0 < height) :
    checkShape w height = .ok () ↔ w.siblings.length = height - 1 := by
  rw [checkShape, mapError_eq_ok_iff, Witness.checkHeight, Witness.height]
  split
  · next h => exact iff_of_true rfl (by omega)
  · next h => exact iff_of_false (by simp) (by omega)

/-- A witness of two leaves passes when its paths fit and lead to different leaves. -/
theorem checkPairShape_eq_ok_iff {w : DoubleWitness} {height : Nat} :
    checkPairShape w height = .ok () ↔ w.Fits (height - 1) ∧ w.indexes.1 ≠ w.indexes.2 := by
  simp only [checkPairShape, check_bind_eq_ok_iff, mapError_eq_ok_iff,
    DoubleWitness.checkHeight_eq_ok_iff]
  split
  · next h => simp [h, throw, throwThe, MonadExceptOf.throw]
  · next h => simp [h, pure, Except.pure]

theorem checkRoot_eq_ok_iff {tree : StateTree} {asserted computed : Bytes32} :
    checkRoot tree asserted computed = .ok () ↔ computed = asserted := by
  rw [checkRoot]
  split
  · next h => exact iff_of_true rfl h.symm
  · next h => exact iff_of_false (by simp) (Ne.symm h)

variable {t : Transition}

/-- A step passes the checks of its witnesses when each of them fits its tree. -/
theorem checkShapes_eq_ok_iff :
    t.checkShapes = .ok () ↔ t.Fits := by
  rw [Fits, each_iff]
  cases t <;>
    simp (disch := decide) only [checkShapes, check_bind_eq_ok_iff, checkShape_eq_ok_iff,
      checkPairShape_eq_ok_iff, balanceOpening, liquidityOpening, poolOpening, burnOpening,
      pairOpening, Opening.Fits, View.balances, View.liquidities, View.pools, View.burns,
      true_and, and_true, and_comm, and_assoc, and_left_comm]

/-- A step passes the checks of its claims when those of each tree fold to its root. -/
theorem checkRoots_eq_ok_iff {roots : StateRoots} :
    t.checkRoots roots = .ok () ↔ t.FoldsTo roots ∧ t.Linked := by
  rw [FoldsTo, each_iff]
  cases t <;>
    simp only [checkRoots, PoolClaim.checkPoolRoot, PoolClaim.checkPointsRoot,
      PoolClaim.checkBalancesRoot, check_bind_eq_ok_iff, checkRoot_eq_ok_iff, balanceOpening,
      liquidityOpening, poolOpening, burnOpening, pairOpening, Opening.FoldsTo, Linked,
      View.balances, View.liquidities, View.pools, View.burns, accountLeaf, accountRecord?,
      pointsLeaf, pointsRecord?, Record.leafOrEmpty,
      true_and, and_true, and_comm, and_assoc, and_left_comm]

/-! ## Claims and records

The two sides of a claim.  As far as nothing collides, a claim that folds to the root is true,
and the witness is the tree's own; and a true claim with such a witness folds to the root.  For
two leaves at once the first needs the flags to be as the paths call for.
-/

theorem each_preimages (t : Transition) : t.Each fun _ o => o.preimages ⊆ t.preimages :=
  ⟨fun _ h => .inl (.inl (.inl h)), fun _ h => .inl (.inl (.inr h)), fun _ h => .inl (.inr h),
    fun _ h => .inr h⟩

/-- Only the balances of a pair are opened two at a time, and only there flags matter. -/
theorem each_flagged (h : t.balanceOpening.Flagged) : t.Each fun _ o => o.Flagged :=
  ⟨h, by cases t <;> trivial, by cases t <;> trivial, by cases t <;> trivial⟩

/-- Claims that fold to the roots of trees over records state those records, and the
witnesses are the trees' own. -/
theorem holds_of_foldsTo {r : Records} {hashed : Set Bytes} (hc : CollisionFree hashed)
    (hr : r.preimages ⊆ hashed) (ht : t.preimages ⊆ hashed) (hfits : t.Fits)
    (hflags : t.balanceOpening.Flagged) (h : t.FoldsTo r.roots) : t.Holds r ∧ t.Opens r := by
  have hboth : t.Each fun view o =>
      o.Holds (view.records r) ∧ o.Opens (leavesOf (view.records r)) view.depth := by
    refine ((Each.and hfits h).and ((each_preimages t).and (each_flagged hflags))).mp ?_
    rintro ρ _ _ view o ⟨⟨hfit, hfold⟩, hsub, hflag⟩
    exact view.holds_of_root hc hr (hsub.trans ht) hfit hflag hfold
  exact ⟨hboth.mp fun _ _ h => h.1, hboth.mp fun _ _ h => h.2⟩

/-- Beside the balances, no claim rests on flags. -/
theorem holds_beside {r : Records} {hashed : Set Bytes} (hc : CollisionFree hashed)
    (hr : r.preimages ⊆ hashed) (ht : t.preimages ⊆ hashed) (hfits : t.Fits)
    (h : t.FoldsTo r.roots) : t.liquidityOpening.Holds r.liquidities ∧
      t.poolOpening.Holds r.pools ∧ t.burnOpening.Holds r.burns := by
  have hsub := t.each_preimages.mp (Q := fun _ o => o.preimages ⊆ hashed) fun _ _ h => h.trans ht
  have hliquidities : t.liquidityOpening.Flagged := by cases t <;> trivial
  have hpools : t.poolOpening.Flagged := by cases t <;> trivial
  have hburns : t.burnOpening.Flagged := by cases t <;> trivial
  exact ⟨(View.liquidities.holds_of_root hc hr hsub.liquidities hfits.liquidities hliquidities
      h.liquidities).1,
    (View.pools.holds_of_root hc hr hsub.pools hfits.pools hpools h.pools).1,
    (View.burns.holds_of_root hc hr hsub.burns hfits.burns hburns h.burns).1⟩

/-- Claims that state the records of trees fold to their roots. -/
theorem foldsTo_of_holds {r : Records} (hfits : t.Fits) (h : t.Holds r) (hopens : t.Opens r) :
    t.FoldsTo r.roots := by
  refine ((Each.and hfits h).and hopens).mp ?_
  rintro ρ _ _ view o ⟨⟨hfit, hhold⟩, hopen⟩
  rw [view.root_roots]
  exact Opening.foldsTo_of_holds view.depth_le hfit hhold hopen

end Transition

end AmmRollup
