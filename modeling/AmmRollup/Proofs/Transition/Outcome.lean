import AmmRollup.Proofs.Transition.Opening

/-!
# AmmRollup.Proofs.Transition.Outcome

What an accepted step leaves.  In every tree it writes the leaves that it has opened and
no others, and the root it gives is the one that its witness computes from them
(`Transition.outcome_gives`).  When the witnesses open the trees over some records,
these are the roots of the trees over the records after the writes, and replaying the
writes gives them too (`Transition.outcome_roots`, `Transition.outcome_replay`).
-/

namespace AmmRollup

/-! ## One tree

What a step does with an opened tree is a rewriting of the leaves it opened, and the root is
computed by the same witness that checked the claim.
-/

/-- What becomes of an opened tree: its writes, and its root. -/
inductive Opening.Gives {ρ : Type} [Record ρ] (before : Bytes32) :
    Opening ρ → List (Nat × ρ) → Bytes32 → Prop
  | untouched : Gives before .untouched [] before
  | single (w : Witness) (prior : Option ρ) (r : ρ) :
      Gives before (.single w prior) [(w.index.toNat, r)] (w.root (Record.leaf r))
  | double (w : DoubleWitness) (first second : Option ρ) (r s : ρ) :
      Gives before (.double w first second)
        [(w.indexes.1.toNat, r), (w.indexes.2.toNat, s)] (w.root (Record.leaf r) (Record.leaf s))

namespace Opening

/-- An opening of what is written in place of what was claimed. -/
def rewritten {ρ : Type} (writes : List (Nat × ρ)) : Opening ρ → Opening ρ
  | untouched => untouched
  | single w _ => single w (writes[0]?.map Prod.snd)
  | double w _ _ => double w (writes[0]?.map Prod.snd) (writes[1]?.map Prod.snd)

variable {ρ : Type} [Record ρ] {records : Nat → Option ρ} {depth : Nat} {o : Opening ρ}
  {writes : List (Nat × ρ)} {before after : Bytes32}

/-- The root of a tree that was opened is that of the tree over the records written. -/
theorem Gives.root_eq (h : o.Gives before writes after)
    (hbefore : before = nodeOver (leavesOf records) depth 0) (hd : depth ≤ 64)
    (hfits : o.Fits depth) (hopens : o.Opens (leavesOf records) depth) :
    after = nodeOver (leavesOf (writeAt records writes)) depth 0 := by
  cases h with
  | untouched => exact hbefore
  | single w prior r =>
      rw [Witness.Opens.root_eq hopens, ← Witness.toNat_index (hfits.trans_le hd)]
      simp only [writeAt, List.foldl_cons, List.foldl_nil, leavesOf_update, Record.leafOrEmpty]
  | double w first second r s =>
      rw [DoubleWitness.Opens.root_eq hopens, ← hfits.1.toNat_indexes_fst hd,
        ← hfits.1.toNat_indexes_snd hd,
        Function.update_comm fun h => hfits.2 (UInt64.toNat_inj.mp h.symm)]
      simp only [writeAt, List.foldl_cons, List.foldl_nil, leavesOf_update, Record.leafOrEmpty]

omit [Record ρ] in
theorem Fits.index_lt {w : Witness} {prior : Option ρ} (hd : depth ≤ 64)
    (h : (single w prior).Fits depth) : w.index.toNat < 2 ^ depth := by
  rw [Witness.toNat_index (h.trans_le hd), ← h]
  exact pathPosition_lt w.siblings

omit [Record ρ] in
theorem Fits.indexes_lt {w : DoubleWitness} {first second : Option ρ} (hd : depth ≤ 64)
    (h : (double w first second).Fits depth) :
    w.indexes.1.toNat < 2 ^ depth ∧ w.indexes.2.toNat < 2 ^ depth := by
  rw [h.1.toNat_indexes_fst hd, h.1.toNat_indexes_snd hd]
  have hfirst := pathPosition_lt w.first
  have hsecond := pathPosition_lt w.second
  rw [h.1.first] at hfirst
  rw [h.1.second] at hsecond
  exact ⟨hfirst, hsecond⟩

/-- An opened tree is written within its range. -/
theorem Gives.lt (h : o.Gives before writes after) (hd : depth ≤ 64) (hfits : o.Fits depth) :
    ∀ w ∈ writes, w.1 < 2 ^ depth := by
  cases h with
  | untouched => simp
  | single w prior r => simpa using Fits.index_lt hd hfits
  | double w first second r s =>
      obtain ⟨hfirst, hsecond⟩ := Fits.indexes_lt hd hfits
      simpa using ⟨hfirst, hsecond⟩

end Opening

/-! ## Four trees

An accepted step writes, in each tree that it opens, the leaves that it opened, and passes the
other roots on.  So its roots are those of the records after its writes, and replaying the writes
gives them.
-/

attribute [ext] StateRoots

theorem writesOf_mem {ρ : Type} {record? : LeafValue → Option ρ} {writes : List LeafWrite}
    {w : LeafWrite} {r : ρ} (hw : w ∈ writes) (hr : record? w.leaf = some r) :
    (w.index.toNat, r) ∈ writesOf record? writes :=
  List.mem_filterMap.mpr ⟨w, hw, by rw [hr, Option.map_some]⟩

/-- The root that an opened state tree is given is that of the records after the writes. -/
theorem View.root_eq_of_gives {ρ : Type} [Record ρ] (view : View ρ) {opening : Opening ρ}
    {r : Records} {o : Outcome}
    (h : opening.Gives (view.root r.roots) (writesOf view.record? o.writes) (view.root o.roots))
    (hfits : opening.Fits view.depth)
    (hopens : opening.Opens (leavesOf (view.records r)) view.depth) :
    view.root o.roots = view.root (r.writeAll o.writes).roots := by
  rw [view.root_roots, view.records_writeAll]
  exact h.root_eq (view.root_roots r) view.depth_le hfits hopens

namespace Transition

variable {v : Verifiers} {roots : StateRoots} {earlier : Option Proof} {t : Transition}
  {o : Outcome} {r : Records}

/-- What computing the roots of an outcome hashes. -/
def outcomePreimages (t : Transition) (o : Outcome) : Set Bytes :=
  (t.balanceOpening.rewritten (writesOf LeafValue.balance? o.writes)).preimages ∪
    (t.liquidityOpening.rewritten (writesOf LeafValue.liquidity? o.writes)).preimages ∪
    (t.poolOpening.rewritten (writesOf LeafValue.pool? o.writes)).preimages ∪
    (t.burnOpening.rewritten (writesOf LeafValue.burn? o.writes)).preimages

/-- A step is accepted when it passes its checks and its amounts can be computed. -/
theorem execute_eq_ok_iff :
    t.execute v roots earlier = .ok o ↔
      (t ≠ .genesis → checkEarlier v roots earlier = .ok ()) ∧ t.Fits ∧
        t.checkSignature v = .ok () ∧ (t.FoldsTo roots ∧ t.Linked) ∧ t.outcome roots = .ok o := by
  by_cases ht : t = .genesis
  · simp only [execute, ne_eq, ht, not_true_eq_false, if_false, check_bind_eq_ok_iff,
      checkShapes_eq_ok_iff, checkRoots_eq_ok_iff, mapError_eq_ok_iff, false_imp_iff, true_and]
  · simp only [execute, ne_eq, ht, not_false_eq_true, if_true, check_bind_eq_ok_iff,
      checkShapes_eq_ok_iff, checkRoots_eq_ok_iff, mapError_eq_ok_iff, forall_const]

/-- A step whose witnesses fit is refused for its signature first, then for its claims. -/
theorem execute_of_fits (hearlier : checkEarlier v roots earlier = .ok ()) (hfits : t.Fits) :
    t.execute v roots earlier = (do
      t.checkSignature v
      t.checkRoots roots
      (t.outcome roots).mapError .amount) := by
  simp only [execute, hearlier, checkShapes_eq_ok_iff.mpr hfits]
  split <;> rfl

/-- An accepted step writes the leaves it has opened, tree by tree. -/
theorem outcome_gives (h : t.outcome roots = .ok o) :
    t.Each fun view opening =>
      opening.Gives (view.root roots) (writesOf view.record? o.writes) (view.root o.roots) := by
  -- one case a method: a method writes the trees it opens and passes on the roots of the others
  cases t with
  | genesis =>
      simp only [outcome, pure_eq_ok_iff] at h
      subst h
      exact ⟨.untouched, .untouched, .untouched, .untouched⟩
  | deposit a =>
      simp only [outcome, bind_eq_ok_iff, pure_eq_ok_iff] at h
      obtain ⟨amount, -, rfl⟩ := h
      exact ⟨.single _ _ _, .untouched, .untouched, .untouched⟩
  | burn a =>
      simp only [outcome, bind_eq_ok_iff, pure_eq_ok_iff] at h
      obtain ⟨balance, -, burned, -, rfl⟩ := h
      exact ⟨.single _ _ _, .untouched, .untouched, .single _ _ _⟩
  | createPool a | provideLiquidity a | removeLiquidity a =>
      simp only [outcome, bind_eq_ok_iff, pure_eq_ok_iff] at h
      obtain ⟨after, -, rfl⟩ := h
      exact ⟨.double _ _ _ _ _, .single _ _ _, .single _ _ _, .untouched⟩
  | buy a | sell a =>
      simp only [outcome, bind_eq_ok_iff, pure_eq_ok_iff] at h
      obtain ⟨after, -, rfl⟩ := h
      exact ⟨.double _ _ _ _ _, .untouched, .single _ _ _, .untouched⟩

/-- The writes of an accepted step lie in their trees. -/
theorem outcome_inRange (hfits : t.Fits) (h : t.outcome roots = .ok o) :
    ∀ w ∈ o.writes, w.InRange := by
  obtain ⟨hb, hl, hp, hu⟩ := (Each.and hfits (outcome_gives h)).mp
    (Q := fun view _ => ∀ w ∈ writesOf view.record? o.writes, w.1 < 2 ^ view.depth)
    fun view _ h => h.2.lt view.depth_le h.1
  rintro ⟨index, leaf⟩ hw
  cases leaf with
  | balance a => exact hb _ (writesOf_mem hw rfl)
  | liquidity l => exact hl _ (writesOf_mem hw rfl)
  | pool p => exact hp _ (writesOf_mem hw rfl)
  | burn a => exact hu _ (writesOf_mem hw rfl)

/-- The roots that an accepted step gives are those of the records after its writes. -/
theorem outcome_roots (hfits : t.Fits) (hopens : t.Opens r) (h : t.outcome r.roots = .ok o) :
    o.roots = (r.writeAll o.writes).roots := by
  have heach : t.Each fun view _ => view.root o.roots = view.root (r.writeAll o.writes).roots := by
    refine ((Each.and hfits hopens).and (outcome_gives h)).mp ?_
    rintro ρ _ _ view opening ⟨⟨hfit, hopen⟩, hgives⟩
    exact view.root_eq_of_gives hgives hfit hopen
  exact StateRoots.ext heach.balances heach.liquidities heach.pools heach.burns

/-- Replaying the writes of an accepted step gives its roots. -/
theorem outcome_replay {s : StateTrees} (hs : s.Stores r) (hfits : t.Fits) (hopens : t.Opens r)
    (h : t.outcome r.roots = .ok o) :
    ∃ s', s.replay o.writes = .ok s' ∧ s'.Stores (r.writeAll o.writes) ∧ s'.roots = o.roots := by
  obtain ⟨s', hreplay, hs'⟩ := hs.replay (outcome_inRange hfits h)
  exact ⟨s', hreplay, hs', by rw [hs'.roots_eq, outcome_roots hfits hopens h]⟩

end Transition

/-! ## A first deposit

A concrete step on unwritten trees, for the witnesses of the general results: its digests are
computed once, here, and compared as numbers.
-/

/-- What an account first deposits. -/
def firstRecord : AccountRecord := ⟨⟨List.replicate 26 0, rfl⟩, .ofWord 1, 5⟩

/-- The records that it leaves. -/
def depositedRecords : Records :=
  { Records.empty with balances := Function.update (fun _ => none) 0 (some firstRecord) }

/-- The digests above it, computed. -/
theorem fingerprints_deposited : (Record.leaf firstRecord ::
    foldNodes (Record.leaf firstRecord) (emptyPath 0 (balancesHeight - 1))).map fingerprint =
    [48198, 39049, 20912, 52974, 50154, 23365, 5059, 64113, 1448, 25816, 39744, 56390, 1177, 51509,
      2865, 24622, 41534, 18862, 29280, 31640, 38629, 35076, 33025] := by
  decide +kernel

theorem mem_frontStrings_of_deposited {bytes : Bytes} (h : bytes ∈ depositedRecords.preimages) :
    bytes ∈ frontStrings firstRecord (balancesHeight - 1) := by
  obtain ((h | h) | h) | h := h
  · exact mem_frontStrings_of_tree (.inr rfl) (by decide) h
  all_goals exact List.mem_append_left _ (mem_emptyStrings_of_tree (by decide) h)

/-- Verifiers that accept everything. -/
def Verifiers.trusting : Verifiers := ⟨fun _ => true, fun _ _ _ => true⟩

/-- The proof of a chain that starts at some roots. -/
def Proof.start (roots : StateRoots) : Proof := ⟨.genesis, roots, roots, []⟩

theorem checkEarlier_start (roots : StateRoots) :
    checkEarlier .trusting roots (some (.start roots)) = .ok () := by
  simp [checkEarlier, Proof.start, Verifiers.trusting]

end AmmRollup
