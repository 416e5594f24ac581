import AmmRollup.Proofs.Rollup.Asked
import AmmRollup.Proofs.Rollup.Reachable

/-!
# AmmRollup.Proofs.Rollup.Refine

The rollup refines its ledger.  A step that is built and applied at once passes every
check of its witnesses, indexes and claims, and what it computes is committed.  So an
intent is accepted exactly when it is signed and the ledger allows it; then the lookups
show what the ledger makes of them, and otherwise they are as before
(`RollupState.build_apply_refines`).

To open a pool twice is the one thing that a built step claims against the state.  Its
refusal is the only one that rests on digests.
-/

namespace AmmRollup

/-- The verifiers accept the signature that an intent needs. -/
def Intent.SignedUnder (v : Verifiers) (i : Intent) : Prop :=
  ∀ s ∈ i.signed?, v.signatures s.signer s.message s.signature = true

namespace RollupState

variable {s s' : RollupState} {i : Intent} {t : Transition} {v : Verifiers}

/-- A step that was asked for with a signature passes the check of it. -/
theorem checkSignature_of_signed (ht : t.signed? = i.signed?) (h : i.SignedUnder v) :
    t.checkSignature v = .ok () := by
  rw [Transition.checkSignature, ht]
  split
  · rfl
  · next signed hs => rw [if_pos (h signed hs)]

/-- A step that was asked for without its signature is refused. -/
theorem checkSignature_of_unsigned (ht : t.signed? = i.signed?) (h : ¬ i.SignedUnder v) :
    t.checkSignature v = .error .signatureInvalid := by
  rw [Transition.checkSignature, ht]
  split
  · next hs => exact absurd (fun signed hm => nomatch hs.symm.trans hm) h
  · next signed hs =>
      rw [if_neg fun hverified => h fun other hm => ?_]
      rwa [← Option.some.inj (hs.symm.trans hm)]

/-! ## Occupied leaves

A step that opens a pool claims that its leaves are unwritten.  Where one is not, the claim folds
to another root, as the unwritten leaf is no record's.
-/

/-- The unwritten leaf folds to the root just where there is no record. -/
theorem checkRoot_unwritten {depth : Nat} {κ ρ : Type} [DecidableEq κ] [Record ρ] [LawfulRecord ρ]
    {table : Table depth κ ρ} {keyOf : ρ → κ} {key : κ} {w : Witness} {prior : Option ρ}
    (h : table.Valid keyOf) (hd : depth ≤ 64) (hw : table.OpenedAt key w) {hashed : Set Bytes}
    (hc : CollisionFree hashed) (hrecords : treePreimages table.records.get? depth ⊆ hashed)
    (hclaim : (Opening.single w prior).preimages ⊆ hashed) (hprior : prior = none)
    (tree : StateTree) :
    checkRoot tree table.root (w.root emptyLeaf) =
      if (table.get? key).isSome then .error (.stateMismatch tree) else .ok () := by
  subst hprior
  rw [Table.root, h.stores.root_eq, Table.get?_eq hw.find]
  split
  · next hsome =>
      refine if_neg fun hroot => ?_
      have hholds := Opening.holds_of_root (o := .single w none) hc hrecords hclaim hd
        hw.opens.length_eq trivial hroot.symm
      rw [← hholds.1] at hsome
      contradiction
  · next hnone =>
      refine Transition.checkRoot_eq_ok_iff.mpr ?_
      exact Opening.foldsTo_of_holds (o := .single w none) hd hw.opens.length_eq
        (Option.not_isSome_iff_eq_none.mp hnone).symm hw.opens

/-- Opening a pool that exists, or that its provider has points of, is refused. -/
theorem checkRoots_of_occupied (h : s.Valid) {a : CreatePoolArgs}
    (hpool : s.pools.OpenedAt (a.base, a.quote) a.poolWitness)
    (hpoints : s.liquidities.OpenedAt (a.provider, a.base, a.quote) a.liquidityWitness)
    {tree : StateTree}
    (hvacant : s.ledger.vacant a.provider a.base a.quote = .error (.occupied tree))
    (hc : CollisionFree (s.records.preimages ∪ (Transition.createPool a).preimages)) :
    (Transition.createPool a).checkRoots s.roots = .error (.stateMismatch tree) := by
  have hclaims := Transition.each_preimages (.createPool a)
  have hpools := checkRoot_unwritten h.pools (by decide) hpool hc
    ((View.pools.preimages_subset s.records).trans Set.subset_union_left)
    (hclaims.pools.trans Set.subset_union_right) rfl .pools
  have hliquidities := checkRoot_unwritten h.liquidities (by decide) hpoints hc
    ((View.liquidities.preimages_subset s.records).trans Set.subset_union_left)
    (hclaims.liquidities.trans Set.subset_union_right) rfl .liquidities
  have hpoints? : (s.ledger.liquidity (a.provider, a.base, a.quote)).isSome =
      (s.liquidities.get? (a.provider, a.base, a.quote)).isSome := Option.isSome_map
  have hpool? : s.ledger.pool (a.base, a.quote) = s.pools.get? (a.base, a.quote) := rfl
  rw [Ledger.vacant, hpoints?, hpool?] at hvacant
  simp only [Transition.checkRoots, roots, hpools, hliquidities]
  -- the pool is looked at before the points, as the ledger does
  split at hvacant
  · next hsome =>
      rw [if_pos hsome]
      cases hvacant
      rfl
  · next hnone =>
      rw [if_neg hnone]
      split at hvacant
      · next hsome =>
          rw [if_pos hsome]
          cases hvacant
          rfl
      · contradiction

/-! ## Built steps

A built step has true claims and the state's own witnesses, so three things can refuse it: its
signature, an occupied leaf, and its amounts.  Each is taken by itself.
-/

namespace Asked

/-- A step that claims something against the state opens a pool twice, and is refused. -/
theorem vacant_or_occupied (h : s.Valid) (ha : s.Asked i t) :
    Vacant s i ∨ ∃ tree, s.ledger.apply i = .error (.occupied tree) ∧
      (CollisionFree (s.records.preimages ∪ t.preimages) →
        t.checkRoots s.roots = .error (.stateMismatch tree)) := by
  cases ha with
  | @createPool provider base quote baseAmount quoteAmount signature w u x hw hu hx =>
      rcases s.ledger.vacant_cases provider base quote with hvacant | ⟨tree, hvacant⟩
      · exact .inl (Ledger.vacant_eq_ok_iff.mp hvacant)
      · refine .inr ⟨tree, ?_, fun hc => checkRoots_of_occupied h hw hu hvacant hc⟩
        simp only [Ledger.apply, ledger_pair hx, hvacant]
        rfl
  | _ => exact .inl trivial

variable {earlier : Option Proof}

/-- A built step passes every check before the signature, so that alone refuses it. -/
theorem run_apply_of_unsigned (h : s.Valid) (ha : s.Asked i t)
    (hearlier : checkEarlier v s.roots earlier = .ok ()) (hsigned : ¬ i.SignedUnder v) :
    (apply v earlier t).run.run s = (.error (refused t .signatureInvalid), s) := by
  refine run_apply_of_error ?_
  rw [Transition.execute_of_fits hearlier ha.fits,
    checkSignature_of_unsigned (ha.signed?_eq h) hsigned]
  rfl

/-- Where it would open a pool twice, the claim of an unwritten leaf refuses it. -/
theorem run_apply_of_occupied (h : s.Valid) (ha : s.Asked i t)
    (hearlier : checkEarlier v s.roots earlier = .ok ()) (hsigned : i.SignedUnder v)
    {tree : StateTree} (hroots : t.checkRoots s.roots = .error (.stateMismatch tree)) :
    (apply v earlier t).run.run s = (.error (refused t (.stateMismatch tree)), s) := by
  refine run_apply_of_error ?_
  rw [Transition.execute_of_fits hearlier ha.fits,
    checkSignature_of_signed (ha.signed?_eq h) hsigned, hroots]
  rfl

/-- A signed step with true claims is accepted unless its amounts are refused. -/
theorem execute_of_vacant (h : s.Valid) (ha : s.Asked i t)
    (hearlier : checkEarlier v s.roots earlier = .ok ()) (hsigned : i.SignedUnder v)
    (hv : Vacant s i) : t.execute v s.roots earlier = (t.outcome s.roots).mapError .amount := by
  have hfolds := Transition.foldsTo_of_holds ha.fits (ha.holds h hv) ha.opens
  rw [← h.roots_eq] at hfolds
  rw [Transition.execute_of_fits hearlier ha.fits,
    checkSignature_of_signed (ha.signed?_eq h) hsigned,
    Transition.checkRoots_eq_ok_iff.mpr ⟨hfolds, ha.linked⟩]
  rfl

/-- A step whose leaves are vacant succeeds with the ledger and writes what the ledger does, or
fails with the ledger's error. -/
theorem run_apply_of_vacant (h : s.Valid) (ha : s.Asked i t)
    (hearlier : checkEarlier v s.roots earlier = .ok ()) (hsigned : i.SignedUnder v)
    (hv : Vacant s i) :
    (∃ e, s.ledger.apply i = .error (.amount e) ∧
      (apply v earlier t).run.run s = (.error (refused t (.amount e)), s)) ∨
    ∃ o written, s.ledger.apply i = .ok written.ledger ∧ WritesAll s o.writes written ∧
      (apply v earlier t).run.run s = (.ok o, written.counted t) := by
  have hexecute := ha.execute_of_vacant h hearlier hsigned hv
  have hagrees := ha.outcome_agrees h hv s.roots
  -- ledger and core refuse for the same amount, or both go on
  cases houtcome : t.outcome s.roots with
  | error e =>
      rw [houtcome] at hagrees hexecute
      cases happly : s.ledger.apply i with
      | ok l =>
          rw [happly] at hagrees
          cases hagrees
      | error f =>
          rw [happly] at hagrees
          cases hagrees
          exact .inl ⟨e, rfl, run_apply_of_error hexecute⟩
  | ok o =>
      rw [houtcome] at hagrees hexecute
      cases happly : s.ledger.apply i with
      | error f =>
          rw [happly] at hagrees
          cases hagrees
      | ok l =>
          rw [happly] at hagrees
          obtain ⟨hledger, hbound⟩ := hagrees
          rw [h.roots_eq] at houtcome
          obtain ⟨written, hcommit, hwrites⟩ :=
            h.commit_of_bound hbound (Transition.outcome_roots ha.fits ha.opens houtcome)
          refine .inr ⟨o, written, ?_, hwrites, ?_⟩
          · rw [hwrites.ledger_eq, hledger]
          · rw [run_apply_of_ok hexecute, run_commitStep_of_ok hcommit]

end Asked

/-! ## Refinement

The cases of a built step put together, against what the ledger does with the intent: it is
accepted by both, or refused by both for its amounts, or refused for its signature or for an
occupied leaf.
-/

/-- **Refinement.**  An intent that is built and applied at once, on a verifying proof that
ends at the current roots, is accepted exactly when it is signed and the ledger allows it.
The lookups then show what the ledger makes of them, and no key is touched that the intent
does not name.  What is refused leaves the lookups as they were, and is refused for the
signature, for the amount that the ledger refuses, or for opening a pool twice; never for
a witness, an index or a claim, nor by the commit. -/
theorem build_apply_refines (hs : s.Reachable) (hbuild : (build i).run.run s = (.ok t, s'))
    {p : Proof} (houtput : p.output = s.roots) (hproof : v.proofs p = true)
    (hc : ∀ tree, s.ledger.apply i = .error (.occupied tree) →
      CollisionFree (s'.records.preimages ∪ t.preimages))
    {r : Except Failure Outcome} {final : RollupState}
    (hrun : (apply v (some p) t).run.run s' = (r, final)) :
    ((∃ o, r = .ok o) ↔ i.SignedUnder v ∧ ∃ l, s.ledger.apply i = .ok l) ∧
    (∀ o, r = .ok o →
      s.ledger.apply i = .ok final.ledger ∧ Ledger.AgreeBeside i s.ledger final.ledger) ∧
    (∀ f, r = .error f → final.ledger = s.ledger ∧
      (¬ i.SignedUnder v ∧ f = refused t .signatureInvalid ∨
        i.SignedUnder v ∧
          ((∃ e, s.ledger.apply i = .error (.amount e) ∧ f = refused t (.amount e)) ∨
            ∃ tree, s.ledger.apply i = .error (.occupied tree) ∧
              f = refused t (.stateMismatch tree)))) := by
  have h := hs.valid
  obtain ⟨hvalid, hext, hasked⟩ := h.build_spec i
  rw [hbuild] at hvalid hext hasked
  have ha : s'.Asked i t := hasked t rfl
  have hledger : s'.ledger = s.ledger := h.ledger_extends hvalid hext
  have hroots : s'.roots = s.roots := by
    rw [hvalid.roots_eq, h.roots_eq, hext.records_eq]
  have hearlier : checkEarlier v s'.roots (some p) = .ok () := by
    simp [checkEarlier, houtput, hroots, hproof]
  -- building binds leaves only: the ledger is the one before, and so are the roots
  rw [← hledger] at hc ⊢
  by_cases hsigned : i.SignedUnder v
  · rcases ha.vacant_or_occupied hvalid with hv | ⟨tree, happly, hoccupied⟩
    · rcases ha.run_apply_of_vacant hvalid hearlier hsigned hv with
        ⟨e, happly, happlied⟩ | ⟨o, written, happly, -, happlied⟩
      · obtain ⟨rfl, rfl⟩ := Prod.mk.inj (hrun.symm.trans happlied)
        simp [happly, hsigned]
      · obtain ⟨rfl, rfl⟩ := Prod.mk.inj (hrun.symm.trans happlied)
        have hframe := Ledger.apply_frame happly
        simp [happly, hsigned, hframe]
    · have happlied := ha.run_apply_of_occupied hvalid hearlier hsigned (hoccupied (hc tree happly))
      obtain ⟨rfl, rfl⟩ := Prod.mk.inj (hrun.symm.trans happlied)
      simp [happly, hsigned]
  · obtain ⟨rfl, rfl⟩ :=
      Prod.mk.inj (hrun.symm.trans (ha.run_apply_of_unsigned hvalid hearlier hsigned))
    simp [hsigned]

/-- A first deposit is accepted, and its account has what it deposits. -/
theorem build_apply_refines_firstDeposit :
    ∃ t s' o final, (build (.deposit firstRecord)).run.run initial = (.ok t, s') ∧
      (apply .trusting (some (.start initial.roots)) t).run.run s' = (.ok o, final) ∧
      final.balance firstRecord.account firstRecord.token = some firstRecord.amount := by
  have happly : initial.ledger.apply (.deposit firstRecord) =
      .ok (Ledger.empty.setBalance firstRecord.account firstRecord.token firstRecord.amount) := rfl
  obtain ⟨t, s', hbuild⟩ :
      ∃ t s', (build (.deposit firstRecord)).run.run initial = (.ok t, s') := ⟨_, _, rfl⟩
  cases hrun : (apply .trusting (some (.start initial.roots)) t).run.run s' with
  | mk r final =>
      obtain ⟨haccepted, hafter, -⟩ := build_apply_refines .initial hbuild rfl rfl
        (fun tree h => nomatch happly.symm.trans h) hrun
      have hsigned : (Intent.deposit firstRecord).SignedUnder .trusting := fun _ _ => rfl
      obtain ⟨o, rfl⟩ := haccepted.mpr ⟨hsigned, _, happly⟩
      have hledger := Except.ok.inj (happly.symm.trans (hafter o rfl).1)
      refine ⟨t, s', o, final, hbuild, hrun, ?_⟩
      change final.ledger.balance firstRecord.key = _
      rw [← hledger]
      simp [Ledger.setBalance, AccountRecord.key]

/-! ## Deposits

What one deposit leads to, for the states that the instances start from.
-/

/-- What committing one balance at the leaf of its key leads to. -/
theorem Valid.commit_balance (h : s.Valid) {index : UInt64} {r : AccountRecord}
    (hfind : s.balances.find? r.key = some index.toNat) {roots : StateRoots}
    (hcommit : s.commit ⟨roots, [⟨index, .balance r⟩]⟩ = (.ok (), s')) :
    s' = { s with balances := s.balances.restore index.toNat (some r) } := by
  have hwrite : s.write ⟨index, .balance r⟩ =
      .ok ({ s with balances := s.balances.restore index.toNat (some r) },
        .balance index.toNat (s.balances.records.get? index.toNat)) := by
    have := h.balances.write_of_bound hfind r
    simp only [AccountRecord.key] at this
    simp only [write, this]
    rfl
  rw [commit, writeAll, hwrite] at hcommit
  simp only [writeAll] at hcommit
  split at hcommit
  · exact (Prod.mk.inj hcommit).2.symm
  · have := (Prod.mk.inj hcommit).1
    contradiction

/-- What building a deposit and applying it at once leads to: its account's balance is
credited at the leaf that it has or is given, and the deposit is counted. -/
theorem Valid.run_deposit (h : s.Valid) {earlier : Option Proof} {d : AccountRecord} {index : Nat}
    {balances : Table (balancesHeight - 1) (Address × Token) AccountRecord}
    (hindex : s.balances.index d.key = (.ok index, balances)) {after : Amount}
    (hcredit : credit (s.balance d.account d.token) d.amount = .ok after)
    (hearlier : checkEarlier v s.roots earlier = .ok ()) :
    ∃ t o, (build (.deposit d)).run.run s = (.ok t, { s with balances }) ∧
      (apply v earlier t).run.run { s with balances } = (.ok o,
        ({ s with balances := balances.restore index (some ⟨d.account, d.token, after⟩) } :
          RollupState).consumeDeposit (nextDepositHead s.depositHead d)) := by
  have hleaf : (balanceIndex d.account d.token).run.run s = (.ok index, { s with balances }) := by
    rw [run_balanceIndex, show s.balances.index (d.account, d.token) = _ from hindex]
    rfl
  obtain ⟨hbalances, -, hfind⟩ := h.balances.index_spec d.key
  rw [hindex] at hbalances hfind
  obtain ⟨t, hbuild⟩ : ∃ t, (build (.deposit d)).run.run s = (.ok t, { s with balances }) := by
    have hwitness : balances.witness index = .ok ⟨balances.tree.path index⟩ :=
      hbalances.witness_eq_ok (hfind index rfl)
    simp only [build]
    rw [run_bind, hleaf]
    simp only [run_get, hwitness]
    exact ⟨_, rfl⟩
  obtain ⟨hvalid, hext, hasked⟩ := h.build_spec (.deposit d)
  rw [hbuild] at hvalid hext hasked
  have ha : ({ s with balances } : RollupState).Asked (.deposit d) t := hasked t rfl
  have hledger := h.ledger_extends hvalid hext
  have hroots : ({ s with balances } : RollupState).roots = s.roots := by
    rw [hvalid.roots_eq, h.roots_eq, hext.records_eq]
  rw [← hroots] at hearlier
  -- the ledger accepts the deposit, so the built step is accepted
  have happly : Ledger.apply ({ s with balances } : RollupState).ledger (.deposit d) =
      .ok (s.ledger.setBalance d.account d.token after) := by
    have hbalance : s.ledger.balance d.key = s.balance d.account d.token := rfl
    simp only [hledger, Ledger.apply, hbalance, hcredit]
    rfl
  have hsigned : (Intent.deposit d).SignedUnder v := fun s hs => absurd hs (Option.not_mem_none s)
  rcases ha.run_apply_of_vacant hvalid hearlier hsigned trivial with
    ⟨e, herror, -⟩ | ⟨o, written, -, -, hrun⟩
  · rw [happly] at herror
    contradiction
  · refine ⟨t, o, hbuild, hrun.trans ?_⟩
    -- which outcome was committed is read off the step itself
    obtain ⟨hexecute, final, hcommit, hfinal⟩ := run_apply_eq_ok hrun
    cases ha with
    | @deposit _ w hw =>
        obtain ⟨-, -, -, -, houtcome⟩ := Transition.execute_eq_ok_iff.mp hexecute
        have hbalance : ({ s with balances } : RollupState).balance d.account d.token =
          s.balance d.account d.token := congrFun (congrArg Ledger.balance hledger) d.key
        simp only [Transition.outcome, hbalance, hcredit] at houtcome
        obtain rfl := Except.ok.inj houtcome
        have hsame : index = w.index.toNat :=
          Option.some.inj ((hfind index rfl).symm.trans hw.find)
        have hrestored := hvalid.commit_balance (r := ⟨d.account, d.token, after⟩) hw.find hcommit
        rw [hfinal, hrestored, hsame]
        rfl

/-- The state with a deposit credited is reached. -/
theorem Reachable.deposit (hs : s.Reachable) {d : AccountRecord} {index : Nat}
    {balances : Table (balancesHeight - 1) (Address × Token) AccountRecord}
    (hindex : s.balances.index d.key = (.ok index, balances)) {after : Amount}
    (hcredit : credit (s.balance d.account d.token) d.amount = .ok after) :
    ({ s with balances := balances.restore index (some ⟨d.account, d.token, after⟩) } :
      RollupState).consumeDeposit (nextDepositHead s.depositHead d) |>.Reachable := by
  obtain ⟨t, o, hbuild, hrun⟩ := hs.valid.run_deposit hindex hcredit (checkEarlier_start _)
  have hreached := (hs.step (.build (.deposit d))).step
    (.apply .trusting (some (.start s.roots)) t)
  simpa only [RollupState.after, hbuild, hrun] using hreached

end RollupState

end AmmRollup
