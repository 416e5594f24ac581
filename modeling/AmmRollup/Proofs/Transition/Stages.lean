import AmmRollup.Proofs.Pool.Conditions
import AmmRollup.Proofs.Transition.Outcome

/-!
# AmmRollup.Proofs.Transition.Stages

Why a step is refused.  The checks of a step form six stages (`Stage`), and what each of them
asks is said of the step alone, without running it (`Transition.Passes`): the witnesses and
claims by what they are (`Transition.Fits`, `Transition.FoldsTo`), the amounts by their limits
and widths (`Transition.Computes`).  Every error belongs to one stage
(`TransitionError.stage`), and a step that is refused reports the first one it fails in
(`Transition.execute_staged`).  The stages up to the signature do not look at what a step
claims to have been there before, so neither does their answer (`Transition.claiming`).
-/

namespace AmmRollup

/-! ## Stages

The stages are numbered in the order of the checks, and the first one that a step does not pass
is the one that its error is from.  Every error names its stage, so a caller can tell which it
was.
-/

/-- The stages of checks, in the order in which a step runs through them. -/
inductive Stage where
  /-- An earlier proof is there, and ends at the roots. -/
  | chained
  /-- The earlier proof verifies. -/
  | proven
  /-- Every witness fits its tree, and the leaves of a double witness are distinct. -/
  | shaped
  /-- The signature is the signer's. -/
  | signed
  /-- Every claim folds to its root, and a deposit is the next link of its chain. -/
  | folded
  /-- The amounts are not zero where they must not be, within their limits, and fit. -/
  | computed
deriving DecidableEq

/-- The place of a stage in the order. -/
def Stage.number : Stage → Nat
  | .chained => 1
  | .proven => 2
  | .shaped => 3
  | .signed => 4
  | .folded => 5
  | .computed => 6

/-- The stage that an error is reported in. -/
def TransitionError.stage : TransitionError → Stage
  | .chainMismatch => .chained
  | .proofInvalid => .proven
  | .invalidWitness _ | .indexMismatch => .shaped
  | .signatureInvalid => .signed
  | .stateMismatch _ => .folded
  | .amount _ => .computed

/-- A stage is not passed, and all before it are. -/
structure FirstFailure (Passes : Stage → Prop) (s : Stage) : Prop where
  fails : ¬ Passes s
  first : ∀ s', s'.number < s.number → Passes s'

/-- Where some stage is not passed, one of them is the first. -/
theorem exists_firstFailure {Passes : Stage → Prop} {s : Stage} (h : ¬ Passes s) :
    ∃ s', FirstFailure Passes s' := by
  induction hn : s.number using Nat.strong_induction_on generalizing s with
  | h n ih =>
      by_cases hfirst : ∀ s', s'.number < s.number → Passes s'
      · exact ⟨s, h, hfirst⟩
      · obtain ⟨s', hlt, hs'⟩ := not_forall₂.mp hfirst
        exact ih s'.number (hn ▸ hlt) hs' rfl

/-! ## Single checks

Each check is taken by itself: when it passes, and that an error of it is from its own stage.
-/

variable {v : Verifiers} {roots : StateRoots} {earlier : Option Proof}

/-- An earlier proof is accepted when it ends where the step starts and is valid. -/
theorem checkEarlier_eq_ok_iff :
    checkEarlier v roots earlier = .ok () ↔
      (∃ p ∈ earlier, p.output = roots) ∧ ∀ p ∈ earlier, v.proofs p = true := by
  cases earlier with
  | none => simp [checkEarlier]
  | some p =>
      by_cases hroots : p.output = roots <;> by_cases hproof : v.proofs p = true <;>
        simp [checkEarlier, hroots, hproof]

theorem checkEarlier_of_unchained (h : ¬ ∃ p ∈ earlier, p.output = roots) :
    checkEarlier v roots earlier = .error .chainMismatch := by
  cases earlier with
  | none => rfl
  | some p => exact if_pos fun hroots => h ⟨p, rfl, hroots⟩

theorem checkEarlier_of_unproven (hroots : ∃ p ∈ earlier, p.output = roots)
    (h : ¬ ∀ p ∈ earlier, v.proofs p = true) :
    checkEarlier v roots earlier = .error .proofInvalid := by
  obtain ⟨p, rfl, hroots⟩ := hroots
  have hproof : ¬ v.proofs p = true := fun hp => h fun q hq => Option.some.inj hq ▸ hp
  simp [checkEarlier, hroots, hproof]

theorem checkShape_refused (w : Witness) (height : Nat) :
    RefusedFor (·.stage = .shaped) (checkShape w height) :=
  .mapError fun _ => rfl

theorem checkPairShape_refused (w : DoubleWitness) (height : Nat) :
    RefusedFor (·.stage = .shaped) (checkPairShape w height) :=
  .bind (.mapError fun _ => rfl) fun _ => .ite (.error rfl) (.ok ())

theorem checkRoot_refused (tree : StateTree) (asserted computed : Bytes32) :
    RefusedFor (·.stage = .folded) (checkRoot tree asserted computed) :=
  .ite (.ok ()) (.error rfl)

namespace Transition

variable (t : Transition)

/-! ## Stages of a step

The checks of one stage taken together, for any method.  `Decides` says both when they pass and
what an error is from, so the execution only has to put the stages in order.
-/

theorem checkShapes_refused : RefusedFor (·.stage = .shaped) t.checkShapes := by
  cases t with
  | genesis => exact .ok ()
  | deposit a => exact checkShape_refused _ _
  | burn a => exact .bind (checkShape_refused _ _) fun _ => checkShape_refused _ _
  | createPool a | provideLiquidity a | removeLiquidity a =>
      exact .bind (checkShape_refused _ _) fun _ => .bind (checkShape_refused _ _) fun _ =>
        checkPairShape_refused _ _
  | buy a | sell a =>
      exact .bind (checkShape_refused _ _) fun _ => checkPairShape_refused _ _

theorem checkRoots_refused (roots : StateRoots) :
    RefusedFor (·.stage = .folded) (t.checkRoots roots) := by
  cases t with
  | genesis => exact .ok ()
  | deposit a | burn a | buy a | sell a =>
      exact .bind (checkRoot_refused _ _ _) fun _ => checkRoot_refused _ _ _
  | createPool a | provideLiquidity a | removeLiquidity a =>
      exact .bind (checkRoot_refused _ _ _) fun _ => .bind (checkRoot_refused _ _ _) fun _ =>
        checkRoot_refused _ _ _

/-- A step has the signature of its signer, if it must be signed. -/
def HasSignature (v : Verifiers) : Prop :=
  ∀ s ∈ t.signed?, v.signatures s.signer s.message s.signature = true

/-- The amounts of a step are not zero where they must not be, within their limits, and fit. -/
def Computes : Transition → Prop
  | .genesis => True
  | .deposit a => (a.priorBalance.getD 0).toNat + a.deposit.amount.toNat < 2 ^ 64
  | .burn a =>
      a.amount.toNat ≤ (a.priorBalance.getD 0).toNat ∧
        (a.priorBurned.getD 0).toNat + a.amount.toNat < 2 ^ 64
  | .createPool a => OpeningPaid a.balances a.baseAmount a.quoteAmount
  | .provideLiquidity a =>
      a.claim.pool.CanProvide a.claim.balances a.points.prior a.baseIn a.quoteLimit
  | .removeLiquidity a =>
      a.claim.pool.CanRemove a.claim.balances a.points.prior a.redeemed a.baseLimit a.quoteLimit
  | .buy a => a.claim.pool.CanBuy a.claim.balances a.amount a.limit
  | .sell a => a.claim.pool.CanSell a.claim.balances a.amount a.limit

/-- What a step must be to pass a stage on some roots and after an earlier proof. -/
def Passes (v : Verifiers) (roots : StateRoots) (earlier : Option Proof) : Stage → Prop
  | .chained => ∃ p ∈ earlier, p.output = roots
  | .proven => ∀ p ∈ earlier, v.proofs p = true
  | .shaped => t.Fits
  | .signed => t.HasSignature v
  | .folded => t.FoldsTo roots ∧ t.Linked
  | .computed => t.Computes

theorem checkShapes_decides :
    Decides (·.stage = .shaped) t.checkShapes t.Fits fun _ => True :=
  .of_ok_iff checkShapes_eq_ok_iff t.checkShapes_refused

/-- The signature passes exactly when what the step must be signed with is valid. -/
theorem checkSignature_eq_ok_iff : t.checkSignature v = .ok () ↔ t.HasSignature v := by
  rw [checkSignature, HasSignature]
  cases t.signed? <;> simp

theorem checkSignature_decides (v : Verifiers) :
    Decides (·.stage = .signed) (t.checkSignature v) (t.HasSignature v) fun _ => True := by
  refine .of_ok_iff t.checkSignature_eq_ok_iff ?_
  rw [checkSignature]
  cases t.signed? with
  | none => exact .ok ()
  | some s => exact .ite (.ok ()) (.error rfl)

theorem checkRoots_decides (roots : StateRoots) :
    Decides (·.stage = .folded) (t.checkRoots roots) (t.FoldsTo roots ∧ t.Linked)
      fun _ => True :=
  .of_ok_iff checkRoots_eq_ok_iff (t.checkRoots_refused roots)

theorem outcome_decides (roots : StateRoots) :
    Decides (fun _ => True) (t.outcome roots) t.Computes fun _ => True := by
  cases t with
  | genesis => exact .of_ok rfl trivial
  | deposit a => exact (credit_decides _ trivial a.priorBalance a.deposit.amount).bind_pure
  | burn a =>
      exact (debit_decides _ a.priorBalance a.amount (.inr trivial)).bind fun _ _ =>
        (credit_decides _ trivial a.priorBurned a.amount).bind_pure
  | createPool a => exact Pool.opened_decides.bind_pure
  | provideLiquidity a => exact Pool.provide_decides.bind_pure
  | removeLiquidity a => exact Pool.remove_decides.bind_pure
  | buy a => exact Pool.buy_decides.bind_pure
  | sell a => exact Pool.sell_decides.bind_pure

/-! ## Execution

A step runs through its stages in order and stops at the first that it does not pass.  To say
that it stops at one, the earlier ones must be known to pass, so each of the six is a case.
-/

variable {t}

/-- The checks that do not look at what a step claims to have been there before. -/
def checkBefore (v : Verifiers) (roots : StateRoots) (earlier : Option Proof) (t : Transition) :
    Except TransitionError Unit := do
  checkEarlier v roots earlier
  t.checkShapes
  t.checkSignature v

/-- Any step but genesis is first checked against what comes before its claims. -/
theorem execute_of_ne_genesis (ht : t ≠ .genesis) :
    t.execute v roots earlier = (do
      t.checkBefore v roots earlier
      t.checkRoots roots
      (t.outcome roots).mapError .amount) := by
  simp only [execute, checkBefore, ne_eq, ht, not_false_eq_true, if_true, bind_assoc]

/-- The checks that read no claims pass exactly when the first four stages do. -/
theorem checkBefore_eq_ok_iff :
    t.checkBefore v roots earlier = .ok () ↔
      ∀ s : Stage, s.number ≤ Stage.signed.number → t.Passes v roots earlier s := by
  rw [checkBefore, check_bind_eq_ok_iff, check_bind_eq_ok_iff, checkEarlier_eq_ok_iff,
    checkShapes_eq_ok_iff, checkSignature_eq_ok_iff]
  constructor
  · rintro ⟨⟨hchained, hproven⟩, hshaped, hsigned⟩ s hs
    -- these are the stages that need no claims, and the later ones are excluded
    cases s with
    | chained => exact hchained
    | proven => exact hproven
    | shaped => exact hshaped
    | signed => exact hsigned
    | folded | computed => exact absurd hs (by decide)
  · intro h
    exact ⟨⟨h .chained (by decide), h .proven (by decide)⟩, h .shaped (by decide),
      h .signed (by decide)⟩

theorem checkEarlier_of_firstFailure {s : Stage} (h : FirstFailure (t.Passes v roots earlier) s)
    (hs : Stage.proven.number < s.number) : checkEarlier v roots earlier = .ok () :=
  checkEarlier_eq_ok_iff.mpr
    ⟨h.first .chained (Nat.lt_trans (by decide) hs), h.first .proven hs⟩

/-- A step that does not pass some stage is refused in the first such. -/
theorem execute_of_firstFailure (ht : t ≠ .genesis) {s : Stage}
    (h : FirstFailure (t.Passes v roots earlier) s) :
    ∃ e, t.execute v roots earlier = .error e ∧ e.stage = s := by
  rw [execute_of_ne_genesis ht]
  -- the stages before the failing one are passed, so their checks go through, and its own refuses
  cases s with
  | chained =>
      rw [checkBefore, checkEarlier_of_unchained h.fails]
      exact ⟨_, rfl, rfl⟩
  | proven =>
      rw [checkBefore, checkEarlier_of_unproven (h.first .chained (by decide)) h.fails]
      exact ⟨_, rfl, rfl⟩
  | shaped =>
      have hearlier := checkEarlier_of_firstFailure h (by decide)
      obtain ⟨e, hshapes, hstage⟩ := t.checkShapes_decides.refused h.fails
      rw [checkBefore, hearlier, hshapes]
      exact ⟨e, rfl, hstage⟩
  | signed =>
      have hearlier := checkEarlier_of_firstFailure h (by decide)
      have hshapes : t.checkShapes = .ok () :=
        checkShapes_eq_ok_iff.mpr (h.first .shaped (by decide))
      obtain ⟨e, hsignature, hstage⟩ := (t.checkSignature_decides v).refused h.fails
      rw [checkBefore, hearlier, hshapes, hsignature]
      exact ⟨e, rfl, hstage⟩
  | folded =>
      have hbefore : t.checkBefore v roots earlier = .ok () := checkBefore_eq_ok_iff.mpr
        fun s hs => h.first s (Nat.lt_of_le_of_lt hs (by decide))
      obtain ⟨e, hroots, hstage⟩ := (t.checkRoots_decides roots).refused h.fails
      rw [hbefore, hroots]
      exact ⟨e, rfl, hstage⟩
  | computed =>
      have hbefore : t.checkBefore v roots earlier = .ok () := checkBefore_eq_ok_iff.mpr
        fun s hs => h.first s (Nat.lt_of_le_of_lt hs (by decide))
      have hroots : t.checkRoots roots = .ok () :=
        checkRoots_eq_ok_iff.mpr (h.first .folded (by decide))
      obtain ⟨e, houtcome, -⟩ := (t.outcome_decides roots).refused h.fails
      rw [hbefore, hroots, houtcome]
      exact ⟨_, rfl, rfl⟩

/-- A step that passes every stage is accepted. -/
theorem execute_of_passes (ht : t ≠ .genesis) (h : ∀ s, t.Passes v roots earlier s) :
    ∃ o, t.execute v roots earlier = .ok o := by
  have hbefore : t.checkBefore v roots earlier = .ok () := checkBefore_eq_ok_iff.mpr
    fun s _ => h s
  have hroots : t.checkRoots roots = .ok () := checkRoots_eq_ok_iff.mpr (h .folded)
  obtain ⟨o, houtcome, -⟩ := (t.outcome_decides roots).value (h .computed)
  rw [execute_of_ne_genesis ht, hbefore, hroots, houtcome]
  exact ⟨o, rfl⟩

end Transition

/-! ## Claims

The chain, the proof before, the shape of the witnesses and the signature are all checked before
any claim is read.  Claims that are false therefore never change an error of these stages.
-/

/-- What a step may claim to have been there before, beside its pool: an account's balances (a
step with one balance claims the base alone), what it has burned, and its points. -/
structure PriorClaims where
  balances : PairBalances
  burned : Option Amount
  points : Option Points

namespace Transition

/-- The step with other claims of what was there before. -/
def claiming (c : PriorClaims) : Transition → Transition
  | .genesis => .genesis
  | .deposit a => .deposit { a with priorBalance := c.balances.base }
  | .burn a => .burn { a with priorBalance := c.balances.base, priorBurned := c.burned }
  | .createPool a => .createPool { a with balances := c.balances }
  | .provideLiquidity a =>
      .provideLiquidity { a with
        claim := { a.claim with balances := c.balances }
        points := { a.points with prior := c.points } }
  | .removeLiquidity a =>
      .removeLiquidity { a with
        claim := { a.claim with balances := c.balances }
        points := { a.points with prior := c.points } }
  | .buy a => .buy { a with claim := { a.claim with balances := c.balances } }
  | .sell a => .sell { a with claim := { a.claim with balances := c.balances } }

variable {t : Transition}

theorem claiming_ne_genesis (c : PriorClaims) (ht : t ≠ .genesis) : t.claiming c ≠ .genesis := by
  cases t <;> first | contradiction | exact nofun

/-- What a step claims to have been there before is not in what is signed, nor in its witnesses. -/
theorem checkBefore_claiming (c : PriorClaims) :
    (t.claiming c).checkBefore v roots earlier = t.checkBefore v roots earlier := by
  cases t <;> rfl

/-- **Rejections report the first failing stage.**  A step other than genesis is accepted exactly
when it passes every stage, and the error that it is refused with belongs to the first stage that
it does not pass.  What is found up to the signature does not depend on what the step claims to
have been there before. -/
theorem execute_staged (v : Verifiers) (roots : StateRoots) (earlier : Option Proof)
    (ht : t ≠ .genesis) :
    ((∃ o, t.execute v roots earlier = .ok o) ↔ ∀ s, t.Passes v roots earlier s) ∧
    (∀ s, (∃ e, t.execute v roots earlier = .error e ∧ e.stage = s) ↔
      FirstFailure (t.Passes v roots earlier) s) ∧
    ∀ s, s.number ≤ Stage.signed.number → ¬ t.Passes v roots earlier s →
      ∀ c, (t.claiming c).execute v roots earlier = t.execute v roots earlier := by
  refine ⟨⟨?_, execute_of_passes ht⟩, fun s => ⟨?_, execute_of_firstFailure ht⟩, ?_⟩
  -- a step that is accepted is not refused, and every failed stage would refuse it
  · rintro ⟨o, ho⟩ s
    by_contra hs
    obtain ⟨s', hs'⟩ := exists_firstFailure hs
    obtain ⟨e, he, -⟩ := execute_of_firstFailure ht hs'
    exact nomatch ho.symm.trans he
  -- there is one first failure, and one error
  · rintro ⟨e, he, rfl⟩
    have hsome : ¬ ∀ s, t.Passes v roots earlier s := fun h =>
      nomatch he.symm.trans (execute_of_passes ht h).choose_spec
    obtain ⟨s', hs'⟩ := not_forall.mp hsome
    obtain ⟨s₀, hs₀⟩ := exists_firstFailure hs'
    obtain ⟨e₀, he₀, rfl⟩ := execute_of_firstFailure ht hs₀
    rwa [Except.error.inj (he.symm.trans he₀)]
  -- the early checks read no claims, so claiming otherwise fails them alike
  · intro s hs hfails c
    rw [execute_of_ne_genesis ht, execute_of_ne_genesis (claiming_ne_genesis c ht),
      checkBefore_claiming]
    cases hbefore : t.checkBefore v roots earlier with
    | error e => rfl
    | ok _ => exact absurd (checkBefore_eq_ok_iff.mp hbefore s hs) hfails

/-- A deposit whose witness has no siblings, and whose heads are not linked either. -/
def shortDeposit : Transition := .deposit ⟨⟨[]⟩, firstRecord, none, emptyLeaf, emptyLeaf⟩

theorem shortDeposit_firstFailure :
    FirstFailure (shortDeposit.Passes .trusting .empty (some (.start .empty))) .shaped where
  fails h := absurd (show 0 = View.balances.depth from h.balances) (by decide)
  first s hs := by
    cases s with
    | chained => exact ⟨_, rfl, rfl⟩
    | proven => exact fun _ _ => rfl
    | shaped | signed | folded | computed => exact absurd hs (by decide)

/-- The missing siblings are reported, whatever balance the deposit claims. -/
theorem execute_staged_short :
    shortDeposit ≠ .genesis ∧
    (∃ e, shortDeposit.execute .trusting .empty (some (.start .empty)) = .error e ∧
      e.stage = .shaped) ∧
    ∀ c, (shortDeposit.claiming c).execute .trusting .empty (some (.start .empty)) =
      shortDeposit.execute .trusting .empty (some (.start .empty)) := by
  obtain ⟨-, hstage, hclaims⟩ := execute_staged .trusting .empty (some (.start .empty))
    (t := shortDeposit) nofun
  exact ⟨nofun, (hstage .shaped).mpr shortDeposit_firstFailure,
    hclaims .shaped (by decide) shortDeposit_firstFailure.fails⟩

end Transition

end AmmRollup
