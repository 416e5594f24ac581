import AmmRollup.Proofs.Rollup.Refine

/-!
# AmmRollup.Proofs.Rollup.Perform

Building a step and applying it at once, on any earlier proof, whatever comes of it
(`RollupState.perform`).  Either the lookups show what the ledger makes of the intent, or
they are as before, and nothing else has changed (`RollupState.Valid.perform_spec`).  So a
run preserves what the ledger does (`RollupState.Valid.performEach_invariant`), and where an
amount is refused it is the ledger that refuses it (`RollupState.Refusal.amount_eq`).
-/

namespace AmmRollup

namespace RollupState

variable {s s' : RollupState} {i : Intent} {v : Verifiers} {earlier : Option Proof}

/-- Builds the step that an intent asks for and applies it. -/
def perform (v : Verifiers) (earlier : Option Proof) (i : Intent) : Build Outcome := do
  apply v earlier (← build i)

/-- What checking a step hashes that is built on a state: the trees that it is built from,
and its claims. -/
def buildPreimages (s : RollupState) (i : Intent) : Set Bytes :=
  match (build i).run.run s with
  | (.ok t, s') => s'.records.preimages ∪ t.preimages
  | (.error _, _) => ∅

/-- The head of the deposit chain and the number of replayed deposits. -/
def replayed (s : RollupState) : Bytes32 × Nat := (s.depositHead, s.depositsConsumed)

/-- How far the deposits are replayed once an intent was accepted. -/
def replayedAfter (s : RollupState) : Intent → Bytes32 × Nat
  | .deposit d => (nextDepositHead s.depositHead d, s.depositsConsumed + 1)
  | _ => s.replayed

/-- Bindings do not replay deposits. -/
theorem Extends.replayed_eq (h : s.Extends s') : s'.replayed = s.replayed := by
  rw [replayed, h.depositHead, h.depositsConsumed, replayed]

/-- Bindings do not change where replaying a deposit would lead. -/
theorem Extends.replayedAfter_eq (h : s.Extends s') (i : Intent) :
    s'.replayedAfter i = s.replayedAfter i := by
  cases i with
  | deposit d => rw [replayedAfter, replayedAfter, h.depositHead, h.depositsConsumed]
  | _ => exact h.replayed_eq

/-- What performing an intent leads to. -/
inductive Performed (s : RollupState) (i : Intent) : Except Failure Outcome → RollupState → Prop
  | refused {f : Failure} {s' : RollupState} (valid : s'.Valid) (extended : s.Extends s') :
      Performed s i (.error f) s'
  | accepted {o : Outcome} {s' : RollupState} (valid : s'.Valid)
      (apply : s.ledger.apply i = .ok s'.ledger) (withdrawals : s'.withdrawals = s.withdrawals)
      (replayed : s'.replayed = s.replayedAfter i) : Performed s i (.ok o) s'

namespace Asked

variable {t : Transition}

/-- Nobody asks for the step that starts a chain. -/
theorem ne_genesis (ha : s.Asked i t) : t ≠ .genesis := by
  cases ha <;> simp

/-- The deposits that a built step counts are those that were asked for. -/
theorem replayed_counted (ha : s.Asked i t) (h : s'.replayed = s.replayed) :
    (s'.counted t).replayed = s.replayedAfter i := by
  cases ha with
  | deposit _ => exact congrArg (Prod.mk _) (congrArg (·.2 + 1) h)
  | _ => exact h

/-- A proof of anything but the current roots is refused before the step is looked at. -/
theorem run_apply_of_earlier (ha : s.Asked i t) {e : TransitionError}
    (hearlier : checkEarlier v s.roots earlier = .error e) :
    (apply v earlier t).run.run s = (.error (refused t e), s) := by
  refine run_apply_of_error ?_
  rw [Transition.execute, if_pos ha.ne_genesis, hearlier]
  rfl

/-- An applied step that was built on the state is accepted as by the ledger or changes
nothing. -/
theorem performed (ha : s.Asked i t) (v : Verifiers) (earlier : Option Proof) (h : s.Valid)
    (hc : CollisionFree (s.records.preimages ∪ t.preimages)) :
    s.Performed i ((apply v earlier t).run.run s).1 ((apply v earlier t).run.run s).2 := by
  cases hearlier : checkEarlier v s.roots earlier with
  | error e =>
      rw [ha.run_apply_of_earlier hearlier]
      exact .refused h (.refl s)
  | ok _ =>
      -- the checks in their order: the proof before, the signature, vacant leaves, the amounts
      by_cases hsigned : i.SignedUnder v
      · rcases ha.vacant_or_occupied h with hv | ⟨tree, -, hoccupied⟩
        · rcases ha.run_apply_of_vacant h hearlier hsigned hv with
            ⟨e, -, hrun⟩ | ⟨o, written, happly, hwrites, hrun⟩
          · rw [hrun]
            exact .refused h (.refl s)
          · obtain ⟨hwithdrawals, hhead, hconsumed⟩ := hwrites.beside
            rw [hrun]
            refine .accepted ((hwrites.valid h).counted t) ?_ ?_
              (ha.replayed_counted (Prod.ext hhead hconsumed))
            · rw [happly, ledger_counted]
            · rw [withdrawals_counted, hwithdrawals]
        · rw [ha.run_apply_of_occupied h hearlier hsigned (hoccupied hc)]
          exact .refused h (.refl s)
      · rw [ha.run_apply_of_unsigned h hearlier hsigned]
        exact .refused h (.refl s)

end Asked

/-- Binding leaves first makes no difference to what was performed. -/
theorem Performed.of_extends {mid : RollupState} {r : Except Failure Outcome} (h : s.Valid)
    (hmid : mid.Valid) (hext : s.Extends mid) (hp : mid.Performed i r s') : s.Performed i r s' := by
  cases hp with
  | refused hvalid hext' => exact .refused hvalid (hext.trans hext')
  | accepted hvalid happly hwithdrawals hreplayed =>
      rw [h.ledger_extends hmid hext] at happly
      exact .accepted hvalid happly (hwithdrawals.trans hext.withdrawals)
        (hreplayed.trans (hext.replayedAfter_eq i))

/-- Performing an intent does what the ledger does, or nothing that a lookup can tell. -/
theorem Valid.perform_spec (h : s.Valid) (hc : CollisionFree (s.buildPreimages i))
    {r : Except Failure Outcome} (hrun : (perform v earlier i).run.run s = (r, s')) :
    s.Performed i r s' := by
  obtain ⟨hvalid, hext, hasked⟩ := h.build_spec i
  rw [buildPreimages] at hc
  rw [perform, run_bind] at hrun
  cases hbuild : (build i).run.run s with
  | mk built mid =>
      rw [hbuild] at hvalid hext hasked hc hrun
      -- a step that could not be built has bound leaves at most
      cases built with
      | error f =>
          obtain ⟨rfl, rfl⟩ := Prod.mk.inj hrun
          exact .refused hvalid hext
      | ok t =>
          have hperformed := (hasked t rfl).performed v earlier hvalid hc
          rw [show (apply v earlier t).run.run mid = (r, s') from hrun] at hperformed
          exact .of_extends h hvalid hext hperformed

/-! ## Runs

An intent that is performed does to the ledger what the specification says, or nothing.  So every
invariant of the specification holds along all runs, as far as nothing collides that is hashed on
the way.
-/

/-- What is asked for, and what it is checked with. -/
structure Request where
  verifiers : Verifiers
  earlier : Option Proof
  intent : Intent

/-- The state after an intent was built and applied at once, accepted or not. -/
def performed (s : RollupState) (q : Request) : RollupState :=
  ((perform q.verifiers q.earlier q.intent).run.run s).2

/-- The state after several intents, one after the other. -/
def performEach (s : RollupState) (requests : List Request) : RollupState :=
  requests.foldl performed s

/-- What they hash. -/
def performPreimages (s : RollupState) : List Request → Set Bytes
  | [] => ∅
  | q :: requests => s.buildPreimages q.intent ∪ (s.performed q).performPreimages requests

/-- What a run hashes is what its parts hash. -/
theorem performPreimages_append (before after : List Request) :
    s.performPreimages (before ++ after) =
      s.performPreimages before ∪ (s.performEach before).performPreimages after := by
  induction before generalizing s with
  | nil => exact (Set.empty_union _).symm
  | cons q before ih =>
      rw [List.cons_append, performPreimages, ih, ← Set.union_assoc]
      rfl

/-- One of them does what the ledger does, or nothing to it. -/
theorem Valid.performed_spec (h : s.Valid) {q : Request}
    (hc : CollisionFree (s.buildPreimages q.intent)) : (s.performed q).Valid ∧
      ((s.performed q).ledger = s.ledger ∨
        s.ledger.apply q.intent = .ok (s.performed q).ledger) := by
  rw [performed]
  cases hrun : (perform q.verifiers q.earlier q.intent).run.run s with
  | mk r s' =>
      cases h.perform_spec hc hrun with
      | refused hvalid hext => exact ⟨hvalid, .inl (h.ledger_extends hvalid hext)⟩
      | accepted hvalid happly => exact ⟨hvalid, .inr happly⟩

/-- What every accepted intent preserves of a ledger is preserved by a run. -/
theorem Valid.performEach_invariant {P : Ledger → Prop}
    (hstep : ∀ l l' i, P l → l.apply i = .ok l' → P l') (h : s.Valid) (hledger : P s.ledger)
    {requests : List Request} (hc : CollisionFree (s.performPreimages requests)) :
    (s.performEach requests).Valid ∧ P (s.performEach requests).ledger := by
  induction requests generalizing s with
  | nil => exact ⟨h, hledger⟩
  | cons q requests ih =>
      obtain ⟨hvalid, hafter⟩ := h.performed_spec (hc.mono Set.subset_union_left)
      refine ih hvalid ?_ (hc.mono Set.subset_union_right)
      rcases hafter with hsame | happly
      · rwa [hsame]
      · exact hstep _ _ _ hledger happly

/-! ## Refusals

An intent is refused because its step cannot be built, for its earlier proof, for its signature,
or for its amounts; and where it is for the amounts, the ledger refuses it for the same reason.
-/

/-- An earlier proof is refused for its roots or as a proof. -/
theorem checkEarlier_error {roots : StateRoots} {e : TransitionError}
    (h : checkEarlier v roots earlier = .error e) : e = .chainMismatch ∨ e = .proofInvalid := by
  unfold checkEarlier at h
  split at h
  · exact .inl (Except.error.inj h).symm
  · split at h
    · exact .inl (Except.error.inj h).symm
    · split at h
      · contradiction
      · exact .inr (Except.error.inj h).symm

/-- Why an intent is refused that claims nothing against the state. -/
inductive Refusal (s : RollupState) (v : Verifiers) (i : Intent) : Failure → Prop
  | unbuilt {f : Failure} (h : ((build i).run.run s).1 = .error f) : Refusal s v i f
  | unchained {t : Transition} {e : TransitionError} (h : e = .chainMismatch ∨ e = .proofInvalid) :
      Refusal s v i (refused t e)
  | unsigned {t : Transition} (h : ¬ i.SignedUnder v) : Refusal s v i (refused t .signatureInvalid)
  | amount {t : Transition} {e : AmountError} (h : s.ledger.apply i = .error (.amount e)) :
      Refusal s v i (refused t (.amount e))

/-- Every failure is of one of these kinds. -/
theorem Valid.perform_refusal (h : s.Valid) (hv : ∀ mid, Asked.Vacant mid i) {f : Failure}
    (hrun : ((perform v earlier i).run.run s).1 = .error f) : s.Refusal v i f := by
  obtain ⟨hvalid, hext, hasked⟩ := h.build_spec i
  rw [perform, run_bind] at hrun
  cases hbuild : (build i).run.run s with
  | mk r mid =>
      rw [hbuild] at hvalid hext hasked hrun
      cases r with
      | error g =>
          refine .unbuilt ?_
          rw [hbuild]
          exact congrArg Except.error (Except.error.inj hrun)
      | ok t =>
          have ha : mid.Asked i t := hasked t rfl
          -- built steps pass all checks but these: the proof before, the signature, the amounts
          cases hearlier : checkEarlier v mid.roots earlier with
          | error e =>
              simp only [ha.run_apply_of_earlier hearlier] at hrun
              exact Except.error.inj hrun ▸ .unchained (checkEarlier_error hearlier)
          | ok _ =>
              by_cases hsigned : i.SignedUnder v
              · rcases ha.run_apply_of_vacant hvalid hearlier hsigned (hv mid) with
                  ⟨e, herror, hfailed⟩ | ⟨o, written, -, -, hok⟩
                · simp only [hfailed] at hrun
                  rw [h.ledger_extends hvalid hext] at herror
                  exact Except.error.inj hrun ▸ .amount herror
                · simp only [hok] at hrun
                  contradiction
              · simp only [ha.run_apply_of_unsigned hvalid hearlier hsigned] at hrun
                exact Except.error.inj hrun ▸ .unsigned hsigned

/-- Where an amount is refused the ledger refuses it. -/
theorem Refusal.amount_eq {f : Failure} (h : s.Refusal v i f) {e : AmountError}
    (he : f.cause = .transition (.amount e)) : s.ledger.apply i = .error (.amount e) := by
  cases h with
  | unbuilt hbuild => exact absurd he (LooksUp.build i s f hbuild _)
  | unchained hcause =>
      obtain rfl := Cause.transition.inj he
      simp at hcause
  | unsigned => exact nomatch Cause.transition.inj he
  | amount happly =>
      obtain rfl := TransitionError.amount.inj (Cause.transition.inj he)
      exact happly

/-! ## Deposits

A deposit makes no claim against the state that could be false, and needs no signature.  What
remains is that there is a leaf and that the earlier proof is good.
-/

/-- Checking a deposit hashes nothing that is not hashed in the trees. -/
theorem Valid.buildPreimages_deposit (h : s.Valid) (d : AccountRecord) :
    s.buildPreimages (.deposit d) ⊆ s.records.preimages := by
  obtain ⟨hvalid, hext, hasked⟩ := h.build_spec (.deposit d)
  rw [buildPreimages]
  cases hbuild : (build (.deposit d)).run.run s with
  | mk r mid =>
      rw [hbuild] at hvalid hext hasked
      cases r with
      | error f => exact Set.empty_subset _
      | ok t =>
          have ha : mid.Asked (.deposit d) t := hasked t rfl
          have hrecords : mid.records = s.records := hext.records_eq
          have hfits := ha.fits
          have hholds := ha.holds hvalid trivial
          have hopens := ha.opens
          rw [← hrecords]
          -- a true claim on a path of the tree hashes what the tree hashes
          refine Set.union_subset (Set.Subset.refl _) ?_
          cases ha with
          | deposit hw =>
              have hclaim := Opening.preimages_single_subset (by decide) hfits.balances
                hholds.balances hopens.balances
              rintro bytes (((hb | hb) | hb) | hb)
              · exact View.balances.preimages_subset _ (hclaim hb)
              all_goals contradiction

/-- A deposit is built unless its account can be given no leaf. -/
theorem build_deposit_cause {d : AccountRecord} {f : Failure}
    (h : ((build (.deposit d)).run.run s).1 = .error f) : ∃ e, f.cause = .state e := by
  simp only [build] at h
  rw [run_bind, run_balanceIndex] at h
  cases hindex : (s.balances.index (d.account, d.token)).1 with
  | error e =>
      rw [hindex] at h
      exact ⟨e, congrArg Failure.cause (Except.error.inj h).symm⟩
  | ok i =>
      rw [hindex] at h
      simp only [Except.mapError, run_get] at h
      -- a leaf that was given is in range, but the cause is the state's either way
      cases hwitness : (s.balances.index (d.account, d.token)).2.witness i with
      | error e =>
          rw [hwitness] at h
          exact ⟨e, congrArg Failure.cause (Except.error.inj h).symm⟩
      | ok w =>
          rw [hwitness] at h
          contradiction

/-- A deposit that its account can be credited with is refused for want of a leaf or for the
earlier proof, and for nothing else. -/
theorem Valid.perform_deposit_cause (h : s.Valid) {d : AccountRecord} {after : Amount}
    (hcredit : credit (s.balance d.account d.token) d.amount = .ok after) {f : Failure}
    (hrun : ((perform v earlier (.deposit d)).run.run s).1 = .error f) :
    (∃ e, f.cause = .state e) ∨
      ∃ e, (e = .chainMismatch ∨ e = .proofInvalid) ∧ f.cause = .transition e := by
  have happly : s.ledger.apply (.deposit d) =
      .ok (s.ledger.setBalance d.account d.token after) := by
    have hbalance : s.ledger.balance d.key = s.balance d.account d.token := rfl
    simp only [Ledger.apply, hbalance, hcredit]
    rfl
  cases h.perform_refusal (i := .deposit d) (fun _ => trivial) hrun with
  | unbuilt hbuild => exact .inl (build_deposit_cause hbuild)
  | unchained hcause => exact .inr ⟨_, hcause, rfl⟩
  | unsigned hunsigned => exact absurd (fun s hs => absurd hs (Option.not_mem_none s)) hunsigned
  | amount herror =>
      rw [happly] at herror
      contradiction

end RollupState

end AmmRollup
