import AmmRollup.Proofs.Merger
import AmmRollup.Proofs.Transition.Steps

/-!
# AmmRollup.Proofs.Issued

What the proofs of one prover are worth.  A prover is asked for proofs of steps, and joins
proofs; some of what it gave is settled.  A proof that is handed in is known by its roots
and its certificate alone, but it was issued before.

Every proof then stands for a chain of accepted steps between its roots (`Prover.Reaches`),
whatever was joined with what.  A step is a chain of one, and joined proofs share the roots
in the middle, so that their chains are put together (`Prover.reaches_of_answer`).  The
settled roots are reached from unwritten trees, since a proof is settled only where the one
before it ended (`Issuance.Sound.act`); whole runs follow by induction over their calls
(`Issuance.Sound.run`).
-/

namespace AmmRollup

theorem StateTrees.roots_empty : StateTrees.empty.roots = .empty := by
  simp [roots, empty, StateRoots.empty, Tree.root_empty, balancesHeight, liquiditiesHeight,
    poolsHeight, burnsHeight]

/-! ## Requests to a prover

A prover answers one request at a time and keeps nothing.  What its answers are worth depends on
the proofs that were handed in with them.
-/

/-- What a prover can be asked for. -/
inductive Request where
  | prove (roots : StateRoots) (earlier : Option Proof) (t : Transition)
  | merge (common : StateRoots) (first second : Proof)

/-- The proofs that are handed in with a request. -/
def Request.proofs : Request → List Proof
  | .prove _ earlier _ => earlier.toList
  | .merge _ first second => [first, second]

namespace Prover

variable {prover : Prover} {issued more : List Proof} {start middle final roots : StateRoots}
  {request : Request} {earlier : Option Proof} {t : Transition} {o : Outcome} {p : Proof}

/-- The answer to a request. -/
def answer (prover : Prover) : Request → Except TransitionError Proof
  | .prove roots earlier t => prover.prove roots earlier t
  | .merge common first second => prover.merge common first second

/-- A step is proved that is accepted, from the roots that it runs on to those that it gives. -/
theorem prove_eq_ok_iff : prover.prove roots earlier t = .ok p ↔
    ∃ o, t.execute prover.verifiers roots earlier = .ok o ∧
      p = prover.certify t.method roots o.roots := by
  rw [prove, bind_eq_ok_iff]
  exact exists_congr fun o => and_congr_right fun _ => pure_eq_ok_iff.trans eq_comm

/-! ### Reaching roots

Some roots are reached from others by accepted steps, each checked with a proof that was issued
before.  This is what a proof stands for, and joining two proofs joins the two ways.
-/

/-- Steps lead from some roots to others that the prover accepts one after another, each on a
proof that was issued. -/
def Reaches (prover : Prover) (issued : List Proof) (start final : StateRoots) : Prop :=
  ∃ steps : List Step, Chain start steps final ∧ ∀ step ∈ steps,
    step.verifiers = prover.verifiers ∧ ∀ p, step.earlier = some p → p ∈ issued

theorem Reaches.refl (roots : StateRoots) : prover.Reaches issued roots roots :=
  ⟨[], .nil, by simp⟩

theorem Reaches.trans (h : prover.Reaches issued start middle)
    (h' : prover.Reaches issued middle final) : prover.Reaches issued start final := by
  obtain ⟨before, hbefore, hissued⟩ := h
  obtain ⟨after, hafter, hissued'⟩ := h'
  exact ⟨before ++ after, hbefore.append hafter, List.forall_mem_append.mpr ⟨hissued, hissued'⟩⟩

/-- With more proofs issued, no fewer roots are reached. -/
theorem Reaches.mono (h : prover.Reaches issued start final) (hmore : issued ⊆ more) :
    prover.Reaches more start final := by
  obtain ⟨steps, hsteps, hissued⟩ := h
  refine ⟨steps, hsteps, fun step hstep => ?_⟩
  obtain ⟨hverifiers, hearlier⟩ := hissued step hstep
  exact ⟨hverifiers, fun p hp => hmore (hearlier p hp)⟩

/-- An accepted step leads to the roots that it gives. -/
theorem reaches_of_execute (h : t.execute prover.verifiers roots earlier = .ok o)
    (hearlier : ∀ p, earlier = some p → p ∈ issued) : prover.Reaches issued roots o.roots :=
  ⟨[⟨prover.verifiers, earlier, t, o⟩], .cons h .nil, by simpa using hearlier⟩

/-- **One answer.**  If the proofs that are handed in were issued and stand for accepted steps, so
does the proof that is given for them. -/
theorem reaches_of_answer (h : prover.answer request = .ok p)
    (hissued : ∀ q ∈ request.proofs, q ∈ issued)
    (hproofs : ∀ q ∈ issued, prover.Reaches issued q.input q.output) :
    prover.Reaches issued p.input p.output := by
  cases request with
  | prove roots earlier t =>
    obtain ⟨o, hexecute, rfl⟩ := prove_eq_ok_iff.mp h
    exact reaches_of_execute hexecute fun q hq => hissued q (by simp [Request.proofs, hq])
  | merge common first second =>
    obtain ⟨rfl, hlink, -, -, rfl⟩ := merge_eq_ok_iff.mp h
    have hfirst := hproofs first (hissued first (by simp [Request.proofs]))
    have hsecond := hproofs second (hissued second (by simp [Request.proofs]))
    exact (hlink ▸ hfirst).trans hsecond

end Prover

/-! ## Settling what was issued

The record of settlement accepts whatever verifies and starts at its roots.  As far as it is
handed proofs that were issued, its roots are reached from those of unwritten trees.
-/

/-- The proofs that a prover has issued, the record of settlement, and the proofs that this has
accepted. -/
structure Issuance where
  issued : List Proof
  contract : Settlement
  accepted : List Proof

/-- A call of the prover, or of the record of settlement with something that verifies. -/
inductive IssuanceCall where
  | ask (request : Request)
  | settle (verifies : Proof → Bool) (p : Proof)

/-- The proofs that are handed in with a call. -/
def IssuanceCall.proofs : IssuanceCall → List Proof
  | .ask request => request.proofs
  | .settle _ p => [p]

/-- Why a call is refused. -/
inductive Refusal where
  | prover (e : TransitionError)
  | settlement (e : SettlementError)

namespace Issuance

/-- Nothing issued, nothing settled. -/
def new : Issuance := ⟨[], .initial, []⟩

/-- A call.  What settling a proof leaves of the record stays, be the proof refused or not. -/
def act (prover : Prover) : IssuanceCall → ExceptT Refusal (StateM Issuance) Unit
  | .ask request => do
      let p ← ofExcept ((prover.answer request).mapError .prover)
      modify fun n => { n with issued := n.issued ++ [p] }
  | .settle verifies p => do
      let n ← get
      let (answer, contract) := (Settlement.settle verifies p).run.run n.contract
      set { n with contract }
      discard <| ofExcept (answer.mapError .settlement)
      modify fun n => { n with accepted := n.accepted ++ [p] }

/-- What a call leaves, be it refused or not. -/
def after (prover : Prover) (n : Issuance) (call : IssuanceCall) : Issuance :=
  ((act prover call).run.run n).2

/-- Calls one after another. -/
def run (prover : Prover) (n : Issuance) (calls : List IssuanceCall) : Issuance :=
  calls.foldl (after prover) n

/-- Every proof that is handed in was issued before. -/
def HandsInIssued (prover : Prover) : Issuance → List IssuanceCall → Prop
  | _, [] => True
  | n, call :: calls =>
      (∀ p ∈ call.proofs, p ∈ n.issued) ∧ HandsInIssued prover (n.after prover call) calls

/-- What holds however proofs are issued, joined and settled. -/
structure Sound (prover : Prover) (n : Issuance) : Prop where
  /-- Every proof stands for accepted steps from its start to its end. -/
  issued : ∀ p ∈ n.issued, prover.Reaches n.issued p.input p.output
  /-- The settled roots are reached from unwritten trees. -/
  settled : prover.Reaches n.issued .empty n.contract.roots
  /-- The record counts what it has accepted. -/
  counted : n.contract.settlements = .ofNat n.accepted.length

variable {prover : Prover} {n next : Issuance} {call : IssuanceCall} {calls : List IssuanceCall}
  {request : Request} {verifies : Proof → Bool} {p : Proof} {e : Refusal}

/-- What asking for a proof gives and leaves. -/
theorem run_ask (n : Issuance) (prover : Prover) (request : Request) :
    (act prover (.ask request)).run.run n = match prover.answer request with
      | .error e => (.error (.prover e), n)
      | .ok p => (.ok (), { n with issued := n.issued ++ [p] }) := by
  rw [act, run_ofExcept]
  cases prover.answer request <;> rfl

/-- What settling a proof gives and leaves. -/
theorem run_settle (n : Issuance) (prover : Prover) (verifies : Proof → Bool) (p : Proof) :
    (act prover (.settle verifies p)).run.run n =
      match (Settlement.settle verifies p).run.run n.contract with
      | (.error e, contract) => (.error (.settlement e), { n with contract })
      | (.ok _, contract) => (.ok (), { n with contract, accepted := n.accepted ++ [p] }) := by
  rw [act, run_get]
  rcases (Settlement.settle verifies p).run.run n.contract with ⟨e | roots, contract⟩ <;> rfl

/-- A request that is answered adds the answer to the issued proofs. -/
theorem ask_eq_ok_iff : (act prover (.ask request)).run.run n = (.ok (), next) ↔
    ∃ p, prover.answer request = .ok p ∧ { n with issued := n.issued ++ [p] } = next := by
  rw [run_ask]
  cases prover.answer request <;> grind

/-- A proof that settles is counted. -/
theorem settle_eq_ok_iff : (act prover (.settle verifies p)).run.run n = (.ok (), next) ↔
    ∃ roots contract,
      (Settlement.settle verifies p).run.run n.contract = (.ok roots, contract) ∧
        { n with contract, accepted := n.accepted ++ [p] } = next := by
  rw [run_settle]
  rcases (Settlement.settle verifies p).run.run n.contract with ⟨e | roots, contract⟩ <;> grind

/-- **A refused call changes nothing.**  A prover has no state, and the record of settlement
refuses before it writes. -/
theorem act_refused (h : (act prover call).run.run n = (.error e, next)) : next = n := by
  cases call with
  | ask request =>
    rw [run_ask] at h
    split at h
    · exact (congrArg Prod.snd h).symm
    · exact nomatch congrArg Prod.fst h
  | settle verifies p =>
    rw [run_settle] at h
    split at h
    · next hrefused =>
      rw [Settlement.settle_refused hrefused] at h
      exact (congrArg Prod.snd h).symm
    · exact nomatch congrArg Prod.fst h

theorem after_of_ok (h : (act prover call).run.run n = (.ok (), next)) :
    n.after prover call = next := by
  rw [after, h]

theorem sound_new : new.Sound prover where
  issued p hp := by simp [new] at hp
  settled := .refl _
  counted := rfl

/-- **One call** that is accepted. -/
theorem Sound.act (h : n.Sound prover) (hissued : ∀ p ∈ call.proofs, p ∈ n.issued)
    (hact : (Issuance.act prover call).run.run n = (.ok (), next)) : next.Sound prover := by
  -- an answer reaches from its own roots by what was issued before it; settling issues nothing
  cases call with
  | ask request =>
    obtain ⟨p, hp, rfl⟩ := ask_eq_ok_iff.mp hact
    have hmore : n.issued ⊆ n.issued ++ [p] := List.subset_append_left ..
    refine ⟨fun q hq => ?_, h.settled.mono hmore, h.counted⟩
    rw [List.mem_append, List.mem_singleton] at hq
    cases hq with
    | inl hq => exact (h.issued q hq).mono hmore
    | inr hq => exact hq ▸ (Prover.reaches_of_answer hp hissued h.issued).mono hmore
  | settle verifies p =>
    obtain ⟨roots, contract, hsettle, rfl⟩ := settle_eq_ok_iff.mp hact
    obtain ⟨hinput, -, -, rfl⟩ := Settlement.settle_eq_ok_iff.mp hsettle
    have hp := h.issued p (hissued p (by simp [IssuanceCall.proofs]))
    exact {
      issued := h.issued
      settled := h.settled.trans (hinput ▸ hp)
      counted := by simp [h.counted, UInt64.ofNat_add] }

/-- **All calls**, accepted or refused. -/
theorem Sound.run (h : n.Sound prover) (hissued : HandsInIssued prover n calls) :
    (n.run prover calls).Sound prover := by
  induction calls generalizing n with
  | nil => exact h
  | cons call calls ih =>
    obtain ⟨hproofs, hrest⟩ := hissued
    refine ih ?_ hrest
    rw [after]
    rcases hact : (Issuance.act prover call).run.run n with ⟨e | _, next⟩
    · exact act_refused hact ▸ h
    · exact h.act hproofs hact

/-- Whatever a prover issues and joins, and whichever of its proofs are settled, every proof
stands for accepted steps, and so do the settled roots.  A call that is refused, at any time,
leaves what was issued and what was settled as it found it. -/
theorem issued_sound (prover : Prover) (calls : List IssuanceCall)
    (hissued : HandsInIssued prover new calls) :
    (new.run prover calls).Sound prover ∧
      ∀ (n left : Issuance) (call : IssuanceCall) (e : Refusal),
        (act prover call).run.run n = (.error e, left) → left = n :=
  ⟨sound_new.run hissued, fun _ _ _ _ => act_refused⟩

/-! ### A first settlement

A chain is begun, a first deposit is proved and joined to it, and the result is settled.
-/

/-- The proof of a new chain. -/
def firstGenesis : Proof := Prover.keyless.certify .genesis .empty .empty

/-- The proof of a first deposit. -/
def firstProof : Proof := Prover.keyless.certify .deposit .empty firstDeposit.outcome.roots

/-- The proof of both. -/
def firstMerged : Proof := Prover.keyless.certify .merge .empty firstDeposit.outcome.roots

/-- A chain is begun, a first deposit is joined to it, and both are settled. -/
def firstCalls : List IssuanceCall :=
  [.ask (.prove .empty none .genesis),
    .ask (.prove .empty (some firstGenesis) firstDeposit.transition),
    .ask (.merge .empty firstGenesis firstProof),
    .settle Prover.keyless.verify firstMerged]

theorem prove_firstProof :
    Prover.keyless.prove .empty (some firstGenesis) firstDeposit.transition =
      .ok firstProof := by
  have hearlier : checkEarlier Prover.keyless.verifiers .empty (some firstGenesis) =
      .ok () := by
    simp [checkEarlier, firstGenesis, Prover.certify, Prover.verifiers, Prover.verify,
      Prover.keyless, Prover.mock]
  obtain _ | ⟨haccepted, -⟩ := firstDeposit_accepted
  obtain ⟨-, hfits, -, hfolds, houtcome⟩ := Transition.execute_eq_ok_iff.mp haccepted
  rw [StateTrees.roots_empty] at hfolds houtcome
  exact Prover.prove_eq_ok_iff.mpr ⟨firstDeposit.outcome, Transition.execute_eq_ok_iff.mpr
    ⟨fun _ => hearlier, hfits, rfl, hfolds, houtcome⟩, rfl⟩

/-- All these calls are accepted. -/
theorem run_firstCalls :
    new.run Prover.keyless firstCalls =
        ⟨[firstGenesis, firstProof, firstMerged], ⟨firstDeposit.outcome.roots, 1⟩, [firstMerged]⟩ ∧
      HandsInIssued Prover.keyless new firstCalls := by
  have hmerge : Prover.keyless.merge .empty firstGenesis firstProof = .ok firstMerged :=
    Prover.merge_eq_ok_iff.mpr ⟨rfl, rfl, rfl, rfl, rfl⟩
  have hsettle : (Settlement.settle Prover.keyless.verify firstMerged).run.run .initial =
      (.ok firstDeposit.outcome.roots, ⟨firstDeposit.outcome.roots, 1⟩) :=
    Settlement.settle_eq_ok_iff.mpr ⟨rfl, rfl, rfl, rfl⟩
  -- each call is one answer, and the last one settles
  have hask {n : Issuance} {request : Request} {p : Proof}
      (h : Prover.keyless.answer request = .ok p) :
      n.after Prover.keyless (.ask request) = { n with issued := n.issued ++ [p] } :=
    after_of_ok (ask_eq_ok_iff.mpr ⟨p, h, rfl⟩)
  have hbegun : new.after Prover.keyless (.ask (.prove .empty none .genesis)) =
      ⟨[firstGenesis], .initial, []⟩ := hask rfl
  have hproved : (⟨[firstGenesis], .initial, []⟩ : Issuance).after Prover.keyless
      (.ask (.prove .empty (some firstGenesis) firstDeposit.transition)) =
        ⟨[firstGenesis, firstProof], .initial, []⟩ := hask prove_firstProof
  have hmerged : (⟨[firstGenesis, firstProof], .initial, []⟩ : Issuance).after Prover.keyless
      (.ask (.merge .empty firstGenesis firstProof)) =
        ⟨[firstGenesis, firstProof, firstMerged], .initial, []⟩ := hask hmerge
  have hsettled : (⟨[firstGenesis, firstProof, firstMerged], .initial, []⟩ : Issuance).after
      Prover.keyless (.settle Prover.keyless.verify firstMerged) =
        ⟨[firstGenesis, firstProof, firstMerged], ⟨firstDeposit.outcome.roots, 1⟩,
          [firstMerged]⟩ :=
    after_of_ok (settle_eq_ok_iff.mpr ⟨_, _, hsettle, rfl⟩)
  constructor
  · rw [run, firstCalls, List.foldl_cons, hbegun, List.foldl_cons, hproved, List.foldl_cons,
      hmerged, List.foldl_cons, hsettled, List.foldl_nil]
  · simp [HandsInIssued, firstCalls, IssuanceCall.proofs, Request.proofs, hbegun, hproved, hmerged]

/-- The first deposit is settled, and its roots are reached from unwritten trees. -/
theorem issued_sound_firstDeposit : HandsInIssued Prover.keyless new firstCalls ∧
    (new.run Prover.keyless firstCalls).contract = ⟨firstDeposit.outcome.roots, 1⟩ ∧
    Prover.keyless.Reaches [firstGenesis, firstProof, firstMerged] .empty
      firstDeposit.outcome.roots := by
  obtain ⟨hrun, hissued⟩ := run_firstCalls
  have hsettled := (issued_sound Prover.keyless firstCalls hissued).1.settled
  rw [hrun] at hsettled
  exact ⟨hissued, by rw [hrun], hsettled⟩

end Issuance

end AmmRollup
