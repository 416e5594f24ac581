import AmmRollup.Proofs.Rollup.Perform
import AmmRollup.Proofs.Rollup.Rollback

/-!
# AmmRollup.Proofs.Rollup.Operations

What the host can ask of the state, and what it learns from that: the steps that are built, with
their witnesses, the outcomes of those that are applied, and all that can be read in between.

* `RollupState.SameRuns` — states from which all operations, one after another, have the same
  replies and lead to the same roots, records and leaves;
* `RollupState.Oblivious` — operations that do not see how alike states differ: building, applying,
  committing and recording, and all sequences of them;
* `RollupState.Alike.sameRuns` — so alike states have the same runs.
-/

namespace AmmRollup

namespace RollupState

variable {s s' : RollupState} {α β : Type}

/-! ## Operations

The operations that a host offers, with what each replies.  A run is a list of them, and two
states have the same runs when no list tells them apart.
-/

/-- An operation of the host. -/
inductive Operation where
  /-- A step is built. -/
  | build (intent : Intent)
  /-- A step is executed on the current roots and committed. -/
  | apply (verifiers : Verifiers) (earlier : Option Proof) (step : Transition)
  /-- A step is built and applied at once. -/
  | perform (verifiers : Verifiers) (earlier : Option Proof) (intent : Intent)
  /-- Any outcome of any step is committed. -/
  | commit (step : Transition) (outcome : Outcome)
  /-- A payment is recorded. -/
  | record (request : WithdrawRequest)

/-- What an operation that succeeds gives. -/
inductive Reply where
  | built (step : Transition)
  | applied (outcome : Outcome)
  | performed (step : Transition) (outcome : Outcome)
  | done

/-- An operation, as one on the state. -/
def Operation.asked : Operation → Build Reply
  | .build i => do return .built (← RollupState.build i)
  | .apply v earlier t => do return .applied (← RollupState.apply v earlier t)
  | .perform v earlier i => do
      let t ← RollupState.build i
      return .performed t (← RollupState.apply v earlier t)
  | .commit t o => do
      commitStep t o
      return .done
  | .record r => do
      recordPaid r
      return .done

/-- The state after an operation, whether it succeeded or not. -/
def operated (s : RollupState) (operation : Operation) : RollupState :=
  (operation.asked.run.run s).2

/-- The state after several operations. -/
def operatedEach (s : RollupState) (operations : List Operation) : RollupState :=
  operations.foldl operated s

/-- The replies to several operations, one after another. -/
def replies (s : RollupState) : List Operation → List (Except Failure Reply)
  | [] => []
  | operation :: operations =>
      (operation.asked.run.run s).1 :: (s.operated operation).replies operations

/-- All operations have the same replies and lead to the same sight. -/
def SameRuns (s s' : RollupState) : Prop :=
  ∀ operations, s'.replies operations = s.replies operations ∧
    (s'.operatedEach operations).sight = (s.operatedEach operations).sight

theorem SameRuns.sight_eq (h : s.SameRuns s') : s'.sight = s.sight := (h []).2

/-! ### Operations as calls

Operations come down to the calls of `AmmRollup.Proofs.Rollup.Slots`, and so keep what calls
keep.
-/

/-- Every operation of the host comes down to calls, whatever it is asked with. -/
theorem CallsOnly.asked (operation : Operation) : CallsOnly operation.asked := by
  have hpure {α : Type} (a : α) := CallsOnly.lookups.pure a
  cases operation with
  | build i => exact (CallsOnly.lookups.build i).bind fun t => hpure _
  | apply v earlier t => exact (CallsOnly.apply v earlier t).bind fun o => hpure _
  | perform v earlier i =>
      exact (CallsOnly.lookups.build i).bind fun t =>
        (CallsOnly.apply v earlier t).bind fun o => hpure _
  | commit t o => exact (CallsOnly.commitStep t o).bind fun _ => hpure _
  | record r =>
      refine CallsOnly.bind (fun s => ⟨[.record r.withdrawer r.token r.totalBurned], ?_⟩)
        fun _ => hpure _
      unfold recordPaid
      rw [run_get, run_set]
      cases (s.recordWithdrawal r.withdrawer r.token r.totalBurned).1 <;> rfl

/-- A list of operations leaves what some list of calls leaves. -/
theorem exists_calls_operatedEach (s : RollupState) (operations : List Operation) :
    ∃ calls, s.operatedEach operations = s.afterCalls calls := by
  induction operations generalizing s with
  | nil => exact ⟨[], rfl⟩
  | cons operation operations ih =>
      obtain ⟨calls, hcalls⟩ := CallsOnly.asked operation s
      obtain ⟨more, hmore⟩ := ih (s.operated operation)
      refine ⟨calls ++ more, ?_⟩
      rw [afterCalls_append, ← hcalls]
      exact hmore

/-- Operations keep a state valid. -/
theorem Valid.operatedEach (h : s.Valid) (operations : List Operation) :
    (s.operatedEach operations).Valid := by
  obtain ⟨calls, hcalls⟩ := s.exists_calls_operatedEach operations
  rw [hcalls]
  exact h.afterCalls calls

/-- Operations let the bindings of a state grow. -/
theorem grows_operatedEach (s : RollupState) (operations : List Operation) :
    s.Grows (s.operatedEach operations) := by
  obtain ⟨calls, hcalls⟩ := s.exists_calls_operatedEach operations
  rw [hcalls]
  exact s.grows_afterCalls calls

/-! ## Reading alike states

Alike tables differ in nothing that is looked up, so every lookup of an operation has one answer
on both.
-/

namespace Alike

/-- Alike tables have the same paths. -/
theorem witness_eq {depth : Nat} {κ ρ : Type} {t t' : Table depth κ ρ} (h : t.Alike t') :
    t'.witness = t.witness := by
  funext index
  rw [Table.witness, h.tree_eq, Table.witness]

/-- Alike tables have the same pairs of paths. -/
theorem doubleWitness_eq {depth : Nat} {κ ρ : Type} {t t' : Table depth κ ρ} (h : t.Alike t') :
    t'.doubleWitness = t.doubleWitness := by
  funext a b
  rw [Table.doubleWitness, h.tree_eq, Table.doubleWitness]

/-- The lookups of alike states agree, one for each table. -/
theorem balance_eq (h : s.Alike s') : s'.balance = s.balance := by
  funext owner token
  rw [balance, h.balances.get?_eq, balance]

theorem burned_eq (h : s.Alike s') : s'.burned = s.burned := by
  funext owner token
  rw [burned, h.burns.get?_eq, burned]

theorem liquidity_eq (h : s.Alike s') : s'.liquidity = s.liquidity := by
  funext provider base quote
  rw [liquidity, h.liquidities.get?_eq, liquidity]

/-- The two balances that a step of a pool claims are the same in alike states. -/
theorem pairBalances_eq (h : s.Alike s') : s'.pairBalances = s.pairBalances := by
  funext owner base quote
  rw [pairBalances, h.balance_eq, pairBalances]

/-- A pool is found in both of two alike states, at the same leaf, or in neither. -/
theorem existingPool_eq (h : s.Alike s') : s'.existingPool = s.existingPool := by
  funext base quote
  rw [existingPool, existingPool, pool, pool, h.pools.find?_eq, h.pools.get?_eq]

/-- Counting a deposit touches no table. -/
theorem counted (h : s.Alike s') (t : Transition) : (s.counted t).Alike (s'.counted t) := by
  cases t with
  | deposit a =>
      exact { h with
        depositHead := rfl
        depositsConsumed := congrArg (· + 1) h.depositsConsumed }
  | _ => exact h

end Alike

/-! ## Oblivious operations

They are closed under less than `Lookups` are: to read the state is not oblivious in itself, only
what is made of it may be. -/

/-- On alike states an operation has the same result, and leaves alike states. -/
def Oblivious (m : Build α) : Prop :=
  ∀ s s', s.Alike s' →
    (m.run.run s').1 = (m.run.run s).1 ∧ (m.run.run s).2.Alike (m.run.run s').2

namespace Oblivious

theorem pure (a : α) : Oblivious (Pure.pure a : Build α) := fun _ _ h => ⟨rfl, h⟩

theorem throw (f : Failure) : Oblivious (MonadExcept.throw f : Build α) := fun _ _ h => ⟨rfl, h⟩

/-- In a sequence the first operation leaves alike states to the second. -/
theorem bind {m : Build α} {f : α → Build β} (h : Oblivious m) (hf : ∀ a, Oblivious (f a)) :
    Oblivious (m >>= f) := by
  intro s s' halike
  obtain ⟨hresult, hnext⟩ := h s s' halike
  rw [run_bind, run_bind]
  generalize m.run.run s = x at *
  generalize m.run.run s' = y at *
  obtain ⟨r, t⟩ := x
  obtain ⟨r', t'⟩ := y
  simp only at hresult hnext
  subst hresult
  cases r' with
  | error e => exact ⟨rfl, hnext⟩
  | ok a => exact hf a t t' hnext

/-- What is done with the state must not depend on how alike states differ. -/
theorem get {f : RollupState → Build β} (hf : ∀ s s', s.Alike s' → f s' = f s)
    (h : ∀ s, Oblivious (f s)) : Oblivious (MonadState.get >>= f) := by
  intro s s' halike
  change ((f s').run.run s').1 = ((f s).run.run s).1 ∧
    ((f s).run.run s).2.Alike ((f s').run.run s').2
  rw [hf s s' halike]
  exact h s s s' halike

/-- A refusal that was computed before does not look at the state again. -/
theorem ofState (r : Except StateError α) : Oblivious (ofState r) := by
  cases r with
  | error e => exact throw _
  | ok a => exact pure a

theorem lift (r : Except Failure α) : Oblivious (liftM r : Build α) := by
  cases r with
  | error e => exact throw e
  | ok a => exact pure a

/-- Asking for the leaf of a key. -/
theorem of_assign {m : Build Nat} (key : LeafKey) (hrun : ∀ s, m.run.run s =
    ((s.assign key).1.mapError fun e => .of (.state e), (s.assign key).2)) : Oblivious m := by
  intro s s' halike
  obtain ⟨hresult, hnext⟩ := halike.assign key
  rw [hrun, hrun, hresult]
  exact ⟨rfl, hnext⟩

theorem balanceIndex (owner : Address) (token : Token) : Oblivious (balanceIndex owner token) :=
  of_assign (.balance owner token) fun _ => run_balanceIndex owner token

theorem burnIndex (owner : Address) (token : Token) : Oblivious (burnIndex owner token) :=
  of_assign (.burn owner token) fun _ => run_burnIndex owner token

theorem poolIndex (base quote : Token) : Oblivious (poolIndex base quote) :=
  of_assign (.pool base quote) fun _ => run_poolIndex base quote

theorem liquidityIndex (provider : Address) (base quote : Token) :
    Oblivious (liquidityIndex provider base quote) :=
  of_assign (.liquidity provider base quote) fun _ => run_liquidityIndex provider base quote

/-- Looking up two balances is oblivious. -/
theorem pairWitness (owner : Address) (base quote : Token) :
    Oblivious (pairWitness owner base quote) := by
  refine (balanceIndex _ _).bind fun i => ?_
  refine (balanceIndex _ _).bind fun j => ?_
  refine get (fun s s' h => ?_) fun s => ?_
  · simp only [Alike.doubleWitness_eq h.balances]
  · split
    · exact pure _
    · exact throw _

/-- Looking up a pool and two balances is oblivious. -/
theorem poolClaim (index : Nat) (pool : Pool) (account : Address) (base quote : Token) :
    Oblivious (poolClaim index pool account base quote) := by
  refine get (fun s s' h => ?path) fun s => ?_
  case path => rw [Alike.witness_eq h.pools]
  refine (ofState _).bind fun w => ?_
  refine (pairWitness _ _ _).bind fun u => ?_
  refine get (fun s s' h => ?balances) fun s => pure _
  case balances => rw [h.pairBalances_eq]

/-- Looking up a pool and the points of an account is oblivious. -/
theorem shareClaims (account : Address) (base quote : Token) :
    Oblivious (shareClaims account base quote) := by
  refine get (fun s s' h => ?pool) fun s => ?_
  case pool => rw [h.existingPool_eq]
  refine (lift _).bind fun found => ?_
  refine (liquidityIndex _ _ _).bind fun j => ?_
  refine get (fun s s' h => ?path) fun s => ?_
  case path => rw [Alike.witness_eq h.liquidities]
  refine (ofState _).bind fun w => ?_
  refine (poolClaim _ _ _ _ _).bind fun c => ?_
  refine get (fun s s' h => ?points) fun s => pure _
  case points => rw [h.liquidity_eq]

/-- Looking up what a trade needs is oblivious. -/
theorem swapArgs (trader : Address) (base quote : Token) (amount limit : Amount)
    (signature : Ed25519.Signature) :
    Oblivious (swapArgs trader base quote amount limit signature) := by
  refine get (fun s s' h => ?pool) fun s => ?_
  case pool => rw [h.existingPool_eq]
  refine (lift _).bind fun found => ?_
  exact (poolClaim _ _ _ _ _).bind fun c => pure _

/-- Building a step reads nothing but lookups, trees and deposits. -/
theorem build (i : Intent) : Oblivious (build i) := by
  -- what each method reads of the state is equal on alike states: paths, lookups, the deposit chain
  cases i with
  | deposit d =>
      refine (balanceIndex _ _).bind fun i => ?_
      refine get (fun s s' h => ?reads) fun s => ?_
      case reads => rw [Alike.witness_eq h.balances, h.balance_eq, h.depositHead]
      exact (ofState _).bind fun w => pure _
  | burn owner token amount signature =>
      refine (balanceIndex _ _).bind fun i => ?_
      refine (burnIndex _ _).bind fun j => ?_
      refine get (fun s s' h => ?reads) fun s => ?_
      case reads =>
        rw [Alike.witness_eq h.balances, Alike.witness_eq h.burns, h.balance_eq, h.burned_eq]
      refine (ofState _).bind fun w => ?_
      exact (ofState _).bind fun v => pure _
  | createPool provider base quote baseAmount quoteAmount signature =>
      refine (poolIndex _ _).bind fun i => ?_
      refine (liquidityIndex _ _ _).bind fun j => ?_
      refine get (fun s s' h => ?poolPath) fun s => ?_
      case poolPath => rw [Alike.witness_eq h.pools]
      refine (ofState _).bind fun w => ?_
      refine get (fun s s' h => ?pointsPath) fun s => ?_
      case pointsPath => rw [Alike.witness_eq h.liquidities]
      refine (ofState _).bind fun v => ?_
      refine (pairWitness _ _ _).bind fun u => ?_
      refine get (fun s s' h => ?balances) fun s => pure _
      case balances => rw [h.pairBalances_eq]
  | provideLiquidity | removeLiquidity => exact (shareClaims _ _ _).bind fun c => pure _
  | buy | sell => exact (swapArgs _ _ _ _ _ _).bind fun a => pure _

/-- Committing an outcome succeeds on both of two alike states or on neither. -/
theorem commitStep (t : Transition) (o : Outcome) : Oblivious (commitStep t o) := by
  intro s s' halike
  obtain ⟨hresult, hnext⟩ := halike.commit o
  cases hc : s.commit o with
  | mk r written =>
      cases hc' : s'.commit o with
      | mk r' written' =>
          rw [hc, hc'] at hresult hnext
          -- both commits have one result, and only a success counts a deposit
          obtain rfl : r' = r := hresult
          cases r' with
          | error e =>
              rw [run_commitStep_of_error hc, run_commitStep_of_error hc']
              exact ⟨rfl, hnext⟩
          | ok u =>
              rw [run_commitStep_of_ok hc, run_commitStep_of_ok hc']
              exact ⟨rfl, Alike.counted hnext t⟩

/-- Applying a step succeeds on both of two alike states or on neither, as it is judged by their
roots. -/
theorem apply (v : Verifiers) (earlier : Option Proof) (t : Transition) :
    Oblivious (apply v earlier t) := by
  refine get (fun s s' h => ?_) fun s => ?_
  · simp only [h.roots_eq]
  · split
    · exact throw _
    · exact (commitStep _ _).bind fun _ => pure _

/-- Recording a payment succeeds on both of two alike states or on neither. -/
theorem recordPaid (r : WithdrawRequest) : Oblivious (recordPaid r) := by
  intro s s' halike
  obtain ⟨hresult, hnext⟩ := halike.recordWithdrawal r.withdrawer r.token r.totalBurned
  unfold RollupState.recordPaid
  rw [run_get, run_get, run_set, run_set, hresult]
  exact ofState _ _ _ hnext

/-- No operation of the host sees the difference. -/
theorem asked (operation : Operation) : Oblivious operation.asked := by
  cases operation with
  | build i => exact (build i).bind fun t => pure _
  | apply v earlier t => exact (apply v earlier t).bind fun o => pure _
  | perform v earlier i =>
      exact (build i).bind fun t => (apply v earlier t).bind fun o => pure _
  | commit t o => exact (commitStep t o).bind fun _ => pure _
  | record r => exact (recordPaid r).bind fun _ => pure _

end Oblivious

/-- Operations in a row lead from alike states to alike states. -/
theorem Alike.operatedEach (h : s.Alike s') (operations : List Operation) :
    (s.operatedEach operations).Alike (s'.operatedEach operations) := by
  induction operations generalizing s s' with
  | nil => exact h
  | cons operation operations ih => exact ih (Oblivious.asked operation s s' h).2

/-- Alike states have the same runs. -/
theorem Alike.sameRuns (h : s.Alike s') : s.SameRuns s' := by
  refine fun operations => ⟨?_, (h.operatedEach operations).sight_eq⟩
  induction operations generalizing s s' with
  | nil => rfl
  | cons operation operations ih =>
      obtain ⟨hreply, hnext⟩ := Oblivious.asked operation s s' h
      exact List.cons_eq_cons.mpr ⟨hreply, ih hnext⟩

end RollupState

end AmmRollup
