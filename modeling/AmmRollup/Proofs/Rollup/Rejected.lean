import AmmRollup.Proofs.Rollup.Operations

/-!
# AmmRollup.Proofs.Rollup.Rejected

What intents that are rejected leave behind.  Building a step asks for the leaves of its keys, one
after another, and gives them back neither when a later one is refused nor when the step is refused
that was built.  Nothing else is left: a refused step is put back without a trace, since it writes
at leaves that its keys have.

* `RollupState.needed` — the keys whose leaves an intent asks for;
* `RollupState.reserved` — the state where these leaves were asked for, and nothing else was done;
* `RollupState.left_by_rejected` — nothing tells what a rejected intent leaves from that state, nor
  from the state before it if no key is given a leaf.
-/

namespace AmmRollup

namespace RollupState

variable {s s' : RollupState} {i : Intent} {t : Transition} {key : LeafKey} {keys : List LeafKey}
  {α β : Type}

/-! ## Asking for leaves

A list of keys is asked for in order, up to the first that is refused.  If no key is given a leaf
that it did not have, the state is as before.
-/

/-- A refusal leaves no trace. -/
theorem alike_assign_of_error {e : StateError} (h : (s.assign key).1 = .error e) :
    s.Alike (s.assign key).2 := by
  cases key with
  | balance owner token =>
      exact { Alike.refl s with balances := Table.alike_index_of_error h }
  | liquidity provider base quote =>
      exact { Alike.refl s with liquidities := Table.alike_index_of_error h }
  | pool base quote => exact { Alike.refl s with pools := Table.alike_index_of_error h }
  | burn owner token => exact { Alike.refl s with burns := Table.alike_index_of_error h }

/-- The state where the leaves of keys were asked for, up to the first that is refused. -/
def assignEach (s : RollupState) : List LeafKey → RollupState
  | [] => s
  | key :: keys =>
      match s.assign key with
      | (.ok _, s) => s.assignEach keys
      | (.error _, s) => s

/-- A key that is given a leaf is followed by the rest. -/
theorem assignEach_cons_of_ok {index : Nat} (h : s.assign key = (.ok index, s')) :
    s.assignEach (key :: keys) = s'.assignEach keys := by
  simp only [assignEach, h]

/-- A key that is refused a leaf is followed by none. -/
theorem assignEach_cons_of_error {e : StateError} (h : s.assign key = (.error e, s')) :
    s.assignEach (key :: keys) = s' := by
  simp only [assignEach, h]

/-- Whether the others are asked for or not, the first key always is. -/
theorem assignEach_cons_cases (s : RollupState) (key : LeafKey) (keys : List LeafKey) :
    s.assignEach (key :: keys) = (s.assign key).2.assignEach keys ∨
      s.assignEach (key :: keys) = (s.assign key).2 := by
  cases hassign : s.assign key with
  | mk r next =>
      cases r with
      | error e => exact .inr (assignEach_cons_of_error hassign)
      | ok index => exact .inl (assignEach_cons_of_ok hassign)

/-- Asking for leaves binds keys, and frees none. -/
theorem grows_assignEach (s : RollupState) (keys : List LeafKey) : s.Grows (s.assignEach keys) := by
  induction keys generalizing s with
  | nil => exact .refl s
  | cons key keys ih =>
      have hgrows := s.grows_assign key
      obtain heq | heq := s.assignEach_cons_cases key keys
      · rw [heq]
        exact hgrows.trans (ih _)
      · rw [heq]
        exact hgrows

/-- Keys that are not asked for keep their leaves. -/
theorem slot?_assignEach_of_not_mem (s : RollupState) {other : LeafKey} (hm : other ∉ keys) :
    (s.assignEach keys).slot? other = s.slot? other := by
  induction keys generalizing s with
  | nil => rfl
  | cons key keys ih =>
      have hother := s.slot?_assign_of_ne (List.ne_of_not_mem_cons hm)
      have hrest := List.not_mem_of_not_mem_cons hm
      obtain heq | heq := s.assignEach_cons_cases key keys
      · rw [heq, ih _ hrest, hother]
      · rw [heq, hother]

/-- If no key is given a leaf that had none, nothing is left of having asked. -/
theorem Valid.alike_assignEach (h : s.Valid) (hslots : (s.assignEach keys).slot? = s.slot?) :
    s.Alike (s.assignEach keys) := by
  induction keys generalizing s with
  | nil => exact .refl s
  | cons key keys ih =>
      cases hassign : s.assign key with
      | mk r next =>
          have hspec := (h.assign_spec key).2
          have halike {e : StateError} (he : (s.assign key).1 = .error e) :=
            alike_assign_of_error he
          rw [hassign] at hspec halike
          cases r with
          | error e =>
              rw [assignEach_cons_of_error hassign]
              exact halike rfl
          | ok index =>
              rw [assignEach_cons_of_ok hassign] at hslots ⊢
              -- no key loses its leaf later, so it had that leaf from the start
              have hkept := (next.grows_assignEach keys).slot?_eq (hspec index rfl)
              rw [hslots] at hkept
              obtain rfl := (Prod.mk.inj ((assign_of_bound hkept).symm.trans hassign)).2
              exact ih h hslots

/-! ## Building

Every intent asks for a list of keys that can be told from the intent, and from whether its pool
exists.  Nothing else that building does changes the state.
-/

/-- The keys whose leaves are asked for when an intent is built, in their order.  Where a pool
must have been opened, none is asked for before that is known. -/
def needed (s : RollupState) : Intent → List LeafKey
  | .deposit d => [.balance d.account d.token]
  | .burn owner token _ _ => [.balance owner token, .burn owner token]
  | .createPool provider base quote _ _ _ =>
      [.pool base quote, .liquidity provider base quote, .balance provider base,
        .balance provider quote]
  | .provideLiquidity provider base quote _ _ _ | .removeLiquidity provider base quote _ _ _ _ =>
      if (s.pool base quote).isSome then
        [.liquidity provider base quote, .balance provider base, .balance provider quote]
      else []
  | .buy trader base quote _ _ _ | .sell trader base quote _ _ _ =>
      if (s.pool base quote).isSome then [.balance trader base, .balance trader quote] else []

/-- The state where the leaves that an intent needs were asked for, and nothing else was done. -/
def reserved (s : RollupState) (i : Intent) : RollupState := s.assignEach (s.needed i)

/-- An operation does nothing to a state but ask for the leaves of keys. -/
def Asks (s : RollupState) (m : Build α) (keys : List LeafKey) : Prop :=
  (m.run.run s).2 = s.assignEach keys

namespace Asks

theorem pure (a : α) : s.Asks (Pure.pure a) [] := rfl

theorem throw (f : Failure) : s.Asks (throw f : Build α) [] := rfl

/-- Reading the state asks for no leaf. -/
theorem get {f : RollupState → Build β} (h : s.Asks (f s) keys) :
    s.Asks (MonadState.get >>= f) keys := h

/-- A lookup that succeeds asks for no leaf. -/
theorem ofState_bind {r : Except StateError α} {a : α} {f : α → Build β} (hr : r = .ok a)
    (h : s.Asks (f a) keys) : s.Asks (ofState r >>= f) keys := by
  subst hr
  exact h

/-- What follows and only reads may be left out. -/
theorem reading {m : Build α} {f : α → Build β} (h : s.Asks m keys)
    (hf : ∀ a s', ((f a).run.run s').2 = s') : s.Asks (m >>= f) keys := by
  rw [Asks, run_bind]
  cases hm : m.run.run s with
  | mk r next =>
      rw [Asks, hm] at h
      cases r with
      | error e => exact h
      | ok a => exact (hf a next).trans h

/-- A key at the head of a sequence. -/
theorem assign {m : Build Nat} {f : Nat → Build β} (h : s.Valid)
    (hrun : m.run.run s = ((s.assign key).1.mapError fun e => .of (.state e), (s.assign key).2))
    (hf : ∀ index next, next.Valid → s.Extends next → next.slot? key = some index →
      next.Asks (f index) keys) : s.Asks (m >>= f) (key :: keys) := by
  have hvalid := h.assign key
  obtain ⟨hext, hslot⟩ := h.assign_spec key
  rw [Asks, run_bind, hrun]
  cases hassign : s.assign key with
  | mk r next =>
      rw [hassign] at hvalid hext hslot
      cases r with
      | error e => exact (assignEach_cons_of_error hassign).symm
      | ok index =>
          rw [assignEach_cons_of_ok hassign]
          exact hf index next hvalid hext (hslot index rfl)

end Asks

/-- The balances of a pair are given leaves in order, base first. -/
theorem asks_pairWitness (h : s.Valid) (owner : Address) (base quote : Token) :
    s.Asks (pairWitness owner base quote) [.balance owner base, .balance owner quote] := by
  refine .assign h (run_balanceIndex _ _) fun i s₁ h₁ _ _ => ?_
  refine .assign h₁ (run_balanceIndex _ _) fun j s₂ _ _ _ => .get ?_
  cases s₂.balances.doubleWitness i j with
  | error e => exact .throw _
  | ok w => exact .pure w

/-- A pool is found at the leaf that it has, so only its balances ask for leaves. -/
theorem asks_poolClaim (h : s.Valid) {index : Nat} {base quote : Token}
    (hfind : s.pools.find? (base, quote) = some index) (pool : Pool) (account : Address) :
    s.Asks (poolClaim index pool account base quote)
      [.balance account base, .balance account quote] :=
  .get (.ofState_bind (h.pools.witness_eq_ok hfind)
    ((asks_pairWitness h account base quote).reading fun _ _ => rfl))

/-- Whether a pool was opened is known at once. -/
theorem existingPool_cases (s : RollupState) (base quote : Token) :
    (s.pool base quote = none ∧ s.existingPool base quote = .error (.of .noPool)) ∨
      ∃ index pool, s.pools.find? (base, quote) = some index ∧ s.pool base quote = some pool ∧
        s.existingPool base quote = .ok (index, pool) := by
  rw [existingPool]
  cases hfind : s.pools.find? (base, quote) with
  | none => exact .inl ⟨by rw [pool, Table.get?, hfind, Option.bind_none], rfl⟩
  | some index =>
      cases hpool : s.pool base quote with
      | none => exact .inl ⟨rfl, rfl⟩
      | some pool => exact .inr ⟨index, pool, rfl, rfl, rfl⟩

/-- The points of an account may be given a leaf, before its balances are. -/
theorem asks_shareClaims (h : s.Valid) (account : Address) (base quote : Token) :
    s.Asks (shareClaims account base quote) (if (s.pool base quote).isSome then
      [.liquidity account base quote, .balance account base, .balance account quote] else []) := by
  unfold shareClaims
  refine .get ?_
  obtain ⟨hpool, hexisting⟩ | ⟨index, pool, hfind, hpool, hexisting⟩ :=
    s.existingPool_cases base quote
  · rw [hpool, hexisting]
    exact .throw _
  · rw [hpool, hexisting]
    refine .assign h (run_liquidityIndex _ _ _) fun j next hnext hext hslot => .get ?_
    refine .ofState_bind (hnext.liquidities.witness_eq_ok hslot) ?_
    exact (asks_poolClaim hnext (hext.pools.find _ _ hfind) pool account).reading fun _ _ => rfl

/-- A trade gives leaves to two balances, if there is a pool at all. -/
theorem asks_swapArgs (h : s.Valid) (trader : Address) (base quote : Token)
    (amount limit : Amount) (signature : Ed25519.Signature) :
    s.Asks (swapArgs trader base quote amount limit signature)
      (if (s.pool base quote).isSome then [.balance trader base, .balance trader quote]
        else []) := by
  unfold swapArgs
  refine .get ?_
  obtain ⟨hpool, hexisting⟩ | ⟨index, pool, hfind, hpool, hexisting⟩ :=
    s.existingPool_cases base quote
  · rw [hpool, hexisting]
    exact .throw _
  · rw [hpool, hexisting]
    exact (asks_poolClaim h hfind pool trader).reading fun _ _ => rfl

/-- Building an intent asks for the leaves that it needs, and does nothing else. -/
theorem Valid.asks_build (h : s.Valid) (i : Intent) : s.Asks (build i) (s.needed i) := by
  -- every leaf that a method asks for is bound by then, so all later lookups succeed
  cases i with
  | deposit d =>
      refine .assign h (run_balanceIndex _ _) fun i s₁ h₁ _ hi => .get ?_
      exact .ofState_bind (h₁.balances.witness_eq_ok hi) (.pure _)
  | burn owner token amount signature =>
      refine .assign h (run_balanceIndex _ _) fun i s₁ h₁ _ hi => ?_
      refine .assign h₁ (run_burnIndex _ _) fun j s₂ h₂ hext hj => .get ?_
      have hi' := hext.balances.find _ _ hi
      exact .ofState_bind (h₂.balances.witness_eq_ok hi')
        (.ofState_bind (h₂.burns.witness_eq_ok hj) (.pure _))
  | createPool provider base quote baseAmount quoteAmount signature =>
      refine .assign h (run_poolIndex _ _) fun i s₁ h₁ _ hi => ?_
      refine .assign h₁ (run_liquidityIndex _ _ _) fun j s₂ h₂ hext hj => .get ?_
      have hi' := hext.pools.find _ _ hi
      refine .ofState_bind (h₂.pools.witness_eq_ok hi') (.get ?_)
      refine .ofState_bind (h₂.liquidities.witness_eq_ok hj) ?_
      exact (asks_pairWitness h₂ provider base quote).reading fun _ _ => rfl
  | provideLiquidity | removeLiquidity =>
      exact (asks_shareClaims h _ _ _).reading fun _ _ => rfl
  | buy | sell => exact (asks_swapArgs h _ _ _ _ _ _).reading fun _ _ => rfl

/-- A built step was built on the state where its leaves are reserved. -/
theorem Valid.built (h : s.Valid) (hbuild : (build i).run.run s = (.ok t, s')) :
    s' = s.reserved i ∧ s'.Valid ∧ s'.Asked i t := by
  have hreserved := h.asks_build i
  obtain ⟨hvalid, -, hasked⟩ := h.build_spec i
  rw [Asks, hbuild] at hreserved
  rw [hbuild] at hvalid hasked
  exact ⟨hreserved, hvalid, hasked t rfl⟩

/-! ## Refused steps

A step that was built and is refused later commits nothing, or commits and puts back at leaves
that its keys had.
-/

/-- A step that was built earlier and is refused leaves no trace. -/
theorem Valid.alike_apply_of_error (h : s.Valid) {mid : RollupState} (hmid : mid.Valid)
    (ha : mid.Asked i t) (hgrows : mid.Grows s) {v : Verifiers} {earlier : Option Proof}
    {f : Failure} (happly : (apply v earlier t).run.run s = (.error f, s')) : s.Alike s' := by
  cases hexecute : t.execute v s.roots earlier with
  | error e =>
      rw [run_apply_of_error hexecute] at happly
      obtain ⟨-, rfl⟩ := Prod.mk.inj happly
      exact .refl s
  | ok o =>
      obtain ⟨-, -, -, -, houtcome⟩ := Transition.execute_eq_ok_iff.mp hexecute
      -- the step was built, so its writes are at leaves that its keys have
      have hbound (w : LeafWrite) (hm : w ∈ o.writes) :=
        hgrows.slot?_eq (bound_iff.mp (ha.bound_of_outcome hmid houtcome w hm))
      rw [run_apply_of_ok hexecute] at happly
      cases hc : s.commit o with
      | mk r written =>
          cases r with
          | ok u =>
              rw [run_commitStep_of_ok hc] at happly
              cases (Prod.mk.inj happly).1
          | error e =>
              rw [run_commitStep_of_error hc] at happly
              obtain ⟨-, rfl⟩ := Prod.mk.inj happly
              exact h.alike_commit_of_error hc fun w hm => hbound w (mem_of_mem_accepted hm)

/-! ## Main result -/

/-- An intent is rejected: it cannot be built, or the step that was built is refused, at once or
after other operations. -/
inductive Rejected (s : RollupState) (i : Intent) : List Operation → RollupState → Prop
  | unbuilt {f : Failure} {s' : RollupState} (hbuild : (build i).run.run s = (.error f, s')) :
      Rejected s i [] s'
  | refused {t : Transition} {mid s' : RollupState} {between : List Operation} {v : Verifiers}
      {earlier : Option Proof} {f : Failure} (hbuild : (build i).run.run s = (.ok t, mid))
      (happly : (apply v earlier t).run.run (mid.operatedEach between) = (.error f, s')) :
      Rejected s i between s'

/-- What a rejected intent leaves is like what is left by asking for the leaves of its keys. -/
theorem Valid.alike_rejected (h : s.Valid) {between : List Operation}
    (hr : s.Rejected i between s') : ((s.reserved i).operatedEach between).Alike s' := by
  cases hr with
  | unbuilt hbuild =>
      have hreserved := h.asks_build i
      rw [Asks, hbuild] at hreserved
      subst hreserved
      exact .refl _
  | refused hbuild happly =>
      obtain ⟨rfl, hvalid, hasked⟩ := h.built hbuild
      exact (hvalid.operatedEach between).alike_apply_of_error hvalid hasked
        (grows_operatedEach _ between) happly

/-- **A rejected intent leaves the leaves of its keys, and nothing else.**  In every reachable
state, an intent may fail to be built, or the step that was built may be refused, at once or after
other operations and for any reason.  Whatever is done later, and whatever is read, has the same
results as if in its place the leaves of its keys had only been asked for.  That changes neither
roots nor trees, lookups or deposits, nor the leaf of any other key.  So it is as if the intent had
never been built just when none of its keys is given a leaf by it. -/
theorem left_by_rejected (hs : s.Reachable) {between : List Operation}
    (hr : s.Rejected i between s') :
    ((s.reserved i).operatedEach between).SameRuns s' ∧
      (s.reserved i).sight = { s.sight with slot := (s.reserved i).slot? } ∧
      (∀ key ∉ s.needed i, (s.reserved i).slot? key = s.slot? key) ∧
      (s.SameRuns (s.reserved i) ↔ (s.reserved i).slot? = s.slot?) ∧
      ((s.reserved i).slot? = s.slot? → (s.operatedEach between).SameRuns s') := by
  have h := hs.valid
  have halike := h.alike_rejected hr
  refine ⟨halike.sameRuns, ?_, fun key hm => s.slot?_assignEach_of_not_mem hm,
    ⟨fun hsame => congrArg Sight.slot hsame.sight_eq, fun hslots => ?_⟩, fun hslots => ?_⟩
  · obtain ⟨hvalid, hext, -⟩ := h.build_spec i
    have hreserved : ((build i).run.run s).2 = s.reserved i := h.asks_build i
    rw [hreserved] at hvalid hext
    exact h.sight_extends hvalid hext
  · exact (h.alike_assignEach hslots).sameRuns
  · exact (((h.alike_assignEach hslots).operatedEach between).trans halike).sameRuns

/-! ## A pool of one token, and a deposit without a proof

Two rejected intents.  The first can never be built, and still binds the leaf of a balance, which
is then missing for others: a deposit that comes later is given another leaf than it would have
been.
-/

/-- A pool of one token against itself. -/
def samePair : Intent :=
  .createPool ⟨List.replicate 26 1, rfl⟩ firstRecord.token firstRecord.token 2 3
    ⟨.ofWord 0, .ofWord 0⟩

/-- A deposit that is refused for want of a proof, after a pool was asked for. -/
theorem left_by_rejected_unproven :
    ∃ s', initial.Rejected (.deposit firstRecord) [.build samePair] s' ∧
      ((initial.reserved (.deposit firstRecord)).operatedEach [.build samePair]).SameRuns s' := by
  obtain ⟨t, mid, hbuild⟩ :
      ∃ t mid, (build (.deposit firstRecord)).run.run initial = (.ok t, mid) := ⟨_, _, rfl⟩
  have hne := (valid_initial.built hbuild).2.2.ne_genesis
  have hexecute : t.execute .trusting (mid.operatedEach [.build samePair]).roots none =
      .error .chainMismatch := by
    rw [Transition.execute, if_pos hne]
    rfl
  have hr := Rejected.refused hbuild (run_apply_of_error hexecute)
  exact ⟨_, hr, (left_by_rejected .initial hr).1⟩

/-- The pool is not built, but its keys are given leaves. -/
theorem rejected_samePair : initial.Rejected samePair [] (initial.reserved samePair) :=
  .unbuilt (f := ⟨[.distinctTokens], .state (.witness (.sameIndex 0))⟩) rfl

/-- Asking for a pool of one token leaves a valid state. -/
theorem valid_samePair : (initial.reserved samePair).Valid := by
  have hreserved : ((build samePair).run.run initial).2 = _ := valid_initial.asks_build samePair
  have hvalid := (valid_initial.build_spec samePair).valid
  rwa [hreserved] at hvalid

/-- The step of a deposit tells the leaf of its key. -/
theorem Valid.reply_deposit (h : s.Valid) {d : AccountRecord}
    (hbuild : (build (.deposit d)).run.run s = (.ok t, s')) : ∃ a : DepositArgs,
      s.replies [.build (.deposit d)] = [.ok (.built (.deposit a))] ∧
        (s.reserved (.deposit d)).balances.find? d.key = some a.witness.index.toNat := by
  obtain ⟨hreserved, -, hasked⟩ := h.built hbuild
  have hreply : s.replies [.build (.deposit d)] = [.ok (.built t)] := by
    rw [replies, Operation.asked, run_bind, hbuild]
    rfl
  rw [hreserved] at hasked
  cases hasked with
  | deposit hw => exact ⟨_, hreply, hw.find⟩

/-- Not every rejected intent leaves the state as if it had never been built: a later deposit
may be given another leaf. -/
theorem not_all_rejected_traceless :
    ¬ ∀ (s s' : RollupState) (i : Intent), s.Reachable → s.Rejected i [] s' → s.SameRuns s' := by
  intro hall
  obtain ⟨hreplies, -⟩ :=
    hall _ _ _ .initial rejected_samePair [.build (.deposit firstRecord)]
  obtain ⟨a, hreply, hleaf⟩ := valid_initial.reply_deposit (d := firstRecord) rfl
  obtain ⟨b, hreply', hleaf'⟩ := valid_samePair.reply_deposit (d := firstRecord) rfl
  -- the next deposit gets the second leaf of balances, where it would have got the first
  rw [hreply, hreply'] at hreplies
  cases hreplies
  have hzero : (initial.reserved (.deposit firstRecord)).balances.find? firstRecord.key =
    some 0 := rfl
  have hone : ((initial.reserved samePair).reserved (.deposit firstRecord)).balances.find?
    firstRecord.key = some 1 := rfl
  rw [hzero] at hleaf
  rw [hone, ← hleaf] at hleaf'
  contradiction

end RollupState

end AmmRollup
