import AmmRollup.Proofs.Rollup.Slots

/-!
# AmmRollup.Proofs.Rollup.Rollback

What a failed commit leaves behind.  It puts back the records and the trees, write by write,
so every root and every lookup is as before (`RollupState.Valid.commit_error`).  It does not
unbind the keys that its writes have bound: those keep the leaves that the refused outcome
chose for them, other keys cannot have these leaves, and a search for a free leaf passes them.

* `RollupState.Indistinguishable` — states that no calls and no reading tell apart;
* `RollupState.Alike` — states that differ at most in the order of their records and in how far
  the search for free leaves has come; nothing tells them apart
  (`RollupState.Alike.indistinguishable`);
* `RollupState.left_by_failed_commit` — what a failed commit leaves, and when it is nothing.
-/

namespace AmmRollup

namespace Table

variable {depth : Nat} {κ ρ : Type} {t t' t'' : Table depth κ ρ}

/-! ## Tables that are alike

Putting back what was written can leave the records of a table in another order, and its search
further on over bound leaves.  No operation sees either, which makes this the relation that a
rollback preserves.
-/

/-- Tables that differ at most in the order of their records, and in how many bound leaves the
search for a free one has passed. -/
def Alike (t t' : Table depth κ ρ) : Prop :=
  ∃ (records : FinMap Nat ρ) (next : Nat), records.get? = t.records.get? ∧ t.next ≤ next ∧
    (∀ i, t.next ≤ i → i < next → t.keys.contains i = true) ∧ t' = { t with records, next }

/-- A table is like itself: the search has passed no leaf in between. -/
theorem Alike.refl (t : Table depth κ ρ) : t.Alike t :=
  ⟨t.records, t.next, rfl, Nat.le_refl _, fun _ hle hlt => absurd hlt (Nat.not_lt_of_le hle), rfl⟩

theorem Alike.trans (h : t.Alike t') (h' : t'.Alike t'') : t.Alike t'' := by
  obtain ⟨records, next, hrecords, hle, hpassed, rfl⟩ := h
  obtain ⟨records', next', hrecords', hle', hpassed', rfl⟩ := h'
  refine ⟨records', next', hrecords'.trans hrecords, hle.trans hle', fun i hi hlt => ?_, rfl⟩
  rcases Nat.lt_or_ge i next with h | h
  · exact hpassed i hi h
  · exact hpassed' i h hlt

/-- The tree of a table does not depend on the order of its records. -/
theorem Alike.tree_eq (h : t.Alike t') : t'.tree = t.tree := by
  obtain ⟨records, next, -, -, -, rfl⟩ := h
  rfl

/-- The root of a table does not depend on the order of its records. -/
theorem Alike.root_eq (h : t.Alike t') : t'.root = t.root := by
  rw [root, h.tree_eq, root]

/-- The search comes to the same leaf from where it has passed bound ones only. -/
theorem firstFree_of_passed {keys : FinMap Nat κ} {start next : Nat} (hle : start ≤ next)
    (hpassed : ∀ i, start ≤ i → i < next → keys.contains i = true) :
    firstFree keys keys.size next = firstFree keys keys.size start := by
  have hfree := contains_firstFree keys start
  have hfree' := contains_firstFree keys next
  have hnext : next ≤ firstFree keys keys.size start := by
    by_contra hlt
    rw [hpassed _ (le_firstFree keys _ start) (Nat.lt_of_not_le hlt)] at hfree
    contradiction
  rcases Nat.lt_trichotomy (firstFree keys keys.size next) (firstFree keys keys.size start) with
    hlt | heq | hlt
  · rw [contains_of_lt_firstFree (hle.trans (le_firstFree keys _ next)) hlt] at hfree'
    contradiction
  · exact heq
  · rw [contains_of_lt_firstFree hnext hlt] at hfree
    contradiction

variable [DecidableEq κ]

/-- Alike tables have the same keys. -/
theorem Alike.find?_eq (h : t.Alike t') : t'.find? = t.find? := by
  obtain ⟨records, next, -, -, -, rfl⟩ := h
  rfl

/-- In alike tables the keys lead to the same records. -/
theorem Alike.get?_eq (h : t.Alike t') : t'.get? = t.get? := by
  obtain ⟨records, next, hrecords, -, -, rfl⟩ := h
  funext key
  exact congrArg (t.find? key).bind hrecords

/-- Asking for the leaf of a key treats alike tables alike. -/
theorem Alike.index (h : t.Alike t') (key : κ) :
    (t'.index key).1 = (t.index key).1 ∧ (t.index key).2.Alike (t'.index key).2 := by
  obtain ⟨records, next, hrecords, hle, hpassed, rfl⟩ := h
  have hfind : find? { t with records, next } key = t.find? key := rfl
  rw [Table.index, Table.index, hfind]
  cases t.find? key with
  | some i => exact ⟨rfl, records, next, hrecords, hle, hpassed, rfl⟩
  | none =>
      have hnone (n i : Nat) (hn : n ≤ i) (hi : i < n) (keys : FinMap Nat κ) :
          keys.contains i = true := absurd hi (Nat.not_lt_of_le hn)
      simp only [Tree.capacity_eq, firstFree_of_passed hle hpassed]
      split
      · exact ⟨rfl, records, _, hrecords, Nat.le_refl _, fun i hn hi => hnone _ i hn hi _, rfl⟩
      · exact ⟨rfl, records, _, hrecords, Nat.le_refl _, fun i hn hi => hnone _ i hn hi _, rfl⟩

/-- Claiming a leaf for a key treats alike tables alike. -/
theorem Alike.claim (h : t.Alike t') (key : κ) (index : Nat) :
    Agree Alike (t.claim key index) (t'.claim key index) := by
  obtain ⟨records, next, hrecords, hle, hpassed, rfl⟩ := h
  have hfind : find? { t with records, next } key = t.find? key := rfl
  rw [Table.claim, Table.claim, hfind]
  cases t.find? key with
  | some bound =>
      simp only
      split
      · exact .ok ⟨records, next, hrecords, hle, hpassed, rfl⟩
      · exact .error _
  | none =>
      simp only [Tree.capacity_eq]
      split
      · exact .error _
      · split
        -- a leaf that was passed stays bound when another one is
        · refine .ok ⟨records, next, hrecords, hle, fun i hi hlt => ?_, rfl⟩
          rw [bind, FinMap.contains, FinMap.get?_insert]
          split
          · rfl
          · exact hpassed i hi hlt
        · exact .error _

variable [Record ρ]

/-- Writing a record treats alike tables alike. -/
theorem Alike.write (h : t.Alike t') (key : κ) (index : Nat) (r : ρ) :
    Agree (fun a b => a.1.Alike b.1 ∧ b.2 = a.2) (t.write key index r) (t'.write key index r) := by
  refine (h.claim key index).bind fun u u' hu => ?_
  obtain ⟨records, next, hrecords, hle, hpassed, rfl⟩ := hu
  refine (Agree.refl _).bind fun tree tree' htree => ?_
  subst htree
  refine .ok ⟨⟨records.insert index r, next, ?_, hle, hpassed, rfl⟩, congrFun hrecords index⟩
  funext i
  simp only [FinMap.get?_insert, hrecords]

omit [DecidableEq κ] in
/-- Putting a record back treats alike tables alike. -/
theorem Alike.restore (h : t.Alike t') (index : Nat) (r : Option ρ) :
    (t.restore index r).Alike (t'.restore index r) := by
  obtain ⟨records, next, hrecords, hle, hpassed, rfl⟩ := h
  refine ⟨(({ t with records, next } : Table depth κ ρ).restore index r).records, next, ?_, hle,
    hpassed, rfl⟩
  rw [records_restore, records_restore, hrecords]

omit [Record ρ] in
/-- A refusal to give a leaf is no more than a search. -/
theorem alike_index_of_error {key : κ} {e : StateError} (h : (t.index key).1 = .error e) :
    t.Alike (t.index key).2 := by
  rw [Table.index] at h ⊢
  cases hfind : t.find? key with
  | some i => simp [hfind] at h
  | none =>
      simp only [hfind] at h ⊢
      split at h
      · contradiction
      · next hfull =>
          rw [if_neg hfull]
          exact ⟨t.records, _, rfl, le_firstFree _ _ _, fun _ => contains_of_lt_firstFree, rfl⟩

/-- Putting back what a write at a leaf of its key replaced leaves a table like the one before. -/
theorem Valid.alike_restore {keyOf : ρ → κ} (h : t.Valid keyOf) {index : Nat} {r : ρ}
    {prior : Option ρ} (hwrite : t.write (keyOf r) index r = .ok (t', prior))
    (hfind : t.find? (keyOf r) = some index) : t.Alike (t'.restore index prior) := by
  rw [h.write_of_bound hfind] at hwrite
  obtain ⟨rfl, rfl⟩ := Prod.mk.inj (Except.ok.inj hwrite)
  have hi := h.bound _ _ hfind
  have htree : (t.tree.rehash depth 0 index (Record.leafOrEmpty (some r))).rehash depth 0 index
      (Record.leafOrEmpty (t.records.get? index)) = t.tree := by
    rw [← h.stores.leaf_eq index hi, h.stores.built.rehash_leaf hi]
  refine ⟨((t.restore index (some r)).restore index (t.records.get? index)).records, t.next, ?_,
    Nat.le_refl _, fun _ hle hlt => absurd hlt (Nat.not_lt_of_le hle),
    congrArg (fun tree => { (t.restore index (some r)).restore index (t.records.get? index) with
      tree }) htree⟩
  rw [records_restore, records_restore, Function.update_idem, Function.update_eq_self]

/-- More bindings change no tree. -/
theorem Valid.tree_extends {keyOf : ρ → κ} (h : t.Valid keyOf) (h' : t'.Valid keyOf)
    (hext : t.Extends t') : t'.tree = t.tree :=
  h'.stores.built.eq_of_leaf_eq h.stores.built fun i hi => by
    rw [h'.stores.leaf_eq i hi, h.stores.leaf_eq i hi, hext.records]

/-! ## Bindings of a write -/

/-- A write binds its key to its leaf, and no other. -/
theorem find?_write_iff {key k : κ} {index i : Nat} {r : ρ} {prior : Option ρ}
    (hwrite : t.write key index r = .ok (t', prior)) :
    t'.find? k = some i ↔ t.find? k = some i ∨ key = k ∧ index = i := by
  obtain ⟨claimed, hclaim, -, rfl, -⟩ := write_eq_ok_iff.mp hwrite
  rw [find?_restore]
  obtain ⟨hfind, rfl⟩ | ⟨hkey, -, -, rfl⟩ := claim_eq_ok_iff.mp hclaim
  · refine (or_iff_left_of_imp ?_).symm
    rintro ⟨rfl, rfl⟩
    exact hfind
  · rw [find?, bind, FinMap.get?_insert]
    by_cases hk : k = key
    · simp [hk, hkey]
    · simp [hk, Ne.symm hk, find?]

end Table

namespace RollupState

variable {s s' s'' : RollupState}

/-! ## Reading a state

What can be read of a state are its roots, its lookups and the leaves of keys.  Two states are
indistinguishable when any calls give the same answers on both and leave the same to be read.
-/

/-- What can be read from a state: roots, lookups, and the leaf of every key. -/
structure Sight where
  roots : StateRoots
  withdrawalsRoot : Bytes32
  /-- The trees, which witnesses are read from. -/
  trees : StateTrees
  ledger : Ledger
  withdrawn : Address → Token → Option Amount
  slot : LeafKey → Option Nat
  withdrawalSlot : Address × Token → Option Nat
  depositHead : Bytes32
  depositsConsumed : Nat

/-- What can be read now. -/
def sight (s : RollupState) : Sight where
  roots := s.roots
  withdrawalsRoot := s.withdrawals.root
  trees :=
    ⟨s.balances.tree, s.liquidities.tree, s.pools.tree, s.burns.tree, s.withdrawals.tree⟩
  ledger := s.ledger
  withdrawn := s.withdrawn
  slot := s.slot?
  withdrawalSlot := s.withdrawals.find?
  depositHead := s.depositHead
  depositsConsumed := s.depositsConsumed

/-- What was paid is read from one table alone. -/
theorem withdrawn_eq (h : s'.withdrawals = s.withdrawals) : s'.withdrawn = s.withdrawn := by
  funext owner token
  simp only [withdrawn, h]

/-- The answers to calls, one after another. -/
def answers (s : RollupState) : List Call → List (Except StateError (Option Nat))
  | [] => []
  | call :: calls => (s.answer call).1 :: (s.answer call).2.answers calls

/-- No calls tell two states apart, by what they answer or by what can be read after them. -/
def Indistinguishable (s s' : RollupState) : Prop :=
  ∀ calls, s'.answers calls = s.answers calls ∧
    (s'.afterCalls calls).sight = (s.afterCalls calls).sight

/-! ## States that are alike

Alike states answer every call in the same way and stay alike, so they are indistinguishable.
The converse is not needed.
-/

/-- States whose tables are alike. -/
structure Alike (s s' : RollupState) : Prop where
  balances : s.balances.Alike s'.balances
  liquidities : s.liquidities.Alike s'.liquidities
  pools : s.pools.Alike s'.pools
  burns : s.burns.Alike s'.burns
  withdrawals : s'.withdrawals = s.withdrawals
  depositHead : s'.depositHead = s.depositHead
  depositsConsumed : s'.depositsConsumed = s.depositsConsumed

namespace Alike

theorem refl (s : RollupState) : s.Alike s :=
  ⟨.refl _, .refl _, .refl _, .refl _, rfl, rfl, rfl⟩

theorem trans (h : s.Alike s') (h' : s'.Alike s'') : s.Alike s'' where
  balances := h.balances.trans h'.balances
  liquidities := h.liquidities.trans h'.liquidities
  pools := h.pools.trans h'.pools
  burns := h.burns.trans h'.burns
  withdrawals := h'.withdrawals.trans h.withdrawals
  depositHead := h'.depositHead.trans h.depositHead
  depositsConsumed := h'.depositsConsumed.trans h.depositsConsumed

/-- Alike states have the same roots. -/
theorem roots_eq (h : s.Alike s') : s'.roots = s.roots := by
  simp only [roots, h.balances.root_eq, h.liquidities.root_eq, h.pools.root_eq, h.burns.root_eq]

/-- Alike states have the same leaves of keys. -/
theorem slot?_eq (h : s.Alike s') : s'.slot? = s.slot? := by
  funext key
  cases key with
  | balance owner token => exact congrFun h.balances.find?_eq _
  | liquidity provider base quote => exact congrFun h.liquidities.find?_eq _
  | pool base quote => exact congrFun h.pools.find?_eq _
  | burn owner token => exact congrFun h.burns.find?_eq _

/-- Alike states have the same ledger. -/
theorem ledger_eq (h : s.Alike s') : s'.ledger = s.ledger := by
  simp only [ledger, balance, pool, liquidity, burned, h.balances.get?_eq, h.liquidities.get?_eq,
    h.pools.get?_eq, h.burns.get?_eq]

/-- What is read from alike states is the same. -/
theorem sight_eq (h : s.Alike s') : s'.sight = s.sight := by
  simp only [sight, h.roots_eq, h.balances.tree_eq, h.liquidities.tree_eq, h.pools.tree_eq,
    h.burns.tree_eq, h.ledger_eq, h.slot?_eq, h.withdrawals, withdrawn_eq h.withdrawals,
    h.depositHead, h.depositsConsumed]

/-- A leaf is written into both of two alike states or refused by both, with the same thing to put
back. -/
theorem write (h : s.Alike s') (w : LeafWrite) :
    Agree (fun a b => a.1.Alike b.1 ∧ b.2 = a.2) (s.write w) (s'.write w) := by
  -- a leaf of one tree leaves the three other tables as they are
  obtain ⟨index, leaf⟩ := w
  cases leaf with
  | balance r =>
      refine (h.balances.write (r.account, r.token) index.toNat r).bind fun a b ⟨hab, hprior⟩ => ?_
      exact .ok ⟨{ h with balances := hab }, congrArg (Undo.balance index.toNat) hprior⟩
  | burn r =>
      refine (h.burns.write (r.account, r.token) index.toNat r).bind fun a b ⟨hab, hprior⟩ => ?_
      exact .ok ⟨{ h with burns := hab }, congrArg (Undo.burn index.toNat) hprior⟩
  | pool p =>
      refine (h.pools.write (p.base, p.quote) index.toNat p).bind fun a b ⟨hab, hprior⟩ => ?_
      exact .ok ⟨{ h with pools := hab }, congrArg (Undo.pool index.toNat) hprior⟩
  | liquidity l =>
      refine (h.liquidities.write (l.provider, l.base, l.quote) index.toNat l).bind
        fun a b ⟨hab, hprior⟩ => ?_
      exact .ok ⟨{ h with liquidities := hab }, congrArg (Undo.liquidity index.toNat) hprior⟩

/-- Putting one thing back treats alike states alike. -/
theorem undo (h : s.Alike s') (u : Undo) : (s.undo u).Alike (s'.undo u) := by
  cases u with
  | balance index prior => exact { h with balances := h.balances.restore index prior }
  | burn index prior => exact { h with burns := h.burns.restore index prior }
  | pool index prior => exact { h with pools := h.pools.restore index prior }
  | liquidity index prior => exact { h with liquidities := h.liquidities.restore index prior }

/-- Putting any number of things back treats alike states alike. -/
theorem rollback (h : s.Alike s') (undos : List Undo) :
    (s.rollback undos).Alike (s'.rollback undos) := by
  induction undos generalizing s s' with
  | nil => exact h
  | cons u undos ih => exact ih (h.undo u)

/-- Several writes stop at the same place in alike states. -/
theorem writeAll (h : s.Alike s') (undos : List Undo) (ws : List LeafWrite) :
    (s'.writeAll undos ws).1 = (s.writeAll undos ws).1 ∧
      (s.writeAll undos ws).2.1.Alike (s'.writeAll undos ws).2.1 ∧
      (s'.writeAll undos ws).2.2 = (s.writeAll undos ws).2.2 := by
  induction ws generalizing s s' undos with
  | nil => exact ⟨rfl, h, rfl⟩
  | cons w ws ih =>
      have hw := h.write w
      rw [RollupState.writeAll, RollupState.writeAll]
      generalize s.write w = x at hw
      generalize s'.write w = y at hw
      cases hw with
      | ok hab =>
          obtain ⟨hnext, hu⟩ := hab
          simp only [hu]
          exact ih hnext _
      | error e => exact ⟨rfl, h, rfl⟩

/-- A commit succeeds on both of two alike states, or is undone on both. -/
theorem commit (h : s.Alike s') (o : Outcome) :
    (s'.commit o).1 = (s.commit o).1 ∧ (s.commit o).2.Alike (s'.commit o).2 := by
  obtain ⟨hresult, hwritten, hundos⟩ := h.writeAll [] o.writes
  rw [RollupState.commit, RollupState.commit]
  generalize s.writeAll [] o.writes = x at *
  generalize s'.writeAll [] o.writes = y at *
  obtain ⟨result, written, undos⟩ := x
  obtain ⟨result', written', undos'⟩ := y
  simp only at hresult hwritten hundos
  subst hresult hundos
  -- both have made the same writes, and fail or reach the same roots
  cases result' with
  | error e => exact ⟨rfl, hwritten.rollback undos'⟩
  | ok u =>
      simp only [hwritten.roots_eq]
      split
      · exact ⟨rfl, hwritten⟩
      · exact ⟨rfl, hwritten.rollback undos'⟩

/-- Recording a payment looks at withdrawals, which are equal, and at the leaves of burns. -/
theorem recordWithdrawal (h : s.Alike s') (owner : Address) (token : Token) (total : Amount) :
    (s'.recordWithdrawal owner token total).1 = (s.recordWithdrawal owner token total).1 ∧
      (s.recordWithdrawal owner token total).2.Alike
        (s'.recordWithdrawal owner token total).2 := by
  obtain ⟨hresult, hburns⟩ := h.burns.index (owner, token)
  rw [RollupState.recordWithdrawal, RollupState.recordWithdrawal, h.withdrawals]
  generalize s.burns.index (owner, token) = x at *
  generalize s'.burns.index (owner, token) = y at *
  obtain ⟨result, burns⟩ := x
  obtain ⟨result', burns'⟩ := y
  simp only at hresult hburns
  subst hresult
  -- the leaf of burns is the same, and the table of withdrawals is one table
  cases result' with
  | error e => exact ⟨rfl, { h with burns := hburns, withdrawals := rfl }⟩
  | ok index =>
      simp only
      split
      · exact ⟨rfl, { h with burns := hburns, withdrawals := rfl }⟩
      · exact ⟨rfl, { h with burns := hburns, withdrawals := rfl }⟩

/-- A key is given the same leaf in both. -/
theorem assign (h : s.Alike s') (key : LeafKey) :
    (s'.assign key).1 = (s.assign key).1 ∧ (s.assign key).2.Alike (s'.assign key).2 := by
  cases key with
  | balance owner token =>
      obtain ⟨hresult, hbalances⟩ := h.balances.index (owner, token)
      exact ⟨hresult, { h with balances := hbalances }⟩
  | liquidity provider base quote =>
      obtain ⟨hresult, hliquidities⟩ := h.liquidities.index (provider, base, quote)
      exact ⟨hresult, { h with liquidities := hliquidities }⟩
  | pool base quote =>
      obtain ⟨hresult, hpools⟩ := h.pools.index (base, quote)
      exact ⟨hresult, { h with pools := hpools }⟩
  | burn owner token =>
      obtain ⟨hresult, hburns⟩ := h.burns.index (owner, token)
      exact ⟨hresult, { h with burns := hburns }⟩

/-- Every call is answered in the same way by alike states, and leaves alike states. -/
theorem answer (h : s.Alike s') (call : Call) :
    (s'.answer call).1 = (s.answer call).1 ∧ (s.answer call).2.Alike (s'.answer call).2 := by
  cases call with
  | assign key =>
      obtain ⟨hresult, hstate⟩ := h.assign key
      exact ⟨congrArg (Except.map some) hresult, hstate⟩
  | commit o =>
      obtain ⟨hresult, hstate⟩ := h.commit o
      exact ⟨congrArg (Except.map fun _ => none) hresult, hstate⟩
  | record owner token total =>
      obtain ⟨hresult, hstate⟩ := h.recordWithdrawal owner token total
      exact ⟨congrArg (Except.map fun _ => none) hresult, hstate⟩
  | consume head =>
      exact ⟨rfl, { h with
        depositHead := rfl
        depositsConsumed := congrArg (· + 1) h.depositsConsumed }⟩

/-- No calls tell alike states apart. -/
theorem indistinguishable (h : s.Alike s') : s.Indistinguishable s' := by
  intro calls
  induction calls generalizing s s' with
  | nil => exact ⟨rfl, h.sight_eq⟩
  | cons call calls ih =>
      obtain ⟨hanswer, hnext⟩ := h.answer call
      obtain ⟨hanswers, hsight⟩ := ih hnext
      exact ⟨by rw [answers, answers, hanswer, hanswers], hsight⟩

end Alike

/-! ## Bindings of a commit

A failed commit has bound the keys of the writes that it made before it failed.  These bindings
are told exactly, as they are all that it leaves.
-/

/-- The writes that are made before the first one that is refused. -/
def accepted (s : RollupState) : List LeafWrite → List LeafWrite
  | [] => []
  | w :: ws =>
      match s.write w with
      | .ok (s, _) => w :: s.accepted ws
      | .error _ => []

/-- Writes that were made are among those that were asked for. -/
theorem mem_of_mem_accepted {w : LeafWrite} {ws : List LeafWrite} (hm : w ∈ s.accepted ws) :
    w ∈ ws := by
  induction ws generalizing s with
  | nil => exact hm
  | cons w' ws ih =>
      rw [accepted] at hm
      split at hm
      · rcases List.mem_cons.mp hm with rfl | h
        · exact List.mem_cons_self
        · exact List.mem_cons_of_mem w' (ih h)
      · contradiction

/-- A leaf that is written is bound to its key, in whichever of the four tables it is. -/
theorem slot?_write_iff {w : LeafWrite} {u : Undo} (hw : s.write w = .ok (s', u)) {key : LeafKey}
    {i : Nat} : s'.slot? key = some i ↔
      s.slot? key = some i ∨ w.leaf.key = key ∧ w.index.toNat = i := by
  obtain ⟨index, leaf⟩ := w
  obtain ⟨r, _, _, rfl, hwrite, rfl, -⟩ | ⟨r, _, _, rfl, hwrite, rfl, -⟩ |
    ⟨p, _, _, rfl, hwrite, rfl, -⟩ | ⟨l, _, _, rfl, hwrite, rfl, -⟩ := write_cases hw
  all_goals
    have hfind {k} := Table.find?_write_iff (k := k) (i := i) hwrite
    cases key <;> simp [slot?, LeafValue.key, hfind, AccountRecord.key, Pool.key, Liquidity.key]

/-- Putting back what was written touches no binding. -/
theorem slot?_rollback (s : RollupState) (undos : List Undo) :
    (s.rollback undos).slot? = s.slot? := by
  induction undos generalizing s with
  | nil => rfl
  | cons u undos ih =>
      refine (ih (s.undo u)).trans ?_
      funext key
      cases u <;> cases key <;> rfl

/-- What is bound after several writes is what their keys were bound to on the way. -/
theorem slot?_writeAll_iff (s : RollupState) (undos : List Undo) (ws : List LeafWrite)
    {key : LeafKey} {i : Nat} : (s.writeAll undos ws).2.1.slot? key = some i ↔
      s.slot? key = some i ∨ ∃ w ∈ s.accepted ws, w.leaf.key = key ∧ w.index.toNat = i := by
  induction ws generalizing s undos with
  | nil => simp [writeAll, accepted]
  | cons w ws ih =>
      cases hw : s.write w with
      | error e => simp [writeAll, accepted, hw]
      | ok written =>
          simp only [writeAll, accepted, hw, ih, slot?_write_iff hw, List.exists_mem_cons_iff]
          exact or_assoc

/-- A commit that fails keeps the bindings of every write that it has made. -/
theorem slot?_commit_iff {o : Outcome} {e : StateError} (hc : s.commit o = (.error e, s'))
    {key : LeafKey} {i : Nat} : s'.slot? key = some i ↔
      s.slot? key = some i ∨ ∃ w ∈ s.accepted o.writes, w.leaf.key = key ∧ w.index.toNat = i := by
  obtain ⟨hok, -⟩ | ⟨-, -, rfl⟩ := commit_cases hc
  · contradiction
  · rw [slot?_rollback, slot?_writeAll_iff]

/-! ## Putting back

Where the keys had their leaves before, nothing is bound, and the state is like the one before
the commit.
-/

/-- A write at the leaf that its key had is put back without a trace. -/
theorem Valid.alike_undo (h : s.Valid) {w : LeafWrite} {u : Undo} (hw : s.write w = .ok (s', u))
    (hb : s.slot? w.leaf.key = some w.index.toNat) : s.Alike (s'.undo u) := by
  obtain ⟨index, leaf⟩ := w
  obtain ⟨r, _, _, rfl, hwrite, rfl, rfl⟩ | ⟨r, _, _, rfl, hwrite, rfl, rfl⟩ |
    ⟨p, _, _, rfl, hwrite, rfl, rfl⟩ | ⟨l, _, _, rfl, hwrite, rfl, rfl⟩ := write_cases hw
  · exact { Alike.refl s with balances := h.balances.alike_restore hwrite hb }
  · exact { Alike.refl s with burns := h.burns.alike_restore hwrite hb }
  · exact { Alike.refl s with pools := h.pools.alike_restore hwrite hb }
  · exact { Alike.refl s with liquidities := h.liquidities.alike_restore hwrite hb }

/-- Writes at leaves of their keys are put back without a trace. -/
theorem Valid.alike_rollback (h : s.Valid) {start : RollupState} {undos : List Undo}
    (hstart : start.Alike (s.rollback undos)) {ws : List LeafWrite}
    (hb : ∀ w ∈ s.accepted ws, s.slot? w.leaf.key = some w.index.toNat) :
    start.Alike ((s.writeAll undos ws).2.1.rollback (s.writeAll undos ws).2.2) := by
  induction ws generalizing s undos with
  | nil => exact hstart
  | cons w ws ih =>
      rw [accepted] at hb
      rw [writeAll]
      split
      · next next u hw =>
          simp only [hw, List.forall_mem_cons] at hb
          have hundo := (h.alike_undo hw hb.1).rollback undos
          refine ih (h.write_spec hw).valid (hstart.trans hundo) fun w' hm => ?_
          exact (slot?_write_iff hw).mpr (.inl (hb.2 w' hm))
      · exact hstart

/-- A commit that fails leaves no trace if the keys of the writes it made had those leaves. -/
theorem Valid.alike_commit_of_error (h : s.Valid) {o : Outcome} {e : StateError}
    (hc : s.commit o = (.error e, s'))
    (hb : ∀ w ∈ s.accepted o.writes, s.slot? w.leaf.key = some w.index.toNat) : s.Alike s' := by
  obtain ⟨hok, -⟩ | ⟨-, -, rfl⟩ := commit_cases hc
  · contradiction
  · have hstart : s.Alike (s.rollback []) := .refl s
    exact h.alike_rollback hstart hb

/-! ## Main result -/

/-- All that is read from a state that has gained bindings is as before, but the leaves of keys. -/
theorem Valid.sight_extends (h : s.Valid) (h' : s'.Valid) (hext : s.Extends s') :
    s'.sight = { s.sight with slot := s'.slot? } := by
  have hroots : s'.roots = s.roots := by rw [h'.roots_eq, hext.records_eq, h.roots_eq]
  have hbalances := h.balances.tree_extends h'.balances hext.balances
  have hliquidities := h.liquidities.tree_extends h'.liquidities hext.liquidities
  have hpools := h.pools.tree_extends h'.pools hext.pools
  have hburns := h.burns.tree_extends h'.burns hext.burns
  simp only [sight, hroots, hbalances, hliquidities, hpools, hburns, h.ledger_extends h' hext,
    hext.withdrawals, withdrawn_eq hext.withdrawals, hext.depositHead, hext.depositsConsumed]

/-- **A failed commit leaves the bindings of the writes it had made.**  After any calls, and so in
every reachable state, a commit of any outcome that fails in any way, at any write or at the
roots, leaves trees, records and deposits as they were.  The keys of the writes before the
refused one stay bound to the leaves where they were written.  So it leaves no trace, in anything
that is read or asked for later, just when these keys had these leaves before. -/
theorem left_by_failed_commit {calls : List Call} {o : Outcome} {e : StateError}
    {s' : RollupState} (hc : (initial.afterCalls calls).commit o = (.error e, s')) :
    let s := initial.afterCalls calls
    s'.sight = { s.sight with slot := s'.slot? } ∧
      (∀ key i, s'.slot? key = some i ↔ s.slot? key = some i ∨
        ∃ w ∈ s.accepted o.writes, w.leaf.key = key ∧ w.index.toNat = i) ∧
      (s.Indistinguishable s' ↔
        ∀ w ∈ s.accepted o.writes, s.slot? w.leaf.key = some w.index.toNat) := by
  intro s
  have h : s.Valid := valid_initial.afterCalls calls
  obtain ⟨h', hext⟩ := h.commit_error hc
  refine ⟨h.sight_extends h' hext, fun key i => slot?_commit_iff hc, fun hsame w hm => ?_,
    fun hb => ?_⟩
  · have hslot : s'.slot? = s.slot? := congrArg Sight.slot (hsame []).2
    rw [← hslot]
    exact (slot?_commit_iff hc).mpr (.inr ⟨w, hm, rfl, rfl⟩)
  · exact (h.alike_commit_of_error hc hb).indistinguishable

/-! ## A commit that fails at the roots

The binding that is left can be seen: an outcome with roots it cannot lead to is refused, and its
key has a leaf ever after, which a later deposit then uses.
-/

/-- A balance at some leaf, with roots that it cannot lead to: no tree of burns that is
unwritten has this root. -/
def divergingOutcome (index : UInt64) : Outcome where
  roots := { initial.roots with burns := emptyLeaf }
  writes := [⟨index, .balance firstRecord⟩]

/-- The key of the balance. -/
def divergingKey : LeafKey := .balance firstRecord.account firstRecord.token

/-- The roots of nothing are not all zero. -/
theorem initial_burns_root_ne : initial.burns.root ≠ emptyLeaf := by
  have hnodup : (emptyLeaf :: emptySubtreesFrom (emptySubtree 1) 22).Nodup :=
    Records.nodup_emptySubtreesFrom
  have hroot : initial.burns.root = emptySubtree (1 + 18) := Tree.root_empty (burnsHeight - 1)
  intro he
  apply (List.nodup_cons.mp hnodup).1
  rw [← he, hroot]
  exact emptySubtree_mem 1 (by decide)

/-- An outcome that claims an impossible root is refused, whatever it writes. -/
theorem Valid.commit_diverging (h : s.Valid) (hburns : s.burns = initial.burns) (index : UInt64) :
    ∃ e s', s.commit (divergingOutcome index) = (.error e, s') := by
  cases hc : s.commit (divergingOutcome index) with
  | mk r s' =>
      cases r with
      | error e => exact ⟨e, s', rfl⟩
      | ok u =>
          obtain ⟨hwrites, hroots⟩ := h.commit_ok hc
          have hkept : s'.roots.burns = s.roots.burns := by
            rw [(hwrites.valid h).roots_eq, hwrites.records_eq, h.roots_eq]
            rfl
          rw [hroots] at hkept
          refine absurd ?_ initial_burns_root_ne
          rw [← hburns]
          exact hkept.symm

/-- A key that had the leaf before keeps it, and the failed commit leaves no trace. -/
theorem left_by_failed_commit_assigned :
    ∃ e s', (initial.afterCalls [.assign divergingKey]).commit (divergingOutcome 0) =
        (.error e, s') ∧
      (initial.afterCalls [.assign divergingKey]).Indistinguishable s' := by
  obtain ⟨e, s', hc⟩ :=
    (valid_initial.afterCalls [.assign divergingKey]).commit_diverging rfl 0
  refine ⟨e, s', hc, (left_by_failed_commit hc).2.2.mpr fun w hm => ?_⟩
  obtain rfl := List.mem_singleton.mp (mem_of_mem_accepted hm)
  rfl

/-- A key that had no leaf before has the one that the refused outcome chose for it. -/
theorem commit_diverging_binds :
    ∃ e s', initial.commit (divergingOutcome 5) = (.error e, s') ∧
      (initial.assign divergingKey).1 = .ok 0 ∧ (s'.assign divergingKey).1 = .ok 5 := by
  obtain ⟨e, s', hc⟩ := valid_initial.commit_diverging rfl 5
  have hwrite : ∃ next u, initial.write ⟨5, .balance firstRecord⟩ = .ok (next, u) :=
    ⟨_, _, bind_eq_ok_iff.mpr ⟨_, Table.write_eq_ok_iff.mpr ⟨_, Table.claim_eq_ok_iff.mpr
      (.inr ⟨rfl, rfl, by decide, rfl⟩), by decide, rfl, rfl⟩, rfl⟩⟩
  obtain ⟨next, u, hw⟩ := hwrite
  have hmade : ⟨5, .balance firstRecord⟩ ∈ initial.accepted (divergingOutcome 5).writes := by
    simp [divergingOutcome, accepted, hw]
  have hslot : s'.slot? divergingKey = some 5 :=
    (slot?_commit_iff hc).mpr (.inr ⟨_, hmade, rfl, rfl⟩)
  have hfind : s'.balances.find? firstRecord.key = some 5 := hslot
  exact ⟨e, s', hc, rfl, congrArg Prod.fst (Table.index_of_bound hfind)⟩

/-- Not every failed commit leaves the state as if it had not been called. -/
theorem not_all_failed_commits_traceless :
    ¬ ∀ (calls : List Call) (o : Outcome) (e : StateError) (s' : RollupState),
      (initial.afterCalls calls).commit o = (.error e, s') →
        (initial.afterCalls calls).Indistinguishable s' := by
  intro hall
  obtain ⟨e, s', hc, hbefore, hafter⟩ := commit_diverging_binds
  obtain ⟨hanswers, -⟩ := hall [] _ e s' hc [.assign divergingKey]
  change [(s'.assign divergingKey).1.map some] = [(initial.assign divergingKey).1.map some]
    at hanswers
  rw [hbefore, hafter] at hanswers
  simp [Except.map] at hanswers

end RollupState

end AmmRollup
