import AmmRollup.Proofs.Merkle.Canonical
import AmmRollup.Proofs.Rollup.Reachable

/-!
# AmmRollup.Proofs.Rollup.Slots

How keys come to their leaves.  A key is bound when its leaf is asked for, which gives it
the first free one, when an outcome writes at a leaf of its own choice, and, in the tree of
withdrawals, when a payment is recorded at the leaf of its burns.  All of them feed the same
two maps, and a commit that fails takes back records but no bindings.

* `Table.Grows` — what any of this may do to the bindings of a table;
* `Table.Indexed` — how keys, leaves and records of a table fit together;
* `RollupState.Call` — the calls that bind keys, with any arguments, succeeding or not; they
  lead to every reachable state (`RollupState.exists_calls_of_reachable`);
* `RollupState.indexed_of_calls` — what any of these calls make of the initial state.
-/

namespace AmmRollup

namespace Table

variable {depth : Nat} {κ ρ : Type} [DecidableEq κ] {t t' t'' : Table depth κ ρ} {keyOf : ρ → κ}
  {key : κ} {index : Nat}

/-! ## Growing tables

Bindings are only ever added.  `Table.Grows` says so without mentioning records, which come and
go, and it says what the search for a free leaf relies on.
-/

/-- What may happen to the bindings of a table: no key loses its leaf and no leaf its key,
and the search for a free leaf passes bound ones only. -/
structure Grows (t t' : Table depth κ ρ) : Prop where
  kind : t'.kind = t.kind
  find : ∀ key i, t.find? key = some i → t'.find? key = some i
  keys : ∀ i key, t.keys.get? i = some key → t'.keys.get? i = some key
  passed : ∀ i, t.next ≤ i → i < t'.next → ∃ key, t'.keys.get? i = some key

theorem Grows.refl (t : Table depth κ ρ) : t.Grows t where
  kind := rfl
  find _ _ h := h
  keys _ _ h := h
  passed _ hle hlt := absurd hlt (Nat.not_lt_of_le hle)

theorem Grows.trans (h : t.Grows t') (h' : t'.Grows t'') : t.Grows t'' where
  kind := h'.kind.trans h.kind
  find key i hi := h'.find key i (h.find key i hi)
  keys i key hi := h'.keys i key (h.keys i key hi)
  passed i hle hlt := by
    by_cases hi : i < t'.next
    · obtain ⟨key, hkey⟩ := h.passed i hle hi
      exact ⟨key, h'.keys i key hkey⟩
    · exact h'.passed i (Nat.le_of_not_lt hi) hlt

/-- In a table that grew from an unwritten one, the search has passed bound leaves only. -/
theorem Grows.bound_of_lt_next {kind : StateTree} (h : (empty kind depth).Grows t) {i : Nat}
    (hi : i < t.next) : ∃ key, t.keys.get? i = some key :=
  h.passed i (Nat.zero_le i) hi

/-- Binding a free leaf to a key that has none only adds to the bindings. -/
theorem grows_bind (hkey : t.find? key = none) (hfree : t.keys.get? index = none) :
    t.Grows (t.bind key index) where
  kind := rfl
  find k i hi := by
    rw [find?, bind, FinMap.get?_insert, if_neg fun he => by simp [← he, hi] at hkey]
    exact hi
  keys i k hk := by
    rw [bind, FinMap.get?_insert, if_neg fun he => by simp [← he, hk] at hfree]
    exact hk
  passed _ hle hlt := absurd hlt (Nat.not_lt_of_le hle)

/-- Asking for the leaf of a key passes no free one. -/
theorem grows_index (t : Table depth κ ρ) (key : κ) : t.Grows (t.index key).2 := by
  obtain ⟨i, -, heq⟩ | ⟨free, hkey, hfree, hpassed, ⟨-, heq⟩ | ⟨-, heq⟩⟩ := t.index_cases key
  · rw [heq]
    exact .refl t
  · rw [heq]
    have hbind := grows_bind hkey hfree
    refine { hbind with passed := fun i hle hlt => ?_ }
    by_cases hi : i = free
    · exact ⟨key, by simp [bind, FinMap.get?_insert, hi]⟩
    · change i < free + 1 at hlt
      obtain ⟨k, hk⟩ := hpassed i hle (by omega)
      exact ⟨k, hbind.keys i k hk⟩
  · rw [heq]
    exact { Grows.refl t with passed := hpassed }

variable [Record ρ]

/-- Records may come and go, since growth is a matter of bindings. -/
theorem grows_restore (t : Table depth κ ρ) (index : Nat) (r : Option ρ) :
    t.Grows (t.restore index r) :=
  { Grows.refl t with kind := rfl }

/-- A write binds its key, if at all, where neither was bound. -/
theorem grows_write {r prior} (hwrite : t.write key index r = .ok (t', prior)) : t.Grows t' := by
  obtain ⟨claimed, hclaim, -, rfl, -⟩ := write_eq_ok_iff.mp hwrite
  obtain ⟨-, rfl⟩ | ⟨hkey, hfree, -, rfl⟩ := claim_eq_ok_iff.mp hclaim
  · exact grows_restore claimed index (some r)
  · exact (grows_bind hkey hfree).trans (grows_restore _ index (some r))

/-! ## Indexed tables

What the bindings of a table are good for, as its users see it: keys and leaves are one to one,
every record stands at the leaf of its key, and the search is refused only by a full table.
-/

/-- How keys, leaves and records of a table fit together. -/
structure Indexed (t : Table depth κ ρ) (kind : StateTree) (keyOf : ρ → κ) : Prop where
  /-- The leaf of each key and the key of each leaf are inverse. -/
  inverse : ∀ key i, t.slots.get? key = some i ↔ t.keys.get? i = some key
  /-- Keys are bound to leaves of the tree. -/
  in_range : ∀ key i, t.slots.get? key = some i → i < t.tree.capacity
  /-- The tree has the record of each leaf, and the unwritten leaf where there is none. -/
  leaf_eq : ∀ i, t.tree.leaf i = Record.leafOrEmpty (t.records.get? i)
  /-- A record stands at the leaf of its own key. -/
  keyed : ∀ i r, t.records.get? i = some r → t.keys.get? i = some (keyOf r)
  /-- The search for a free leaf starts after bound ones. -/
  dense : ∀ i < t.next, ∃ key, t.keys.get? i = some key
  /-- Only a table without free leaves refuses to give one. -/
  full : ∀ key e, (t.index key).1 = .error e →
    e = .full kind ∧ ∀ i < t.tree.capacity, ∃ k, t.keys.get? i = some k

/-- A valid table that grew from an unwritten one is indexed. -/
theorem Valid.indexed {kind : StateTree} (h : t.Valid keyOf) (hgrows : (empty kind depth).Grows t) :
    t.Indexed kind keyOf where
  inverse := h.slots
  in_range key i hi := by simpa using h.bound key i hi
  leaf_eq i := by
    -- beyond its range a tree has unwritten leaves, and a table no records
    by_cases hi : i < 2 ^ depth
    · exact h.stores.leaf_eq i hi
    · have hbeyond := Nat.le_of_not_lt hi
      rw [h.stores.built.trimmed.leaf_of_le hbeyond, h.stores.none_beyond i hbeyond,
        Record.leafOrEmpty]
  keyed i r hr := (h.slots _ _).mp (h.keyed i r hr)
  dense _ hi := hgrows.bound_of_lt_next hi
  full key e he := by
    obtain ⟨i, -, heq⟩ | ⟨free, -, -, hpassed, ⟨-, heq⟩ | ⟨hfull, heq⟩⟩ := t.index_cases key
    · simp [heq] at he
    · simp [heq] at he
    · rw [heq] at he
      constructor
      · rw [← Except.error.inj he, hgrows.kind, empty]
      · intro i hi
        rw [Tree.capacity_eq] at hi
        -- a full table has bound leaves up to where the search began, and those that it passed
        by_cases hnext : i < t.next
        · exact hgrows.bound_of_lt_next hnext
        · exact hpassed i (Nat.le_of_not_lt hnext) (by omega)

end Table

/-! ## Keys of leaves

Four tables have keys of four kinds.  As one type of keys, what is said of the bindings of a
state need not be said four times.
-/

/-- A key of one of the four state trees. -/
inductive LeafKey where
  | balance (owner : Address) (token : Token)
  | liquidity (provider : Address) (base quote : Token)
  | pool (base quote : Token)
  | burn (owner : Address) (token : Token)
deriving DecidableEq

/-- The key of a leaf. -/
def LeafValue.key : LeafValue → LeafKey
  | .balance r => .balance r.account r.token
  | .burn r => .burn r.account r.token
  | .pool p => .pool p.base p.quote
  | .liquidity l => .liquidity l.provider l.base l.quote

namespace RollupState

variable {s s' : RollupState}

/-- The leaf that a key is bound to. -/
def slot? (s : RollupState) : LeafKey → Option Nat
  | .balance owner token => s.balances.find? (owner, token)
  | .liquidity provider base quote => s.liquidities.find? (provider, base, quote)
  | .pool base quote => s.pools.find? (base, quote)
  | .burn owner token => s.burns.find? (owner, token)

/-- Being bound to the index of a write is having it as one's leaf. -/
theorem bound_iff {w : LeafWrite} : s.Bound w ↔ s.slot? w.leaf.key = some w.index.toNat := by
  obtain ⟨index, leaf⟩ := w
  cases leaf <;> exact Iff.rfl

/-! ## Growing states

A state grows when each of its tables does.  All that a commit does to it, and undoes, grows it:
rolling back restores records, and leaves bindings alone.
-/

/-- What may happen to the bindings of a state: those of each table grow. -/
structure Grows (s s' : RollupState) : Prop where
  balances : s.balances.Grows s'.balances
  liquidities : s.liquidities.Grows s'.liquidities
  pools : s.pools.Grows s'.pools
  burns : s.burns.Grows s'.burns
  withdrawals : s.withdrawals.Grows s'.withdrawals

theorem Grows.refl (s : RollupState) : s.Grows s := ⟨.refl _, .refl _, .refl _, .refl _, .refl _⟩

theorem Grows.trans {s'' : RollupState} (h : s.Grows s') (h' : s'.Grows s'') : s.Grows s'' where
  balances := h.balances.trans h'.balances
  liquidities := h.liquidities.trans h'.liquidities
  pools := h.pools.trans h'.pools
  burns := h.burns.trans h'.burns
  withdrawals := h.withdrawals.trans h'.withdrawals

/-- A key keeps its leaf as a state grows. -/
theorem Grows.slot?_eq (h : s.Grows s') {key : LeafKey} {index : Nat}
    (hslot : s.slot? key = some index) : s'.slot? key = some index := by
  cases key with
  | balance owner token => exact h.balances.find _ _ hslot
  | liquidity provider base quote => exact h.liquidities.find _ _ hslot
  | pool base quote => exact h.pools.find _ _ hslot
  | burn owner token => exact h.burns.find _ _ hslot

/-- Writing a leaf lets bindings grow. -/
theorem grows_write {w : LeafWrite} {u : Undo} (hw : s.write w = .ok (s', u)) : s.Grows s' := by
  obtain ⟨r, _, _, -, hwrite, rfl, -⟩ | ⟨r, _, _, -, hwrite, rfl, -⟩ |
    ⟨p, _, _, -, hwrite, rfl, -⟩ | ⟨l, _, _, -, hwrite, rfl, -⟩ := write_cases hw
  · exact { Grows.refl s with balances := Table.grows_write hwrite }
  · exact { Grows.refl s with burns := Table.grows_write hwrite }
  · exact { Grows.refl s with pools := Table.grows_write hwrite }
  · exact { Grows.refl s with liquidities := Table.grows_write hwrite }

/-- Putting a record back lets bindings grow. -/
theorem grows_undo (s : RollupState) (u : Undo) : s.Grows (s.undo u) := by
  cases u with
  | balance index prior =>
      exact { Grows.refl s with balances := s.balances.grows_restore index prior }
  | burn index prior => exact { Grows.refl s with burns := s.burns.grows_restore index prior }
  | pool index prior => exact { Grows.refl s with pools := s.pools.grows_restore index prior }
  | liquidity index prior =>
      exact { Grows.refl s with liquidities := s.liquidities.grows_restore index prior }

/-- Putting several records back lets bindings grow. -/
theorem grows_rollback (s : RollupState) (undos : List Undo) : s.Grows (s.rollback undos) := by
  induction undos generalizing s with
  | nil => exact .refl s
  | cons u undos ih => exact (s.grows_undo u).trans (ih (s.undo u))

/-- Writing until a leaf is refused lets bindings grow. -/
theorem grows_writeAll (s : RollupState) (undos : List Undo) (ws : List LeafWrite) :
    s.Grows (s.writeAll undos ws).2.1 := by
  induction ws generalizing s undos with
  | nil => exact .refl s
  | cons w ws ih =>
      rw [writeAll]
      split
      · next next u hw => exact (grows_write hw).trans (ih next (u :: undos))
      · exact .refl s

/-- A commit takes back records, never bindings. -/
theorem grows_commit (s : RollupState) (o : Outcome) : s.Grows (s.commit o).2 := by
  have hwritten := s.grows_writeAll [] o.writes
  cases hc : s.commit o with
  | mk r s' =>
      obtain ⟨-, -, rfl, -⟩ | ⟨-, -, rfl⟩ := commit_cases hc
      · exact hwritten
      · exact hwritten.trans (grows_rollback _ _)

/-- Recording a payment binds a leaf of burns and the same one of withdrawals, at most. -/
theorem grows_recordWithdrawal (s : RollupState) (owner : Address) (token : Token)
    (total : Amount) : s.Grows (s.recordWithdrawal owner token total).2 := by
  have hburns := s.burns.grows_index (owner, token)
  rw [recordWithdrawal]
  -- the leaf of burns is kept even when writing the payment is refused
  split
  · next e burns hindex =>
      rw [hindex] at hburns
      exact { Grows.refl s with burns := hburns }
  · next index burns hindex =>
      rw [hindex] at hburns
      split
      · exact { Grows.refl s with burns := hburns }
      · next withdrawals _ hwrite =>
          exact { Grows.refl s with
            burns := hburns
            withdrawals := Table.grows_write hwrite }

/-! ## Calls

Everything that the host does to a state comes down to four calls: asking for the leaf of a key,
committing an outcome, recording a payment and counting a deposit.  A list of calls with
arbitrary arguments is therefore more general than any run of the host.
-/

/-- Asks for the leaf of a key. -/
def assign (s : RollupState) : LeafKey → Except StateError Nat × RollupState
  | .balance owner token =>
      let (r, balances) := s.balances.index (owner, token)
      (r, { s with balances })
  | .liquidity provider base quote =>
      let (r, liquidities) := s.liquidities.index (provider, base, quote)
      (r, { s with liquidities })
  | .pool base quote =>
      let (r, pools) := s.pools.index (base, quote)
      (r, { s with pools })
  | .burn owner token =>
      let (r, burns) := s.burns.index (owner, token)
      (r, { s with burns })

/-- A key that has a leaf is given no other. -/
theorem assign_of_bound {key : LeafKey} {index : Nat} (h : s.slot? key = some index) :
    s.assign key = (.ok index, s) := by
  cases key with
  | balance owner token =>
      have hindex := Table.index_of_bound (t := s.balances) h
      simp only [assign, hindex]
  | liquidity provider base quote =>
      have hindex := Table.index_of_bound (t := s.liquidities) h
      simp only [assign, hindex]
  | pool base quote =>
      have hindex := Table.index_of_bound (t := s.pools) h
      simp only [assign, hindex]
  | burn owner token =>
      have hindex := Table.index_of_bound (t := s.burns) h
      simp only [assign, hindex]

/-- Asking for the leaf of a key binds it, and changes nothing else. -/
theorem Valid.assign_spec (h : s.Valid) (key : LeafKey) : s.Extends (s.assign key).2 ∧
    ∀ index, (s.assign key).1 = .ok index → (s.assign key).2.slot? key = some index := by
  cases key with
  | balance owner token =>
      obtain ⟨-, hext, hfind⟩ := h.balances.index_spec (owner, token)
      exact ⟨{ Extends.refl s with balances := hext }, hfind⟩
  | liquidity provider base quote =>
      obtain ⟨-, hext, hfind⟩ := h.liquidities.index_spec (provider, base, quote)
      exact ⟨{ Extends.refl s with liquidities := hext }, hfind⟩
  | pool base quote =>
      obtain ⟨-, hext, hfind⟩ := h.pools.index_spec (base, quote)
      exact ⟨{ Extends.refl s with pools := hext }, hfind⟩
  | burn owner token =>
      obtain ⟨-, hext, hfind⟩ := h.burns.index_spec (owner, token)
      exact ⟨{ Extends.refl s with burns := hext }, hfind⟩

/-- Other keys have the leaves that they had. -/
theorem slot?_assign_of_ne (s : RollupState) {key other : LeafKey} (hne : other ≠ key) :
    (s.assign key).2.slot? other = s.slot? other := by
  cases key <;> cases other <;> first
    | exact Table.find?_index_of_ne _ (by simpa using hne)
    | rfl

/-- What can be asked of the state, apart from reading it. -/
inductive Call where
  /-- The leaf of a key is asked for. -/
  | assign (key : LeafKey)
  /-- Any outcome is committed. -/
  | commit (outcome : Outcome)
  /-- A payment is recorded. -/
  | record (owner : Address) (token : Token) (total : Amount)
  /-- A deposit is counted. -/
  | consume (head : Bytes32)

/-- The answer to a call, which is a leaf if one was asked for, and the state after it. -/
def answer (s : RollupState) : Call → Except StateError (Option Nat) × RollupState
  | .assign key => ((s.assign key).1.map some, (s.assign key).2)
  | .commit o => ((s.commit o).1.map fun _ => none, (s.commit o).2)
  | .record owner token total =>
      ((s.recordWithdrawal owner token total).1.map fun _ => none,
        (s.recordWithdrawal owner token total).2)
  | .consume head => (.ok none, s.consumeDeposit head)

/-- The state after calls, whether they succeeded or not. -/
def afterCalls (s : RollupState) (calls : List Call) : RollupState :=
  calls.foldl (fun s call => (s.answer call).2) s

theorem afterCalls_append (s : RollupState) (calls more : List Call) :
    s.afterCalls (calls ++ more) = (s.afterCalls calls).afterCalls more :=
  List.foldl_append

/-- Giving a key a leaf keeps a state valid, whichever table it is of. -/
theorem Valid.assign (h : s.Valid) (key : LeafKey) : (s.assign key).2.Valid := by
  cases key with
  | balance owner token => exact h.with_balances (h.balances.index_spec (owner, token)).1
  | liquidity provider base quote =>
      exact h.with_liquidities (h.liquidities.index_spec (provider, base, quote)).1
  | pool base quote => exact h.with_pools (h.pools.index_spec (base, quote)).1
  | burn owner token =>
      obtain ⟨hburns, hext, -⟩ := h.burns.index_spec (owner, token)
      exact h.with_burns hburns hext.find

/-- Giving a key a leaf never takes one from another key. -/
theorem grows_assign (s : RollupState) (key : LeafKey) : s.Grows (s.assign key).2 := by
  cases key with
  | balance owner token =>
      exact { Grows.refl s with balances := s.balances.grows_index (owner, token) }
  | liquidity provider base quote =>
      exact { Grows.refl s with liquidities := s.liquidities.grows_index (provider, base, quote) }
  | pool base quote => exact { Grows.refl s with pools := s.pools.grows_index (base, quote) }
  | burn owner token => exact { Grows.refl s with burns := s.burns.grows_index (owner, token) }

/-- Every call keeps a state valid. -/
theorem Valid.answer (h : s.Valid) (call : Call) : (s.answer call).2.Valid := by
  cases call with
  | assign key => exact h.assign key
  | commit o => exact h.valid_commit o
  | record owner token total => exact (h.recordWithdrawal_spec owner token total).valid
  | consume head => exact h.consumeDeposit head

/-- Every call lets the bindings of a state grow. -/
theorem grows_answer (s : RollupState) (call : Call) : s.Grows (s.answer call).2 := by
  cases call with
  | assign key => exact s.grows_assign key
  | commit o => exact s.grows_commit o
  | record owner token total => exact s.grows_recordWithdrawal owner token total
  | consume head => exact { Grows.refl s with balances := .refl _ }

/-- Any number of calls keep a state valid. -/
theorem Valid.afterCalls (h : s.Valid) (calls : List Call) : (s.afterCalls calls).Valid := by
  induction calls generalizing s with
  | nil => exact h
  | cons call calls ih => exact ih (h.answer call)

/-- Any number of calls let the bindings of a state grow. -/
theorem grows_afterCalls (s : RollupState) (calls : List Call) : s.Grows (s.afterCalls calls) := by
  induction calls generalizing s with
  | nil => exact .refl s
  | cons call calls ih => exact (s.grows_answer call).trans (ih _)

/-! ### Reachable states

The actions of the host are made of calls, so what holds after all calls holds in every reachable
state.
-/

/-- An operation that does nothing to a state but calls. -/
def CallsOnly {α : Type} (m : Build α) : Prop :=
  ∀ s, ∃ calls, (m.run.run s).2 = s.afterCalls calls

namespace CallsOnly

/-- The calls of a sequence are those of the first operation, and then those of the second if it
comes to that. -/
theorem bind {α β : Type} {m : Build α} {f : α → Build β} (h : CallsOnly m)
    (hf : ∀ a, CallsOnly (f a)) : CallsOnly (m >>= f) := by
  intro s
  obtain ⟨calls, hcalls⟩ := h s
  rw [run_bind]
  cases hm : m.run.run s with
  | mk r s' =>
      rw [hm] at hcalls
      obtain rfl : s' = s.afterCalls calls := hcalls
      cases r with
      | error e => exact ⟨calls, rfl⟩
      | ok a =>
          obtain ⟨more, hmore⟩ := hf a (s.afterCalls calls)
          exact ⟨calls ++ more, by rw [afterCalls_append, ← hmore]⟩

/-- Asking for a leaf is one call. -/
theorem of_index {m : Build Nat} (key : LeafKey)
    (hrun : ∀ s, (m.run.run s).2 = (s.assign key).2) : CallsOnly m :=
  fun s => ⟨[.assign key], hrun s⟩

/-- Building a step asks for leaves, so it is made of calls. -/
theorem lookups : Lookups CallsOnly where
  pure _ _ := ⟨[], rfl⟩
  get _ := ⟨[], rfl⟩
  throw _ _ _ := ⟨[], rfl⟩
  bind := bind
  balanceIndex owner token :=
    .of_index (.balance owner token) fun _ => by rw [run_balanceIndex]; rfl
  burnIndex owner token := .of_index (.burn owner token) fun _ => by rw [run_burnIndex]; rfl
  poolIndex base quote := .of_index (.pool base quote) fun _ => by rw [run_poolIndex]; rfl
  liquidityIndex provider base quote :=
    .of_index (.liquidity provider base quote) fun _ => by rw [run_liquidityIndex]; rfl

/-- Committing an outcome is one call, and a deposit that it replays is another. -/
theorem commitStep (t : Transition) (o : Outcome) : CallsOnly (commitStep t o) := by
  intro s
  cases hc : s.commit o with
  | mk r s' =>
      cases r with
      | error e =>
          rw [run_commitStep_of_error hc]
          exact ⟨[.commit o], by simp [afterCalls, RollupState.answer, hc]⟩
      | ok u =>
          rw [run_commitStep_of_ok hc]
          cases t with
          | deposit a =>
              exact ⟨[.commit o, .consume a.expectedHead],
                by simp [afterCalls, RollupState.answer, hc, counted]⟩
          | _ => exact ⟨[.commit o], by simp [afterCalls, RollupState.answer, hc, counted]⟩

/-- A step that the core refuses makes no call at all. -/
theorem apply (v : Verifiers) (earlier : Option Proof) (t : Transition) :
    CallsOnly (apply v earlier t) := by
  unfold RollupState.apply
  refine bind (fun s => ⟨[], rfl⟩) fun s => ?_
  split
  · exact fun s => ⟨[], rfl⟩
  · exact (commitStep _ _).bind fun _ s => ⟨[], rfl⟩

end CallsOnly

/-- Every action comes to calls. -/
theorem exists_calls_after (s : RollupState) (a : Action) :
    ∃ calls, s.after a = s.afterCalls calls := by
  cases a with
  | build i => exact CallsOnly.lookups.build i s
  | apply v earlier t => exact CallsOnly.apply v earlier t s
  | commit t o => exact CallsOnly.commitStep t o s
  | consume head => exact ⟨[.consume head], rfl⟩
  | record owner token total => exact ⟨[.record owner token total], rfl⟩

/-- Calls lead to every reachable state. -/
theorem exists_calls_of_reachable (h : s.Reachable) : ∃ calls, s = initial.afterCalls calls := by
  induction h with
  | initial => exact ⟨[], rfl⟩
  | step _ a ih =>
      obtain ⟨calls, rfl⟩ := ih
      obtain ⟨more, hmore⟩ := exists_calls_after (initial.afterCalls calls) a
      exact ⟨calls ++ more, by rw [hmore, afterCalls_append]⟩

/-! ## Main result -/

/-- A payment is refused only when its account has no leaf of burns and is given none: the
same leaf of withdrawals is never another's. -/
theorem Valid.recordWithdrawal_eq_error (h : s.Valid) {owner : Address} {token : Token}
    {total : Amount} {e : StateError} (he : (s.recordWithdrawal owner token total).1 = .error e) :
    (s.burns.index (owner, token)).1 = .error e := by
  obtain ⟨e', hindex, heq⟩ | ⟨index, withdrawals, -, -, heq⟩ :=
    h.recordWithdrawal_cases owner token total
  · rw [heq] at he
    rw [hindex, Except.error.inj he]
  · simp [heq] at he

/-- How keys, leaves and records of a state fit together. -/
structure Indexed (s : RollupState) : Prop where
  balances : s.balances.Indexed .balances AccountRecord.key
  liquidities : s.liquidities.Indexed .liquidities Liquidity.key
  pools : s.pools.Indexed .pools Pool.key
  burns : s.burns.Indexed .burns AccountRecord.key
  withdrawals : s.withdrawals.Indexed .withdrawals AccountRecord.key
  /-- What is bound in withdrawals is bound to the same leaf in burns. -/
  aligned : ∀ key i, s.withdrawals.slots.get? key = some i → s.burns.slots.get? key = some i
  /-- Only when burns have no free leaf is a payment refused. -/
  recorded : ∀ owner token total e, (s.recordWithdrawal owner token total).1 = .error e →
    e = .full .burns ∧ ∀ i < s.burns.tree.capacity, ∃ key, s.burns.keys.get? i = some key

/-- A valid state that grew from the initial one is indexed. -/
theorem Valid.indexed (h : s.Valid) (hgrows : initial.Grows s) : s.Indexed where
  balances := h.balances.indexed hgrows.balances
  liquidities := h.liquidities.indexed hgrows.liquidities
  pools := h.pools.indexed hgrows.pools
  burns := h.burns.indexed hgrows.burns
  withdrawals := h.withdrawals.indexed hgrows.withdrawals
  aligned := h.aligned
  recorded _ _ _ e he :=
    (h.burns.indexed hgrows.burns).full _ e (h.recordWithdrawal_eq_error he)

/-- Whatever calls are made of the initial state leave it indexed. -/
theorem indexed_afterCalls (calls : List Call) : (initial.afterCalls calls).Indexed :=
  (valid_initial.afterCalls calls).indexed (initial.grows_afterCalls calls)

/-- Every reachable state is indexed. -/
theorem indexed_of_reachable (h : s.Reachable) : s.Indexed := by
  obtain ⟨calls, rfl⟩ := exists_calls_of_reachable h
  exact indexed_afterCalls calls

/-- **Keys and leaves stay one to one, and bindings stay.**  Whatever calls are made, with any
arguments and whether they succeed or not, every table is indexed, withdrawals stand at the
leaves of burns, and a leaf or a payment is refused only when no leaf is free.  Calls that
follow let the bindings of every table grow: no key ever changes its leaf. -/
theorem indexed_of_calls (calls more : List Call) :
    (initial.afterCalls calls).Indexed ∧
      (initial.afterCalls calls).Grows (initial.afterCalls (calls ++ more)) := by
  constructor
  · exact indexed_afterCalls calls
  · rw [afterCalls_append]
    exact grows_afterCalls _ more

end RollupState

end AmmRollup
