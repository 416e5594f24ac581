import AmmRollup.Proofs.Rollup.Ledger
import AmmRollup.Proofs.Rollup.Table

/-!
# AmmRollup.Proofs.Rollup.State

The invariant of the rollup's state (`RollupState.Valid`), the records behind its leaves
(`RollupState.records`) and the ledger that its lookups show (`RollupState.ledger`).

Committing writes leaf by leaf, and each write does the same to the records and to the
ledger (`RollupState.Valid.write_spec`).  A commit that fails puts everything back: its
result extends the state it started from, which no lookup can tell from it
(`RollupState.Valid.commit_error`).
-/

namespace AmmRollup

/-- What writing a leaf does to a ledger. -/
def Ledger.write (l : Ledger) : LeafValue → Ledger
  | .balance r => l.setBalance r.account r.token r.amount
  | .burn r => l.setBurned r.account r.token r.amount
  | .pool p => l.setPool p.base p.quote p
  | .liquidity m => l.setPoints m.provider m.base m.quote m.points

namespace RollupState

/-- The records behind the leaves of the four state trees. -/
def records (s : RollupState) : Records where
  balances := s.balances.records.get?
  liquidities := s.liquidities.records.get?
  pools := s.pools.records.get?
  burns := s.burns.records.get?

/-- The trees that the tables keep. -/
def trees (s : RollupState) : StateTrees where
  balances := s.balances.tree
  liquidities := s.liquidities.tree
  pools := s.pools.tree
  burns := s.burns.tree
  withdrawals := s.withdrawals.tree

/-- What the lookups show. -/
def ledger (s : RollupState) : Ledger where
  balance k := s.balance k.1 k.2
  pool k := s.pool k.1 k.2
  liquidity k := s.liquidity k.1 k.2.1 k.2.2
  burned k := s.burned k.1 k.2

/-- What holds of the state at all times.  Leaves of withdrawals are those of burns. -/
structure Valid (s : RollupState) : Prop where
  balances : s.balances.Valid AccountRecord.key
  liquidities : s.liquidities.Valid Liquidity.key
  pools : s.pools.Valid Pool.key
  burns : s.burns.Valid AccountRecord.key
  withdrawals : s.withdrawals.Valid AccountRecord.key
  aligned : ∀ key index, s.withdrawals.find? key = some index → s.burns.find? key = some index

/-- A state with the records of another, and its bindings among its own. -/
structure Extends (s s' : RollupState) : Prop where
  balances : s.balances.Extends s'.balances
  liquidities : s.liquidities.Extends s'.liquidities
  pools : s.pools.Extends s'.pools
  burns : s.burns.Extends s'.burns
  withdrawals : s'.withdrawals = s.withdrawals
  depositHead : s'.depositHead = s.depositHead
  depositsConsumed : s'.depositsConsumed = s.depositsConsumed

variable {s s' : RollupState}

/-- Nothing is bound and nothing written in the beginning. -/
theorem valid_initial : initial.Valid where
  balances := Table.valid_empty _ _
  liquidities := Table.valid_empty _ _
  pools := Table.valid_empty _ _
  burns := Table.valid_empty _ _
  withdrawals := Table.valid_empty _ _
  aligned key index h := by simp [initial, Table.empty, Table.find?] at h

theorem Extends.refl (s : RollupState) : s.Extends s :=
  ⟨.refl _, .refl _, .refl _, .refl _, rfl, rfl, rfl⟩

theorem Extends.trans {s'' : RollupState} (h : s.Extends s') (h' : s'.Extends s'') :
    s.Extends s'' :=
  ⟨h.balances.trans h'.balances, h.liquidities.trans h'.liquidities, h.pools.trans h'.pools,
    h.burns.trans h'.burns, h'.withdrawals.trans h.withdrawals,
    h'.depositHead.trans h.depositHead, h'.depositsConsumed.trans h.depositsConsumed⟩

/-- What extends a state has its records in all four trees. -/
theorem Extends.records_eq (h : s.Extends s') : s'.records = s.records := by
  rw [records, h.balances.records, h.liquidities.records, h.pools.records, h.burns.records, records]

namespace Valid

/-- The four trees of a state store its records. -/
theorem stores (h : s.Valid) : s.trees.Stores s.records :=
  ⟨h.balances.stores, h.liquidities.stores, h.pools.stores, h.burns.stores⟩

/-- The roots of a state are those of the trees over its records. -/
theorem roots_eq (h : s.Valid) : s.roots = s.records.roots := h.stores.roots_eq

/-- No lookup can tell a state from one that extends it. -/
theorem ledger_extends (h : s.Valid) (h' : s'.Valid) (hext : s.Extends s') :
    s'.ledger = s.ledger := by
  have hbalances := h.balances.get?_extends h'.balances hext.balances
  have hliquidities := h.liquidities.get?_extends h'.liquidities hext.liquidities
  have hpools := h.pools.get?_extends h'.pools hext.pools
  have hburns := h.burns.get?_extends h'.burns hext.burns
  simp only [ledger, balance, pool, liquidity, burned, hbalances, hliquidities, hpools, hburns]

/-! ### Replacing a table

The invariant of a state is that each table is valid, and one condition between two of them:
leaves of withdrawals are those of burns.  So a table can be replaced without looking at the
others, but for these two.
-/

/-- The table of balances may be replaced by any valid one. -/
theorem with_balances (h : s.Valid)
    {balances : Table (balancesHeight - 1) (Address × Token) AccountRecord}
    (hb : balances.Valid AccountRecord.key) : ({ s with balances } : RollupState).Valid :=
  ⟨hb, h.liquidities, h.pools, h.burns, h.withdrawals, h.aligned⟩

/-- The table of points may be replaced by any valid one. -/
theorem with_liquidities (h : s.Valid)
    {liquidities : Table (liquiditiesHeight - 1) (Address × Token × Token) Liquidity}
    (hl : liquidities.Valid Liquidity.key) : ({ s with liquidities } : RollupState).Valid :=
  ⟨h.balances, hl, h.pools, h.burns, h.withdrawals, h.aligned⟩

/-- The table of pools may be replaced by any valid one. -/
theorem with_pools (h : s.Valid) {pools : Table (poolsHeight - 1) (Token × Token) Pool}
    (hp : pools.Valid Pool.key) : ({ s with pools } : RollupState).Valid :=
  ⟨h.balances, h.liquidities, hp, h.burns, h.withdrawals, h.aligned⟩

/-- Leaves of burns may not be unbound, since withdrawals stand at them. -/
theorem with_burns (h : s.Valid)
    {burns : Table (burnsHeight - 1) (Address × Token) AccountRecord}
    (hu : burns.Valid AccountRecord.key)
    (hfind : ∀ key i, s.burns.find? key = some i → burns.find? key = some i) :
    ({ s with burns } : RollupState).Valid :=
  ⟨h.balances, h.liquidities, h.pools, hu, h.withdrawals,
    fun key i hi => hfind key i (h.aligned key i hi)⟩

/-- For the same reason a leaf of withdrawals is bound only where its key has that leaf of burns. -/
theorem with_withdrawals (h : s.Valid)
    {withdrawals : Table (withdrawalsHeight - 1) (Address × Token) AccountRecord}
    (hw : withdrawals.Valid AccountRecord.key)
    (haligned : ∀ key i, withdrawals.find? key = some i → s.burns.find? key = some i) :
    ({ s with withdrawals } : RollupState).Valid :=
  ⟨h.balances, h.liquidities, h.pools, h.burns, hw, haligned⟩

/-- Deposits are counted beside the tables. -/
theorem consumeDeposit (h : s.Valid) (head : Bytes32) : (s.consumeDeposit head).Valid :=
  ⟨h.balances, h.liquidities, h.pools, h.burns, h.withdrawals, h.aligned⟩

end Valid

/-! ## Writing a leaf

A write goes to the table of its tree.  What it does is said once, for whichever table that is:
the record behind its leaf is replaced, the entry of its key in the ledger is, and a record to
put back is returned.
-/

/-- What the lookups show for the key of a write is what stands at its index. -/
def Grounded (s : RollupState) (w : LeafWrite) : Prop :=
  match w.leaf with
  | .balance r =>
      s.ledger.balance r.key = (s.records.balances w.index.toNat).map AccountRecord.amount
  | .burn r => s.ledger.burned r.key = (s.records.burns w.index.toNat).map AccountRecord.amount
  | .pool p => s.ledger.pool p.key = s.records.pools w.index.toNat
  | .liquidity l =>
      s.ledger.liquidity l.key = (s.records.liquidities w.index.toNat).map Liquidity.points

/-- The key of a write is bound to its index. -/
def Bound (s : RollupState) (w : LeafWrite) : Prop :=
  match w.leaf with
  | .balance r => s.balances.find? r.key = some w.index.toNat
  | .burn r => s.burns.find? r.key = some w.index.toNat
  | .pool p => s.pools.find? p.key = some w.index.toNat
  | .liquidity l => s.liquidities.find? l.key = some w.index.toNat

/-- What one write does to a state. -/
structure Writes (s : RollupState) (w : LeafWrite) (s' : RollupState) (u : Undo) : Prop where
  valid : s'.Valid
  records : s'.records = s.records.writeAll [w]
  ledger : s'.ledger = s.ledger.write w.leaf
  grounded : s.Grounded w
  now : s'.Bound w
  bound : ∀ w', s.Bound w' → s'.Bound w'
  /-- What the write replaced can be put back later, when other keys have been bound. -/
  undo : ∀ s'' : RollupState, s''.Valid → s'.Extends s'' →
    (s''.undo u).Valid ∧ s.Extends (s''.undo u)
  withdrawals : s'.withdrawals = s.withdrawals
  depositHead : s'.depositHead = s.depositHead
  depositsConsumed : s'.depositsConsumed = s.depositsConsumed

/-! What a write does, for a leaf of each tree: the table does it, and the other three are
left alone. -/

/-- A balance that is written appears in the ledger as its amount. -/
theorem Valid.write_balance (h : s.Valid) {index : UInt64} {r : AccountRecord}
    {balances : Table (balancesHeight - 1) (Address × Token) AccountRecord}
    {prior : Option AccountRecord}
    (hwrite : s.balances.write r.key index.toNat r = .ok (balances, prior)) :
    s.Writes ⟨index, .balance r⟩ { s with balances } (.balance index.toNat prior) := by
  obtain ⟨hvalid, -, hprior, hget, hnow, hfind, hrecords, hlookup⟩ := h.balances.write_spec hwrite
  exact {
    valid := h.with_balances hvalid
    records := by
      simp only [records, hrecords]
      rfl
    ledger := by
      change Ledger.mk (Option.map AccountRecord.amount ∘ balances.get?) _ _ _ = _
      rw [hlookup, Function.comp_update]
      rfl
    grounded := congrArg (Option.map AccountRecord.amount) (hget.symm.trans hprior)
    now := hnow
    -- leaves of other trees are looked up in tables that have not changed
    bound := by
      rintro ⟨i, leaf⟩ hb
      cases leaf <;> first | exact hfind _ _ hb | exact hb
    undo := fun s'' h'' hext => by
      obtain ⟨hundo, hback⟩ := h.balances.undo_write hwrite h''.balances hext.balances
      exact ⟨h''.with_balances hundo, { hext with balances := hback }⟩
    withdrawals := rfl
    depositHead := rfl
    depositsConsumed := rfl }

theorem Valid.write_burn (h : s.Valid) {index : UInt64} {r : AccountRecord}
    {burns : Table (burnsHeight - 1) (Address × Token) AccountRecord}
    {prior : Option AccountRecord}
    (hwrite : s.burns.write r.key index.toNat r = .ok (burns, prior)) :
    s.Writes ⟨index, .burn r⟩ { s with burns } (.burn index.toNat prior) := by
  obtain ⟨hvalid, -, hprior, hget, hnow, hfind, hrecords, hlookup⟩ := h.burns.write_spec hwrite
  exact {
    -- here withdrawals depend on the table: it must not lose a leaf
    valid := h.with_burns hvalid hfind
    records := by
      simp only [records, hrecords]
      rfl
    ledger := by
      change Ledger.mk _ _ _ (Option.map AccountRecord.amount ∘ burns.get?) = _
      rw [hlookup, Function.comp_update]
      rfl
    grounded := congrArg (Option.map AccountRecord.amount) (hget.symm.trans hprior)
    now := hnow
    bound := by
      rintro ⟨i, leaf⟩ hb
      cases leaf <;> first | exact hfind _ _ hb | exact hb
    undo := fun s'' h'' hext => by
      obtain ⟨hundo, hback⟩ := h.burns.undo_write hwrite h''.burns hext.burns
      exact ⟨h''.with_burns hundo fun _ _ hf => hf, { hext with burns := hback }⟩
    withdrawals := rfl
    depositHead := rfl
    depositsConsumed := rfl }

/-- A pool that is written appears in the ledger as it is. -/
theorem Valid.write_pool (h : s.Valid) {index : UInt64} {p : Pool}
    {pools : Table (poolsHeight - 1) (Token × Token) Pool} {prior : Option Pool}
    (hwrite : s.pools.write p.key index.toNat p = .ok (pools, prior)) :
    s.Writes ⟨index, .pool p⟩ { s with pools } (.pool index.toNat prior) := by
  obtain ⟨hvalid, -, hprior, hget, hnow, hfind, hrecords, hlookup⟩ := h.pools.write_spec hwrite
  exact {
    valid := h.with_pools hvalid
    records := by
      simp only [records, hrecords]
      rfl
    ledger := by
      change Ledger.mk _ pools.get? _ _ = _
      rw [hlookup]
      rfl
    grounded := hget.symm.trans hprior
    now := hnow
    bound := by
      rintro ⟨i, leaf⟩ hb
      cases leaf <;> first | exact hfind _ _ hb | exact hb
    undo := fun s'' h'' hext => by
      obtain ⟨hundo, hback⟩ := h.pools.undo_write hwrite h''.pools hext.pools
      exact ⟨h''.with_pools hundo, { hext with pools := hback }⟩
    withdrawals := rfl
    depositHead := rfl
    depositsConsumed := rfl }

/-- Liquidity that is written appears in the ledger as its points. -/
theorem Valid.write_liquidity (h : s.Valid) {index : UInt64} {l : Liquidity}
    {liquidities : Table (liquiditiesHeight - 1) (Address × Token × Token) Liquidity}
    {prior : Option Liquidity}
    (hwrite : s.liquidities.write l.key index.toNat l = .ok (liquidities, prior)) :
    s.Writes ⟨index, .liquidity l⟩ { s with liquidities } (.liquidity index.toNat prior) := by
  obtain ⟨hvalid, -, hprior, hget, hnow, hfind, hrecords, hlookup⟩ :=
    h.liquidities.write_spec hwrite
  exact {
    valid := h.with_liquidities hvalid
    records := by
      simp only [records, hrecords]
      rfl
    ledger := by
      change Ledger.mk _ _ (Option.map Liquidity.points ∘ liquidities.get?) _ = _
      rw [hlookup, Function.comp_update]
      rfl
    grounded := congrArg (Option.map Liquidity.points) (hget.symm.trans hprior)
    now := hnow
    bound := by
      rintro ⟨i, leaf⟩ hb
      cases leaf <;> first | exact hfind _ _ hb | exact hb
    undo := fun s'' h'' hext => by
      obtain ⟨hundo, hback⟩ := h.liquidities.undo_write hwrite h''.liquidities hext.liquidities
      exact ⟨h''.with_liquidities hundo, { hext with liquidities := hback }⟩
    withdrawals := rfl
    depositHead := rfl
    depositsConsumed := rfl }

/-- Everything that writing a leaf can do: write it into the table of its tree. -/
theorem write_cases {w : LeafWrite} {u : Undo} (hw : s.write w = .ok (s', u)) :
    (∃ r balances prior, w.leaf = .balance r ∧
        s.balances.write r.key w.index.toNat r = .ok (balances, prior) ∧
        s' = { s with balances } ∧ u = .balance w.index.toNat prior) ∨
      (∃ r burns prior, w.leaf = .burn r ∧
        s.burns.write r.key w.index.toNat r = .ok (burns, prior) ∧
        s' = { s with burns } ∧ u = .burn w.index.toNat prior) ∨
      (∃ p pools prior, w.leaf = .pool p ∧
        s.pools.write p.key w.index.toNat p = .ok (pools, prior) ∧
        s' = { s with pools } ∧ u = .pool w.index.toNat prior) ∨
      ∃ l liquidities prior, w.leaf = .liquidity l ∧
        s.liquidities.write l.key w.index.toNat l = .ok (liquidities, prior) ∧
        s' = { s with liquidities } ∧ u = .liquidity w.index.toNat prior := by
  obtain ⟨index, leaf⟩ := w
  cases leaf with
  | balance r =>
      simp only [write, bind_eq_ok_iff, pure_eq_ok_iff, Prod.mk.injEq, Prod.exists] at hw
      obtain ⟨balances, prior, hwrite, rfl, rfl⟩ := hw
      exact .inl ⟨r, balances, prior, rfl, hwrite, rfl, rfl⟩
  | burn r =>
      simp only [write, bind_eq_ok_iff, pure_eq_ok_iff, Prod.mk.injEq, Prod.exists] at hw
      obtain ⟨burns, prior, hwrite, rfl, rfl⟩ := hw
      exact .inr (.inl ⟨r, burns, prior, rfl, hwrite, rfl, rfl⟩)
  | pool p =>
      simp only [write, bind_eq_ok_iff, pure_eq_ok_iff, Prod.mk.injEq, Prod.exists] at hw
      obtain ⟨pools, prior, hwrite, rfl, rfl⟩ := hw
      exact .inr (.inr (.inl ⟨p, pools, prior, rfl, hwrite, rfl, rfl⟩))
  | liquidity l =>
      simp only [write, bind_eq_ok_iff, pure_eq_ok_iff, Prod.mk.injEq, Prod.exists] at hw
      obtain ⟨liquidities, prior, hwrite, rfl, rfl⟩ := hw
      exact .inr (.inr (.inr ⟨l, liquidities, prior, rfl, hwrite, rfl, rfl⟩))

/-- Whatever leaf is written, records and ledger change in the same way. -/
theorem Valid.write_spec (h : s.Valid) {w : LeafWrite} {u : Undo}
    (hw : s.write w = .ok (s', u)) : s.Writes w s' u := by
  obtain ⟨index, leaf⟩ := w
  obtain ⟨r, _, _, rfl, hwrite, rfl, rfl⟩ | ⟨r, _, _, rfl, hwrite, rfl, rfl⟩ |
    ⟨p, _, _, rfl, hwrite, rfl, rfl⟩ | ⟨l, _, _, rfl, hwrite, rfl, rfl⟩ := write_cases hw
  · exact h.write_balance hwrite
  · exact h.write_burn hwrite
  · exact h.write_pool hwrite
  · exact h.write_liquidity hwrite

/-- A leaf that its key is bound to can be written. -/
theorem Valid.write_of_bound (h : s.Valid) {w : LeafWrite} (hb : s.Bound w) :
    ∃ s' u, s.write w = .ok (s', u) := by
  obtain ⟨index, leaf⟩ := w
  simp only [write]
  cases leaf with
  | balance r => exact ⟨_, _, bind_eq_ok_iff.mpr ⟨_, h.balances.write_of_bound hb r, rfl⟩⟩
  | burn r => exact ⟨_, _, bind_eq_ok_iff.mpr ⟨_, h.burns.write_of_bound hb r, rfl⟩⟩
  | pool p => exact ⟨_, _, bind_eq_ok_iff.mpr ⟨_, h.pools.write_of_bound hb p, rfl⟩⟩
  | liquidity l => exact ⟨_, _, bind_eq_ok_iff.mpr ⟨_, h.liquidities.write_of_bound hb l, rfl⟩⟩

/-! ## Committing

A commit writes leaf by leaf, and compares the roots in the end.  If a write is refused or the
roots differ, it puts back what it has written, last write first.  That this leads to a state
which extends the one before is an induction on the writes that were made.
-/

/-- What several writes do to a state. -/
inductive WritesAll : RollupState → List LeafWrite → RollupState → Prop
  | nil {s : RollupState} : WritesAll s [] s
  | cons {s next s' : RollupState} {w : LeafWrite} {ws : List LeafWrite} {u : Undo}
      (head : s.Writes w next u) (rest : WritesAll next ws s') : WritesAll s (w :: ws) s'

namespace WritesAll

variable {ws : List LeafWrite}

/-- What is written in order is written behind the leaves. -/
theorem records_eq (h : WritesAll s ws s') : s'.records = s.records.writeAll ws := by
  induction h with
  | nil => rfl
  | cons head rest ih => rw [ih, head.records, ← Records.writeAll_cons]

/-- What is written in order is written in the ledger. -/
theorem ledger_eq (h : WritesAll s ws s') :
    s'.ledger = ws.foldl (fun l w => l.write w.leaf) s.ledger := by
  induction h with
  | nil => rfl
  | cons head rest ih => rw [ih, head.ledger, List.foldl_cons]

/-- Every state on the way is valid. -/
theorem valid (h : WritesAll s ws s') (hs : s.Valid) : s'.Valid := by
  induction h with
  | nil => exact hs
  | cons head rest ih => exact ih head.valid

/-- What is not a leaf of the four trees stays as it is. -/
theorem beside (h : WritesAll s ws s') : s'.withdrawals = s.withdrawals ∧
    s'.depositHead = s.depositHead ∧ s'.depositsConsumed = s.depositsConsumed := by
  induction h with
  | nil => exact ⟨rfl, rfl, rfl⟩
  | cons head rest ih =>
      rw [ih.1, ih.2.1, ih.2.2]
      exact ⟨head.withdrawals, head.depositHead, head.depositsConsumed⟩

end WritesAll

/-- Putting back several writes leads to a state that extends the given one, also when
other keys have been bound since. -/
def Recovers (s : RollupState) (undos : List Undo) (written : RollupState) : Prop :=
  ∀ s' : RollupState, s'.Valid → written.Extends s' →
    (s'.rollback undos).Valid ∧ s.Extends (s'.rollback undos)

theorem Recovers.refl (s : RollupState) : s.Recovers [] s := fun _ h hext => ⟨h, hext⟩

/-- One more write is put back first, before those that were made earlier. -/
theorem Recovers.cons {start next : RollupState} {undos : List Undo} {w : LeafWrite} {u : Undo}
    (h : start.Recovers undos s) (hw : s.Writes w next u) : start.Recovers (u :: undos) next :=
  fun s' hs' hext =>
    have hundo := hw.undo s' hs' hext
    h (s'.undo u) hundo.1 hundo.2

/-- Writing in order stops at the first write that is refused, where all can be put back. -/
theorem Valid.writeAll_spec (h : s.Valid) {start : RollupState} {undos : List Undo}
    (hstart : start.Recovers undos s) (ws : List LeafWrite) :
    (s.writeAll undos ws).2.1.Valid ∧
      start.Recovers (s.writeAll undos ws).2.2 (s.writeAll undos ws).2.1 ∧
      ((s.writeAll undos ws).1 = .ok () → WritesAll s ws (s.writeAll undos ws).2.1) := by
  induction ws generalizing s undos with
  | nil => exact ⟨h, hstart, fun _ => .nil⟩
  | cons w ws ih =>
      rw [writeAll]
      split
      · next next u hw =>
          have hwrites := h.write_spec hw
          obtain ⟨hvalid, hback, hall⟩ := ih hwrites.valid (hstart.cons hwrites)
          exact ⟨hvalid, hback, fun hok => .cons hwrites (hall hok)⟩
      · exact ⟨h, hstart, fun hok => by contradiction⟩

/-- Everything that a commit can do: keep all its writes, which lead to the roots of the
outcome, or put back those it has made. -/
theorem commit_cases {o : Outcome} {r : Except StateError Unit} (hc : s.commit o = (r, s')) :
    (r = .ok () ∧ (s.writeAll [] o.writes).1 = .ok () ∧ s' = (s.writeAll [] o.writes).2.1 ∧
        s'.roots = o.roots) ∨
      ∃ e, r = .error e ∧
        s' = (s.writeAll [] o.writes).2.1.rollback (s.writeAll [] o.writes).2.2 := by
  rw [commit] at hc
  split at hc
  · next e written undos hwrite =>
      obtain ⟨rfl, rfl⟩ := Prod.mk.inj hc
      exact .inr ⟨e, rfl, by rw [hwrite]⟩
  · next written undos hwrite =>
      rw [hwrite]
      split at hc
      · next hroots =>
          obtain ⟨rfl, rfl⟩ := Prod.mk.inj hc
          exact .inl ⟨rfl, rfl, rfl, hroots⟩
      · obtain ⟨rfl, rfl⟩ := Prod.mk.inj hc
        exact .inr ⟨_, rfl, rfl⟩

/-- A commit that succeeds has written every leaf, and its roots are those of the outcome. -/
theorem Valid.commit_ok (h : s.Valid) {o : Outcome} (hc : s.commit o = (.ok (), s')) :
    WritesAll s o.writes s' ∧ s'.roots = o.roots := by
  obtain ⟨-, hok, rfl, hroots⟩ | ⟨e, he, -⟩ := commit_cases hc
  · exact ⟨(h.writeAll_spec (.refl s) o.writes).2.2 hok, hroots⟩
  · contradiction

/-- A commit that fails leaves a state that extends the one it started from. -/
theorem Valid.commit_error (h : s.Valid) {o : Outcome} {e : StateError}
    (hc : s.commit o = (.error e, s')) : s'.Valid ∧ s.Extends s' := by
  obtain ⟨hok, -⟩ | ⟨e, -, rfl⟩ := commit_cases hc
  · contradiction
  · obtain ⟨hvalid, hback, -⟩ := h.writeAll_spec (.refl s) o.writes
    exact hback _ hvalid (.refl _)

/-- A commit keeps a state valid, whether it succeeds or not. -/
theorem Valid.valid_commit (h : s.Valid) (o : Outcome) : (s.commit o).2.Valid := by
  cases hc : s.commit o with
  | mk r s' =>
      cases r with
      | error e => exact (h.commit_error hc).1
      | ok u => exact (h.commit_ok hc).1.valid h

/-- Leaves that their keys are bound to are all written. -/
theorem Valid.writeAll_of_bound (h : s.Valid) (undos : List Undo) {ws : List LeafWrite}
    (hb : ∀ w ∈ ws, s.Bound w) : (s.writeAll undos ws).1 = .ok () := by
  induction ws generalizing s undos with
  | nil => rfl
  | cons w ws ih =>
      obtain ⟨next, u, hw⟩ := h.write_of_bound (hb w List.mem_cons_self)
      have hwrites := h.write_spec hw
      rw [writeAll, hw]
      exact ih hwrites.valid _ fun w' hm => hwrites.bound w' (hb w' (List.mem_cons_of_mem _ hm))

/-- An outcome whose leaves are bound, and whose roots are those of the records it writes,
is committed. -/
theorem Valid.commit_of_bound (h : s.Valid) {o : Outcome} (hb : ∀ w ∈ o.writes, s.Bound w)
    (hroots : o.roots = (s.records.writeAll o.writes).roots) :
    ∃ s', s.commit o = (.ok (), s') ∧ WritesAll s o.writes s' := by
  obtain ⟨hvalid, -, hall⟩ := h.writeAll_spec (.refl s) o.writes
  have hok := h.writeAll_of_bound [] hb
  have hwrites := hall hok
  rw [hwrites.records_eq.symm, ← hvalid.roots_eq] at hroots
  refine ⟨_, ?_, hwrites⟩
  rw [commit]
  split
  · next hw =>
      rw [hw] at hok
      contradiction
  · next hw =>
      rw [hw] at hroots ⊢
      rw [if_pos hroots.symm]

/-! ## Recording a payment

A payment is recorded at the leaf of the account's burns, in the tree of withdrawals.  The ledger
does not show withdrawals, so nothing else can tell.
-/

/-- What an account was paid is recorded at the leaf of its burns, which is free for it
in the tree of withdrawals or its own there. -/
theorem Valid.withdrawals_write (h : s.Valid) {r : AccountRecord} {index : Nat}
    (hburns : s.burns.find? r.key = some index) :
    ∃ withdrawals,
      s.withdrawals.write r.key index r = .ok (withdrawals, s.withdrawals.records.get? index) ∧
        ∀ key i, withdrawals.find? key = some i → s.burns.find? key = some i := by
  cases hfind : s.withdrawals.find? r.key with
  | some bound =>
      obtain rfl : bound = index :=
        Option.some.inj ((h.aligned _ _ hfind).symm.trans hburns)
      exact ⟨_, h.withdrawals.write_of_bound hfind r, h.aligned⟩
  | none =>
      -- whoever has the leaf of withdrawals has that of burns, which is the account's
      have hfree : s.withdrawals.keys.get? index = none := by
        cases hkey : s.withdrawals.keys.get? index with
        | none => rfl
        | some key =>
            have hbound := (h.withdrawals.slots _ _).mpr hkey
            rw [h.burns.key_unique hburns (h.aligned _ _ hbound), hbound] at hfind
            contradiction
      have hi := h.burns.bound _ _ hburns
      refine ⟨_, Table.write_eq_ok_iff.mpr
        ⟨_, Table.claim_eq_ok_iff.mpr (.inr ⟨hfind, hfree, hi, rfl⟩), hi, rfl, rfl⟩,
        fun key i hkey => ?_⟩
      rw [Table.find?_restore, Table.find?, Table.bind, FinMap.get?_insert] at hkey
      -- the only new leaf is the account's own, and that is its leaf of burns
      split at hkey
      · next heq => rw [heq, hburns, hkey]
      · exact h.aligned key i hkey

/-- What recording a payment leaves as it is. -/
structure KeepsLedger (s s' : RollupState) : Prop where
  valid : s'.Valid
  records : s'.records = s.records
  ledger : s'.ledger = s.ledger
  depositHead : s'.depositHead = s.depositHead
  depositsConsumed : s'.depositsConsumed = s.depositsConsumed

/-- A state that has only gained bindings has lost and gained no record. -/
theorem Valid.keepsLedger_of_extends (h : s.Valid) (h' : s'.Valid) (hext : s.Extends s') :
    s.KeepsLedger s' :=
  ⟨h', hext.records_eq, h.ledger_extends h' hext, hext.depositHead, hext.depositsConsumed⟩

/-- Everything that recording a payment can do: find no leaf of burns free for the account, or
write what it was paid at its leaf. -/
theorem Valid.recordWithdrawal_cases (h : s.Valid) (owner : Address) (token : Token)
    (total : Amount) :
    (∃ e, (s.burns.index (owner, token)).1 = .error e ∧ s.recordWithdrawal owner token total =
        (.error e, { s with burns := (s.burns.index (owner, token)).2 })) ∨
      ∃ index withdrawals,
        s.withdrawals.write (owner, token) index ⟨owner, token, total⟩ =
          .ok (withdrawals, s.withdrawals.records.get? index) ∧
        (∀ key i, withdrawals.find? key = some i →
          (s.burns.index (owner, token)).2.find? key = some i) ∧
        s.recordWithdrawal owner token total =
          (.ok (), { s with burns := (s.burns.index (owner, token)).2, withdrawals }) := by
  obtain ⟨hvalid, hext, hfind⟩ := h.burns.index_spec (owner, token)
  have hbound := h.with_burns hvalid hext.find
  rw [recordWithdrawal]
  cases hindex : s.burns.index (owner, token) with
  | mk r burns =>
      rw [hindex] at hbound hfind
      cases r with
      | error e => exact .inl ⟨e, rfl, rfl⟩
      | ok index =>
          obtain ⟨withdrawals, hwrite, haligned⟩ :=
            hbound.withdrawals_write (r := ⟨owner, token, total⟩) (hfind index rfl)
          simp only [AccountRecord.key] at hwrite
          exact .inr ⟨index, withdrawals, hwrite, haligned, by simp only [hwrite]⟩

/-- Recording a payment changes nothing but what was paid. -/
theorem Valid.recordWithdrawal_spec (h : s.Valid) (owner : Address) (token : Token)
    (total : Amount) : s.KeepsLedger (s.recordWithdrawal owner token total).2 := by
  obtain ⟨hvalid, hext, -⟩ := h.burns.index_spec (owner, token)
  have hbound : s.KeepsLedger { s with burns := (s.burns.index (owner, token)).2 } :=
    h.keepsLedger_of_extends (h.with_burns hvalid hext.find)
      ⟨.refl _, .refl _, .refl _, hext, rfl, rfl, rfl⟩
  obtain ⟨e, -, heq⟩ | ⟨index, withdrawals, hwrite, haligned, heq⟩ :=
    h.recordWithdrawal_cases owner token total
  · rw [heq]
    exact hbound
  · have hpaid := h.withdrawals.write_spec (r := ⟨owner, token, total⟩) hwrite
    rw [heq]
    exact ⟨hbound.valid.with_withdrawals hpaid.1 haligned, hbound.records, hbound.ledger,
      hbound.depositHead, hbound.depositsConsumed⟩

/-- A payment to an account that has a leaf of burns is recorded. -/
theorem Valid.recordWithdrawal_of_bound (h : s.Valid) {owner : Address} {token : Token}
    {index : Nat} (hfind : s.burns.find? (owner, token) = some index) (total : Amount) :
    ∃ withdrawals, s.recordWithdrawal owner token total = (.ok (), { s with withdrawals }) ∧
      s.withdrawals.write (owner, token) index ⟨owner, token, total⟩ =
        .ok (withdrawals, s.withdrawals.records.get? index) := by
  obtain ⟨withdrawals, hwrite, -⟩ :=
    h.withdrawals_write (r := ⟨owner, token, total⟩) hfind
  refine ⟨withdrawals, ?_, hwrite⟩
  have hindex := Table.index_of_bound hfind
  simp only [AccountRecord.key] at hwrite
  simp only [recordWithdrawal, hindex, hwrite]

end RollupState

end AmmRollup
