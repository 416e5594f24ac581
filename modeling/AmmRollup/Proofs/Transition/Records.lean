import AmmRollup.Proofs.Merkle.Hashed
import AmmRollup.Proofs.Merkle.Sparse
import AmmRollup.Proofs.Result
import AmmRollup.Proofs.Total
import AmmRollup.Transition.Trees

/-!
# AmmRollup.Proofs.Transition.Records

The records that the four state trees stand for, as functions from indexes, and what
the writes of a step do to them.  Trees over records that replay some writes are over
the records that those writes leave (`StateTrees.Over.replay`).

The trees differ in the shape of their records and in nothing else.  A `View` picks one
of the four, so that what is true of every tree is stated and proved once.
-/

namespace AmmRollup

/-! ## One tree

A state tree holds records, each hashed into its leaf, and an unwritten leaf where there is none.
`Tree.Stores` says this of a tree that was built by writing leaves; rehashing the way from a leaf
then is an update of the record behind it.
-/

section

variable {ρ : Type} [Record ρ]

/-- The leaves of a tree over records. -/
def leavesOf (records : Nat → Option ρ) (i : Nat) : Bytes32 := Record.leafOrEmpty (records i)

/-- What a tree of a depth over records is hashed from: its nodes, and its records. -/
def treePreimages (records : Nat → Option ρ) (depth : Nat) : Set Bytes :=
  nodePreimages (leavesOf records) depth ∪ { bytes | ∃ i, bytes ∈ leafPreimages (records i) }

theorem leavesOf_update (records : Nat → Option ρ) (i : Nat) (r : Option ρ) :
    leavesOf (Function.update records i r) =
      Function.update (leavesOf records) i (Record.leafOrEmpty r) :=
  Function.comp_update Record.leafOrEmpty records i r

theorem mem_emptyStrings_of_tree {depth n : Nat} (hd : depth ≤ n) {bytes : Bytes}
    (h : bytes ∈ treePreimages (fun _ => (none : Option ρ)) depth) : bytes ∈ emptyStrings n := by
  obtain h | ⟨_, hnone⟩ := h
  · exact mem_emptyStrings hd h
  · contradiction

/-- A tree with no records behind its first two leaves is hashed from these, from folding the
first one up, and from the roots of unwritten subtrees. -/
theorem mem_strings_of_front {records : Nat → Option ρ} (hf : ∀ j, 1 < j → records j = none)
    {depth n : Nat} (hd : depth < n) {bytes : Bytes}
    (h : bytes ∈ treePreimages records (depth + 1)) :
    bytes ∈ emptyStrings n ∨ bytes ∈ leafPreimages (records 0) ∨
      bytes ∈ leafPreimages (records 1) ∨
      bytes ∈ foldStrings (leavesOf records 0)
        (⟨leavesOf records 1, false⟩ :: emptyPath 1 depth) := by
  have hempty (j : Nat) (hj : 1 < j) : leavesOf records j = emptyLeaf := by
    rw [leavesOf, hf j hj, Record.leafOrEmpty]
  obtain h | ⟨i, hi⟩ := h
  -- away from the front the tree agrees with an unwritten one
  · rcases nodePreimages_subset_of_agree (g := fun _ => emptyLeaf) (i := 0)
      (fun j hj => hempty j (by omega)) h with h | h
    · have hpath := pathOver_of_front hempty depth (Nat.zero_le 1)
      rw [hpath] at h
      exact .inr (.inr (.inr (mem_foldStrings h)))
    · exact .inl (mem_emptyStrings hd h)
  · match i with
    | 0 => exact .inr (.inl hi)
    | 1 => exact .inr (.inr (.inl hi))
    | i + 2 =>
        rw [hf (i + 2) (by omega)] at hi
        contradiction

/-- The strings that unwritten trees are hashed from, and a tree with one record, its first. -/
def frontStrings (r : ρ) (depth : Nat) : List Bytes :=
  emptyStrings 22 ++ Record.preimage r :: foldStrings (Record.leaf r) (emptyPath 0 depth)

theorem mem_frontStrings_of_tree {r : ρ} {record : Option ρ}
    (hrecord : record = none ∨ record = some r) {depth : Nat} (hd : depth < 22) {bytes : Bytes}
    (h : bytes ∈ treePreimages (Function.update (fun _ => none) 0 record) (depth + 1)) :
    bytes ∈ frontStrings r (depth + 1) := by
  have hbeyond (j : Nat) (hj : 1 < j) : Function.update (fun _ => none) 0 record j = none := by
    rw [Function.update_of_ne (by omega)]
  -- with no record the tree is unwritten; with one, what it hashes starts at the first two leaves
  rcases hrecord with rfl | rfl
  · rw [Function.update_eq_self_iff.mpr rfl] at h
    have hempty := mem_emptyStrings_of_tree (n := 22) (by omega) h
    simp [frontStrings, hempty]
  · obtain h | h | h | h := mem_strings_of_front hbeyond (n := 22) hd h
    · simp [frontStrings, h]
    · obtain rfl : bytes = Record.preimage r := h
      simp [frontStrings]
    · contradiction
    · replace h : bytes ∈ foldStrings (Record.leaf r) (emptyPath 0 (depth + 1)) := h
      simp [frontStrings, h]

/-- The digests of those strings. -/
theorem map_frontStrings (r : ρ) (depth : Nat) :
    emptyLeaf :: (frontStrings r depth).map keccak256 = emptySubtreesFrom emptyLeaf 23 ++
      Record.leaf r :: foldNodes (Record.leaf r) (emptyPath 0 depth) := by
  rw [← map_emptyStrings]
  simp only [frontStrings, List.map_append, List.map_cons, map_foldStrings, List.cons_append]
  rfl

/-- A tree that was built by writing leaves, with a record or none behind each of them. -/
structure Tree.Stores {depth : Nat} (t : Tree depth) (records : Nat → Option ρ) : Prop where
  built : t.Built
  leaf_eq : ∀ i < 2 ^ depth, t.leaf i = Record.leafOrEmpty (records i)
  none_beyond : ∀ i, 2 ^ depth ≤ i → records i = none

namespace Tree.Stores

variable {depth : Nat} {t : Tree depth} {records : Nat → Option ρ}

theorem empty (depth : Nat) : (Tree.empty depth).Stores fun _ => (none : Option ρ) where
  built := .empty
  leaf_eq _ hi := (over_empty depth).leaf_eq hi
  none_beyond _ _ := rfl

theorem tree_over (h : t.Stores records) : t.Over (leavesOf records) :=
  h.built.tree_over.congr h.leaf_eq

theorem finite (h : t.Stores records) : FiniteMap records :=
  (Set.finite_lt_nat (2 ^ depth)).subset fun i hi =>
    Nat.lt_of_not_le fun hle => hi (h.none_beyond i hle)

theorem root_eq (h : t.Stores records) : t.root = nodeOver (leavesOf records) depth 0 :=
  h.tree_over.root_eq

/-- Rewriting a leaf rewrites the record behind it. -/
theorem rehash (h : t.Stores records) {i : Nat} (hi : i < 2 ^ depth) (r : Option ρ) :
    (t.rehash depth 0 i (Record.leafOrEmpty r)).Stores (Function.update records i r) where
  built := h.built.setLeaf (setLeaf_eq_ok hi _)
  leaf_eq j hj := by
    rw [(h.tree_over.rehash hi _).leaf_eq hj, ← leavesOf_update, leavesOf]
  none_beyond j hj := by
    rw [Function.update_of_ne (by omega), h.none_beyond j hj]

end Tree.Stores

/-- The witness of the first leaf of an unwritten tree opens the tree with any record there. -/
theorem Tree.opens_first (depth : Nat) (record : Option ρ) :
    (⟨(Tree.empty depth).path 0⟩ : Witness).Opens
      (leavesOf (Function.update (fun _ => none) 0 record)) depth := by
  have hover := Tree.over_empty depth
  have hopens := (hover.opens_witness (Nat.two_pow_pos depth)).update (Record.leafOrEmpty record)
  rw [hover.pathPosition_path (Nat.two_pow_pos depth)] at hopens
  rw [leavesOf_update]
  exact hopens

omit [Record ρ] in
/-- Records after several writes. -/
def writeAt (records : Nat → Option ρ) (writes : List (Nat × ρ)) : Nat → Option ρ :=
  writes.foldl (fun records w => Function.update records w.1 (some w.2)) records

omit [Record ρ] in
/-- The writes that concern one tree, given by how its records are told from others. -/
def writesOf (record? : LeafValue → Option ρ) (writes : List LeafWrite) : List (Nat × ρ) :=
  writes.filterMap fun w => (record? w.leaf).map fun r => (w.index.toNat, r)

end

/-! ## Four trees

The four trees hold three shapes of records at three heights.  A `View` is one of them with its
records and its root, so that what holds of any tree is stated once and read four times.
-/

/-- The records of the four state trees, by their indexes. -/
structure Records where
  balances : Nat → Option AccountRecord
  liquidities : Nat → Option Liquidity
  pools : Nat → Option Pool
  burns : Nat → Option AccountRecord

namespace LeafValue

/-- The record of a leaf of the balances tree. -/
def balance? : LeafValue → Option AccountRecord
  | .balance r => some r
  | _ => none

/-- The record of a leaf of the liquidities tree. -/
def liquidity? : LeafValue → Option Liquidity
  | .liquidity l => some l
  | _ => none

/-- The record of a leaf of the pools tree. -/
def pool? : LeafValue → Option Pool
  | .pool p => some p
  | _ => none

/-- The record of a leaf of the burns tree. -/
def burn? : LeafValue → Option AccountRecord
  | .burn r => some r
  | _ => none

end LeafValue

namespace Records

/-- No records. -/
def empty : Records := ⟨fun _ => none, fun _ => none, fun _ => none, fun _ => none⟩

/-- The roots of the trees over records. -/
def roots (r : Records) : StateRoots where
  balances := nodeOver (leavesOf r.balances) (balancesHeight - 1) 0
  liquidities := nodeOver (leavesOf r.liquidities) (liquiditiesHeight - 1) 0
  pools := nodeOver (leavesOf r.pools) (poolsHeight - 1) 0
  burns := nodeOver (leavesOf r.burns) (burnsHeight - 1) 0

/-- What the trees over records are hashed from. -/
def preimages (r : Records) : Set Bytes :=
  treePreimages r.balances (balancesHeight - 1) ∪
    treePreimages r.liquidities (liquiditiesHeight - 1) ∪
    treePreimages r.pools (poolsHeight - 1) ∪ treePreimages r.burns (burnsHeight - 1)

/-- There are finitely many records of each kind. -/
structure Finite (r : Records) : Prop where
  balances : FiniteMap r.balances
  liquidities : FiniteMap r.liquidities
  pools : FiniteMap r.pools
  burns : FiniteMap r.burns

/-- Unwritten trees are hashed from the roots of unwritten subtrees alone. -/
theorem preimages_empty {bytes : Bytes} (h : bytes ∈ empty.preimages) :
    bytes ∈ emptyStrings 22 := by
  obtain ((h | h) | h) | h := h
  · exact mem_emptyStrings_of_tree (by decide) h
  · exact mem_emptyStrings_of_tree (by decide) h
  · exact mem_emptyStrings_of_tree (by decide) h
  · exact mem_emptyStrings_of_tree (by decide) h

/-- The digests of unwritten subtrees, computed. -/
theorem fingerprints_empty : (emptySubtreesFrom emptyLeaf 23).map fingerprint =
    [0, 12973, 49588, 56609, 34789, 45070, 31880, 55295, 26520, 64206, 56569, 45560, 36916, 57281,
      26460, 31706, 13095, 54241, 11610, 27316, 24262, 16884, 40026] := by
  decide +kernel

/-- The digests of unwritten subtrees are all different. -/
theorem nodup_emptySubtreesFrom : (emptySubtreesFrom emptyLeaf 23).Nodup := by
  refine .of_map fingerprint ?_
  rw [fingerprints_empty]
  decide +kernel

/-- Nothing collides in unwritten trees. -/
theorem collisionFree_empty : CollisionFree empty.preimages := by
  refine .of_nodup (fun bytes => preimages_empty) ?_
  rw [map_emptyStrings]
  exact nodup_emptySubtreesFrom

/-- Records after the writes of a step. -/
def writeAll (r : Records) (writes : List LeafWrite) : Records where
  balances := writeAt r.balances (writesOf LeafValue.balance? writes)
  liquidities := writeAt r.liquidities (writesOf LeafValue.liquidity? writes)
  pools := writeAt r.pools (writesOf LeafValue.pool? writes)
  burns := writeAt r.burns (writesOf LeafValue.burn? writes)

theorem writeAll_cons (r : Records) (w : LeafWrite) (writes : List LeafWrite) :
    r.writeAll (w :: writes) = (r.writeAll [w]).writeAll writes := by
  obtain ⟨index, leaf⟩ := w
  cases leaf <;> rfl

theorem writeAll_append (r : Records) (writes more : List LeafWrite) :
    r.writeAll (writes ++ more) = (r.writeAll writes).writeAll more := by
  simp [writeAll, writeAt, writesOf]

end Records

/-- One of the four state trees: its depth, and where its records and its root stand. -/
structure View (ρ : Type) [Record ρ] where
  depth : Nat
  records : Records → Nat → Option ρ
  root : StateRoots → Bytes32
  record? : LeafValue → Option ρ
  depth_le : depth ≤ 64
  root_roots : ∀ r : Records, root r.roots = nodeOver (leavesOf (records r)) depth 0
  records_writeAll : ∀ (r : Records) writes,
    records (r.writeAll writes) = writeAt (records r) (writesOf record? writes)
  preimages_subset : ∀ r : Records, treePreimages (records r) depth ⊆ r.preimages

namespace View

/-- The balances tree. -/
def balances : View AccountRecord where
  depth := balancesHeight - 1
  records := Records.balances
  root := StateRoots.balances
  record? := LeafValue.balance?
  depth_le := by decide
  root_roots _ := rfl
  records_writeAll _ _ := rfl
  preimages_subset _ _ h := .inl (.inl (.inl h))

/-- The liquidities tree. -/
def liquidities : View Liquidity where
  depth := liquiditiesHeight - 1
  records := Records.liquidities
  root := StateRoots.liquidities
  record? := LeafValue.liquidity?
  depth_le := by decide
  root_roots _ := rfl
  records_writeAll _ _ := rfl
  preimages_subset _ _ h := .inl (.inl (.inr h))

/-- The pools tree. -/
def pools : View Pool where
  depth := poolsHeight - 1
  records := Records.pools
  root := StateRoots.pools
  record? := LeafValue.pool?
  depth_le := by decide
  root_roots _ := rfl
  records_writeAll _ _ := rfl
  preimages_subset _ _ h := .inl (.inr h)

/-- The burns tree. -/
def burns : View AccountRecord where
  depth := burnsHeight - 1
  records := Records.burns
  root := StateRoots.burns
  record? := LeafValue.burn?
  depth_le := by decide
  root_roots _ := rfl
  records_writeAll _ _ := rfl
  preimages_subset _ _ h := .inr h

end View

/-! ## Replaying writes

A step lists the leaves it writes.  Whoever keeps the trees replays them in order, and ends with
the roots that the step computed.
-/

/-- The index of a write lies in its tree. -/
def LeafWrite.InRange (w : LeafWrite) : Prop :=
  match w.leaf with
  | .balance _ => w.index.toNat < 2 ^ (balancesHeight - 1)
  | .liquidity _ => w.index.toNat < 2 ^ (liquiditiesHeight - 1)
  | .pool _ => w.index.toNat < 2 ^ (poolsHeight - 1)
  | .burn _ => w.index.toNat < 2 ^ (burnsHeight - 1)

namespace StateTrees

/-- The four state trees have some records behind their leaves. -/
structure Stores (s : StateTrees) (r : Records) : Prop where
  balances : s.balances.Stores r.balances
  liquidities : s.liquidities.Stores r.liquidities
  pools : s.pools.Stores r.pools
  burns : s.burns.Stores r.burns

variable {s : StateTrees} {r : Records}

theorem Stores.roots_eq (h : s.Stores r) : s.roots = r.roots := by
  rw [roots, h.balances.root_eq, h.liquidities.root_eq, h.pools.root_eq, h.burns.root_eq,
    Records.roots]

theorem stores_empty : empty.Stores .empty := ⟨.empty _, .empty _, .empty _, .empty _⟩

theorem Stores.finite (h : s.Stores r) : r.Finite :=
  ⟨h.balances.finite, h.liquidities.finite, h.pools.finite, h.burns.finite⟩

theorem replay_append (s : StateTrees) (writes more : List LeafWrite) :
    s.replay (writes ++ more) = s.replay writes >>= fun s => s.replay more := by
  simp only [replay, List.foldlM_append]

/-- One write rewrites the record behind its leaf. -/
theorem Stores.setLeaf (h : s.Stores r) {w : LeafWrite} (hw : w.InRange) :
    ∃ root s', s.setLeaf w.leaf.tree w.index.toNat w.leaf.leaf = .ok (root, s') ∧
      s'.Stores (r.writeAll [w]) := by
  obtain ⟨index, leaf⟩ := w
  obtain ⟨hb, hl, hp, hu⟩ := h
  -- the leaf's kind names its tree, and the three others stay
  cases leaf with
  | balance a =>
      let balances := s.balances.rehash (balancesHeight - 1) 0 index.toNat (Record.leaf a)
      refine ⟨balances.root, { s with balances }, ?_, hb.rehash hw (some a), hl, hp, hu⟩
      simp only [StateTrees.setLeaf, LeafValue.tree, Tree.setLeaf_eq_ok hw]
      rfl
  | burn a =>
      let burns := s.burns.rehash (burnsHeight - 1) 0 index.toNat (Record.leaf a)
      refine ⟨burns.root, { s with burns }, ?_, hb, hl, hp, hu.rehash hw (some a)⟩
      simp only [StateTrees.setLeaf, LeafValue.tree, Tree.setLeaf_eq_ok hw]
      rfl
  | pool p =>
      let pools := s.pools.rehash (poolsHeight - 1) 0 index.toNat (Record.leaf p)
      refine ⟨pools.root, { s with pools }, ?_, hb, hl, hp.rehash hw (some p), hu⟩
      simp only [StateTrees.setLeaf, LeafValue.tree, Tree.setLeaf_eq_ok hw]
      rfl
  | liquidity l =>
      let liquidities := s.liquidities.rehash (liquiditiesHeight - 1) 0 index.toNat (Record.leaf l)
      refine ⟨liquidities.root, { s with liquidities }, ?_, hb, hl.rehash hw (some l), hp, hu⟩
      simp only [StateTrees.setLeaf, LeafValue.tree, Tree.setLeaf_eq_ok hw]
      rfl

/-- Replaying writes, in order, rewrites the records behind the leaves. -/
theorem Stores.replay (h : s.Stores r) {writes : List LeafWrite} (hw : ∀ w ∈ writes, w.InRange) :
    ∃ s', s.replay writes = .ok s' ∧ s'.Stores (r.writeAll writes) := by
  induction writes generalizing s r with
  | nil => exact ⟨s, rfl, h⟩
  | cons w writes ih =>
      obtain ⟨root, next, hset, hnext⟩ := h.setLeaf (hw w List.mem_cons_self)
      obtain ⟨s', hreplay, hs'⟩ := ih hnext fun w hm => hw w (List.mem_cons_of_mem _ hm)
      rw [Records.writeAll_cons]
      refine ⟨s', ?_, hs'⟩
      rw [StateTrees.replay, List.foldlM_cons, hset]
      exact hreplay

end StateTrees

end AmmRollup
