import AmmRollup.Merkle.Tree
import AmmRollup.Proofs.Digest
import Mathlib.Algebra.Ring.Nat

/-!
# AmmRollup.Proofs.Merkle.Complete

The complete tree over a function from positions to leaves: what a sparse tree
stands for, and what a path of siblings is checked against.  Nothing is stored
here; a node is computed from the leaves below it.

* `fold_pathOver` — the siblings of a position fold its new value to the node above
  it in the tree where that value stands;
* `eq_pathOver_of_fold` — when digests do not collide, siblings that fold some value
  to a node of the tree are the tree's own, and the value is the one below.
-/

namespace AmmRollup

/-! ## Nodes

The complete tree is a function of its leaves: a node is hashed from the two below it, whatever a
program stores of either.  Which leaves a node depends on is all that later modules need of it,
so rewriting a leaf is `Function.update` here, and a node that does not stand above it is the
same before and after.
-/

/-- The node at a level and position of the complete tree over some leaves. -/
def nodeOver (leaves : Nat → Bytes32) : (level position : Nat) → Bytes32
  | 0, position => leaves position
  | level + 1, position =>
      hashPair (nodeOver leaves level (2 * position)) (nodeOver leaves level (2 * position + 1))

/-- What the nodes above the leaves are hashed from, up to a depth. -/
def nodePreimages (leaves : Nat → Bytes32) (depth : Nat) : Set Bytes :=
  { bytes | ∃ level position, level < depth ∧
      bytes = pairBytes (nodeOver leaves level (2 * position))
        (nodeOver leaves level (2 * position + 1)) }

variable {f g : Nat → Bytes32}

/-- A node depends on the leaves below it alone. -/
theorem nodeOver_congr {level position : Nat}
    (h : ∀ i, i / 2 ^ level = position → f i = g i) :
    nodeOver f level position = nodeOver g level position := by
  induction level generalizing position with
  | zero => exact h position (Nat.div_one position)
  | succ level ih =>
      have hchild {child : Nat} (hc : child / 2 = position) :
          nodeOver f level child = nodeOver g level child :=
        ih fun i hi => h i (by rw [Nat.pow_succ, ← Nat.div_div_eq_div_mul, hi, hc])
      rw [nodeOver, nodeOver, hchild (by omega), hchild (by omega)]

/-- Writing a leaf leaves the nodes that do not stand above it. -/
theorem nodeOver_update_of_ne {level position i : Nat} (value : Bytes32)
    (h : i / 2 ^ level ≠ position) :
    nodeOver (Function.update f i value) level position = nodeOver f level position :=
  nodeOver_congr fun _ hj => Function.update_of_ne (fun hji => h (by rw [← hji, hj])) value f

/-- The nodes over unwritten leaves are the roots of unwritten subtrees. -/
theorem nodeOver_emptyLeaf (level position : Nat) :
    nodeOver (fun _ => emptyLeaf) level position = emptySubtree level := by
  induction level generalizing position with
  | zero => rfl
  | succ level ih => rw [nodeOver, ih, ih, emptySubtree]

/-! ## Positions

The sibling of a position is the other child of its parent.  Stating this once as a property,
that two positions differ and share the one above, spares every later proof the case of an even
and of an odd position.
-/

namespace Tree

/-- Two positions stand beside each other when they differ and share the one above. -/
theorem eq_beside_iff {p q : Nat} : q = beside p ↔ q ≠ p ∧ q / 2 = p / 2 := by
  unfold beside
  split <;> omega

theorem beside_ne (p : Nat) : beside p ≠ p := (eq_beside_iff.mp rfl).1

@[simp] theorem beside_div_two (p : Nat) : beside p / 2 = p / 2 := (eq_beside_iff.mp rfl).2

end Tree

/-! ## Paths

A witness carries the siblings of a leaf on its way to the root.  `pathOver` is the path that a
leaf has in the complete tree, and `foldUp` is what a verifier does with the path it is given.
The two meet in `fold_pathOver`: the tree's own path folds any value up to the root of the tree
with that value at the foot.
-/

open AmmRollup.Tree (beside)

/-- The siblings on the way up through `levels` levels of the complete tree. -/
def pathOver (leaves : Nat → Bytes32) : (levels level position : Nat) → List Sibling
  | 0, _, _ => []
  | levels + 1, level, position =>
      ⟨nodeOver leaves level (beside position), position % 2 = 1⟩ ::
        pathOver leaves levels (level + 1) (position / 2)

/-- Folds a value up through siblings. -/
def foldUp (value : Bytes32) (siblings : List Sibling) : Bytes32 :=
  siblings.foldl (fun node s => s.fold node) value

@[simp] theorem foldUp_nil (value : Bytes32) : foldUp value [] = value := rfl

@[simp] theorem foldUp_cons (value : Bytes32) (s : Sibling) (siblings : List Sibling) :
    foldUp value (s :: siblings) = foldUp (s.fold value) siblings := rfl

theorem Witness.root_eq_foldUp (w : Witness) (value : Bytes32) :
    w.root value = foldUp value w.siblings := rfl

@[simp] theorem length_pathOver (levels level position : Nat) :
    (pathOver f levels level position).length = levels := by
  induction levels generalizing level position with
  | zero => rfl
  | succ levels ih => rw [pathOver, List.length_cons, ih]

/-- The sibling met at each level of a path. -/
theorem getElem_pathOver (levels level position k : Nat)
    (hk : k < (pathOver f levels level position).length) :
    (pathOver f levels level position)[k] =
      ⟨nodeOver f (level + k) (beside (position / 2 ^ k)), position / 2 ^ k % 2 = 1⟩ := by
  induction levels generalizing level position k with
  | zero => simp at hk
  | succ levels ih =>
      simp only [pathOver]
      cases k with
      | zero => simp
      | succ k =>
          rw [List.getElem_cons_succ, ih, Nat.div_div_eq_div_mul, ← Nat.pow_succ']
          simp only [Nat.add_assoc, Nat.add_comm 1 k]

theorem take_pathOver (levels level position k : Nat) (hk : k ≤ levels) :
    (pathOver f levels level position).take k = pathOver f k level position := by
  apply List.ext_getElem
  · simp [hk]
  · intro i _ _
    rw [List.getElem_take, getElem_pathOver, getElem_pathOver]

/-- Rewriting a leaf leaves the siblings on its way up. -/
theorem pathOver_update (levels level i : Nat) (value : Bytes32) :
    pathOver (Function.update f i value) levels level (i / 2 ^ level) =
      pathOver f levels level (i / 2 ^ level) := by
  apply List.ext_getElem
  · simp
  · intro k _ _
    have hne : i / 2 ^ (level + k) ≠ beside (i / 2 ^ level / 2 ^ k) := by
      rw [Nat.pow_add, ← Nat.div_div_eq_div_mul]
      exact (Tree.beside_ne _).symm
    rw [getElem_pathOver, getElem_pathOver, nodeOver_update_of_ne value hne]

/-- A path spells the position that it starts from. -/
theorem pathPosition_pathOver (levels level position : Nat) :
    pathPosition (pathOver f levels level position) = position % 2 ^ levels := by
  induction levels generalizing level position with
  | zero => simp [pathOver, pathPosition, Nat.mod_one]
  | succ levels ih =>
      have hbit : (decide (position % 2 = 1)).toNat = position % 2 := by
        rcases Nat.mod_two_eq_zero_or_one position with h | h <;> simp [h]
      rw [pathOver, pathPosition, ih, hbit, Nat.pow_succ', Nat.mod_mul]

theorem pathPosition_lt (path : List Sibling) : pathPosition path < 2 ^ path.length := by
  induction path with
  | nil => simp [pathPosition]
  | cons s path ih =>
      have := Bool.toNat_lt s.isLeft
      rw [pathPosition, List.length_cons, Nat.pow_succ']
      omega

theorem pathPosition_take (path : List Sibling) (k : Nat) :
    pathPosition (path.take k) = pathPosition path % 2 ^ k := by
  induction path generalizing k with
  | nil => simp [pathPosition]
  | cons s path ih =>
      cases k with
      | zero => simp [pathPosition, Nat.mod_one]
      | succ k =>
          have := Bool.toNat_lt s.isLeft
          rw [List.take_succ_cons, pathPosition, pathPosition, ih, Nat.pow_succ', Nat.mod_mul,
            show (s.isLeft.toNat + 2 * pathPosition path) / 2 = pathPosition path by omega]
          omega

/-- A sibling of the tree joins a node with the one beside it. -/
theorem fold_sibling (level position : Nat) :
    (⟨nodeOver f level (beside position), position % 2 = 1⟩ : Sibling).fold
      (nodeOver f level position) = nodeOver f (level + 1) (position / 2) := by
  rcases Nat.mod_two_eq_zero_or_one position with h | h
  · have hp : 2 * (position / 2) = position := by omega
    simp [Sibling.fold, Sibling.join, beside, nodeOver, h, hp]
  · have hp : 2 * (position / 2) = position - 1 := by omega
    have hs : position - 1 + 1 = position := by omega
    simp [Sibling.fold, Sibling.join, beside, nodeOver, h, hp, hs]

/-- The path of a position folds any new value below it up into the tree where that
value stands: the leaves elsewhere, and so the siblings, are the same. -/
theorem fold_pathOver (levels level position : Nat)
    (h : ∀ i, i / 2 ^ level ≠ position → f i = g i) :
    foldUp (nodeOver g level position) (pathOver f levels level position) =
      nodeOver g (level + levels) (position / 2 ^ levels) := by
  induction levels generalizing level position with
  | zero => simp [pathOver]
  | succ levels ih =>
      have hsibling : nodeOver f level (beside position) = nodeOver g level (beside position) :=
        nodeOver_congr fun i hi => h i (hi ▸ Tree.beside_ne position)
      have habove : ∀ i, i / 2 ^ (level + 1) ≠ position / 2 → f i = g i := fun i hi =>
        h i fun hip => hi (by rw [Nat.pow_succ, ← Nat.div_div_eq_div_mul, hip])
      rw [pathOver, foldUp_cons, hsibling, fold_sibling, ih _ _ habove,
        Nat.div_div_eq_div_mul, ← Nat.pow_succ']
      congr 1
      omega

/-! ## Binding

The other direction needs that digests do not collide.  Whatever siblings fold a value to a node
of the tree are the tree's own, and the value is the node at their foot: the argument goes down
from the node, one level at a time, as the two children of a node are the only preimage of its
digest.
-/

/-- What folding a value up hashes. -/
def foldPreimages (value : Bytes32) : List Sibling → Set Bytes
  | [] => ∅
  | s :: siblings =>
      insert (if s.isLeft then pairBytes s.value value else pairBytes value s.value)
        (foldPreimages (s.fold value) siblings)

theorem foldPreimages_take_subset (value : Bytes32) (siblings : List Sibling) (k : Nat) :
    foldPreimages value (siblings.take k) ⊆ foldPreimages value siblings := by
  induction siblings generalizing value k with
  | nil => simp
  | cons s siblings ih =>
      cases k with
      | zero => exact Set.empty_subset _
      | succ k => exact Set.insert_subset_insert (ih _ k)

/-- Folding a node up through its own path hashes nothing but nodes of the tree. -/
theorem foldPreimages_pathOver {depth : Nat} (levels level position : Nat)
    (hl : level + levels ≤ depth) :
    foldPreimages (nodeOver f level position) (pathOver f levels level position) ⊆
      nodePreimages f depth := by
  induction levels generalizing level position with
  | zero => exact Set.empty_subset _
  | succ levels ih =>
      rw [pathOver, foldPreimages, fold_sibling]
      refine Set.insert_subset ⟨level, position / 2, by omega, ?_⟩ (ih _ _ (by omega))
      rcases Nat.mod_two_eq_zero_or_one position with h | h
      · have hp : 2 * (position / 2) = position := by omega
        simp [beside, h, hp]
      · have hp : 2 * (position / 2) = position - 1 := by omega
        have hs : position - 1 + 1 = position := by omega
        simp [beside, h, hp, hs]

/-- A sibling that joins some value to a node of the tree is the tree's own. -/
theorem eq_of_fold_eq_nodeOver {hashed : Set Bytes} (hc : CollisionFree hashed)
    {level depth position : Nat} (hf : nodePreimages f depth ⊆ hashed) (hl : level < depth)
    {s : Sibling} {value : Bytes32}
    (hs : (if s.isLeft then pairBytes s.value value else pairBytes value s.value) ∈ hashed)
    (h : s.fold value = nodeOver f (level + 1) position) :
    value = nodeOver f level (s.isLeft.toNat + 2 * position) ∧
      s.value = nodeOver f level (beside (s.isLeft.toNat + 2 * position)) := by
  -- the node is hashed from its own two children, and a digest has one preimage
  have hnode : pairBytes (nodeOver f level (2 * position)) (nodeOver f level (2 * position + 1)) ∈
      hashed := hf ⟨level, position, hl, rfl⟩
  obtain ⟨sibling, isLeft⟩ := s
  cases isLeft with
  | false =>
      have hb : beside (2 * position) = 2 * position + 1 := by
        rw [beside, if_neg (by omega)]
      have := hc.pair_inj hs hnode (by simpa [Sibling.fold, Sibling.join, nodeOver] using h)
      simpa [hb] using this
  | true =>
      have hb : beside (1 + 2 * position) = 2 * position := by
        rw [beside, if_pos (by omega)]
        omega
      have := hc.pair_inj hs hnode (by simpa [Sibling.fold, Sibling.join, nodeOver] using h)
      rw [Bool.toNat_true, hb, Nat.add_comm 1]
      exact this.symm

/-- Siblings that fold a value to a node of the tree are the path that they spell, and
the value is the node at its foot.  The siblings are free, so the argument goes from
the top down: the root fixes the last pair, which fixes the one before. -/
theorem eq_pathOver_of_fold {hashed : Set Bytes} (hc : CollisionFree hashed) {depth : Nat}
    (hf : nodePreimages f depth ⊆ hashed) {siblings : List Sibling} {value : Bytes32}
    {level top : Nat} (hl : level + siblings.length ≤ depth)
    (hs : foldPreimages value siblings ⊆ hashed)
    (h : foldUp value siblings = nodeOver f (level + siblings.length) top) :
    value = nodeOver f level (pathPosition siblings + 2 ^ siblings.length * top) ∧
      siblings = pathOver f siblings.length level
        (pathPosition siblings + 2 ^ siblings.length * top) := by
  -- from the top down: the rest of the path binds the node above, which binds the pair below
  induction siblings generalizing value level with
  | nil =>
      refine ⟨?_, rfl⟩
      simpa [pathPosition] using h
  | cons s siblings ih =>
      simp only [List.length_cons] at hl h ⊢
      have hhead := hs (Set.mem_insert _ _)
      have htail := (Set.subset_insert _ _).trans hs
      rw [foldUp_cons, show level + (siblings.length + 1) = level + 1 + siblings.length by omega]
        at h
      obtain ⟨hvalue, hpath⟩ := ih (by omega) htail h
      obtain ⟨hfoot, hsibling⟩ :=
        eq_of_fold_eq_nodeOver hc hf (by omega : level < depth) hhead hvalue
      have hposition : pathPosition (s :: siblings) + 2 ^ (siblings.length + 1) * top =
          s.isLeft.toNat + 2 * (pathPosition siblings + 2 ^ siblings.length * top) := by
        rw [pathPosition, Nat.pow_succ', Nat.mul_add, Nat.mul_assoc, Nat.add_assoc]
      have hbit := Bool.toNat_lt s.isLeft
      rw [hposition]
      refine ⟨hfoot, ?_⟩
      rw [pathOver]
      congr 1
      · have hside : s.isLeft =
            decide ((s.isLeft.toNat + 2 * (pathPosition siblings + 2 ^ siblings.length * top)) %
              2 = 1) := by
          cases s.isLeft <;> simp
        rw [← hsibling, ← hside]
      · rwa [show (s.isLeft.toNat + 2 * (pathPosition siblings + 2 ^ siblings.length * top)) / 2 =
          pathPosition siblings + 2 ^ siblings.length * top by omega]

/-- Trees with one node at a level have the same leaves below it. -/
theorem leaf_eq_of_node_eq {hashed : Set Bytes} (hc : CollisionFree hashed) {depth : Nat}
    (hf : nodePreimages f depth ⊆ hashed) (hg : nodePreimages g depth ⊆ hashed)
    {level position i : Nat} (hl : level ≤ depth)
    (h : nodeOver f level position = nodeOver g level position) (hi : i / 2 ^ level = position) :
    f i = g i := by
  induction level generalizing position with
  | zero =>
      obtain rfl : i = position := by simpa using hi
      exact h
  | succ level ih =>
      obtain ⟨hleft, hright⟩ := hc.pair_inj (hf ⟨level, position, hl, rfl⟩)
        (hg ⟨level, position, hl, rfl⟩) h
      rw [Nat.pow_succ, ← Nat.div_div_eq_div_mul] at hi
      rcases Nat.mod_two_eq_zero_or_one (i / 2 ^ level) with hbit | hbit
      · exact ih (Nat.le_of_succ_le hl) hleft (by omega)
      · exact ih (Nat.le_of_succ_le hl) hright (by omega)

end AmmRollup
