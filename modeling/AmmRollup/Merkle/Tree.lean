import AmmRollup.Merkle.Witness
import Std.Data.ExtTreeMap

/-!
# AmmRollup.Merkle.Tree

A sparse binary hash tree with `2 ^ depth` leaves and `depth + 1` levels.  Only nodes
that differ from an unwritten subtree are stored.  They are numbered as in a heap:
the root is 1, the children of `g` are `2 * g` and `2 * g + 1`, so position `i` of
the level that lies `k` below the root is `2 ^ k + i`.
-/

namespace AmmRollup

/-- A sparse tree of a fixed depth, with the roots of unwritten subtrees at its levels. -/
structure Tree (depth : Nat) where
  nodes : Std.ExtTreeMap Nat Bytes32
  empties : List Bytes32
  empties_eq : empties = emptySubtreesFrom emptyLeaf (depth + 1)

namespace Tree

variable {depth : Nat}

/-- The depth of a tree of `height` levels; only 1 to 64 levels are supported. -/
def depthOfHeight (height : Nat) : Except MerkleError Nat :=
  if height = 0 ∨ 64 < height then .error (.invalidHeight height) else .ok (height - 1)

/-- The tree whose leaves are all unwritten. -/
def empty (depth : Nat) : Tree depth where
  nodes := ∅
  empties := emptySubtreesFrom emptyLeaf (depth + 1)
  empties_eq := rfl

/-- The number of levels. -/
def height (_ : Tree depth) : Nat := depth + 1

/-- The number of leaves. -/
def capacity (_ : Tree depth) : Nat := 1 <<< depth

/-- The number of a node by its level, counted from the leaves, and its position there. -/
def number (depth level position : Nat) : Nat := 1 <<< (depth - level) + position

/-- The node that stands beside a position. -/
def beside (position : Nat) : Nat :=
  if position % 2 = 1 then position - 1 else position + 1

/-! ## Reading -/

/-- The root of an unwritten subtree at a level. -/
def emptyAt (t : Tree depth) (level : Nat) : Bytes32 :=
  t.empties.getD level emptyLeaf

/-- The node at a level and position. -/
def node (t : Tree depth) (level position : Nat) : Bytes32 :=
  (t.nodes[number depth level position]?).getD (t.emptyAt level)

/-- The root. -/
def root (t : Tree depth) : Bytes32 := t.node depth 0

/-- The value of a leaf; an index past the last leaf counts as never written. -/
def leaf (t : Tree depth) (index : Nat) : Bytes32 := t.node 0 index

/-- The siblings on the way up through `levels` levels from a node. -/
def siblingsFrom (t : Tree depth) : (levels level position : Nat) → List Sibling
  | 0, _, _ => []
  | levels + 1, level, position =>
      ⟨t.node level (beside position), position % 2 = 1⟩ ::
        siblingsFrom t levels (level + 1) (position / 2)

/-- The siblings of a leaf up to the root. -/
def path (t : Tree depth) (index : Nat) : List Sibling :=
  t.siblingsFrom depth 0 index

/-- Refuses an index past the last leaf. -/
def checkIndex (t : Tree depth) (index : Nat) : Except MerkleError Unit :=
  if index < t.capacity then .ok () else .error (.indexOutOfRange index t.capacity)

/-- The witness of a leaf against the current root. -/
def witness (t : Tree depth) (index : Nat) : Except MerkleError Witness := do
  t.checkIndex index
  return ⟨t.path index⟩

/-- The witness of two distinct leaves against the current root. -/
def doubleWitness (t : Tree depth) (a b : Nat) : Except MerkleError DoubleWitness := do
  t.checkIndex a
  t.checkIndex b
  if a = b then
    throw (.sameIndex a)
  return ⟨t.path a, t.path b, mergeFlags (UInt64.ofNat a) (UInt64.ofNat b) depth⟩

/-! ## Writing -/

/-- Stores a node, or drops it when it equals an unwritten subtree. -/
def put (t : Tree depth) (level position : Nat) (value : Bytes32) : Tree depth :=
  { t with
    nodes :=
      if value = t.emptyAt level then t.nodes.erase (number depth level position)
      else t.nodes.insert (number depth level position) value }

/-- Stores a node and every node above it, through `levels` levels. -/
def rehash (t : Tree depth) : (levels level position : Nat) → Bytes32 → Tree depth
  | 0, level, position, value => t.put level position value
  | levels + 1, level, position, value =>
      let sibling : Sibling := ⟨t.node level (beside position), position % 2 = 1⟩
      (t.put level position value).rehash levels (level + 1) (position / 2) (sibling.fold value)

/-- Writes a leaf and rehashes the way to the root. -/
def setLeaf (t : Tree depth) (index : Nat) (value : Bytes32) : Except MerkleError (Tree depth) := do
  t.checkIndex index
  return t.rehash depth 0 index value

/-! ## Unwritten trees -/

theorem emptyAt_eq (t : Tree depth) {level : Nat} (h : level ≤ depth) :
    t.emptyAt level = emptySubtree level := by
  have := getD_emptySubtreesFrom 0 (Nat.lt_succ_of_le h)
  rw [Nat.zero_add] at this
  rw [emptyAt, t.empties_eq]
  exact this

/-- The root of an unwritten tree is the unwritten root of its height. -/
theorem root_empty (depth : Nat) : (empty depth).root = emptyRoot (depth + 1) := by
  rw [root, node, emptyAt_eq _ (Nat.le_refl depth)]
  simp [empty, emptyRoot]

end Tree

end AmmRollup
