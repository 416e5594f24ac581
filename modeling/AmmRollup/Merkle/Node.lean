import AmmRollup.Hash.Keccak

/-!
# AmmRollup.Merkle.Node

Nodes of a binary hash tree.  A node is the digest of its two children, an
unwritten leaf is all zeros, and the root of an unwritten subtree depends on its
height alone.  Levels count from the leaves, which are level 0.
-/

namespace AmmRollup

/-- The node above two children. -/
def hashPair (left right : Bytes32) : Bytes32 :=
  keccak256 (left.toBytes ++ right.toBytes)

/-- The value of a leaf that was never written. -/
def emptyLeaf : Bytes32 := .zero

/-- The root of a subtree of unwritten leaves, by its level. -/
def emptySubtree : Nat → Bytes32
  | 0 => emptyLeaf
  | level + 1 =>
      let child := emptySubtree level
      hashPair child child

/-- The root of a tree of unwritten leaves, by its number of levels. -/
def emptyRoot (height : Nat) : Bytes32 :=
  emptySubtree (height - 1)

/-- The roots of unwritten subtrees at `n` levels, from one whose root is given. -/
def emptySubtreesFrom (node : Bytes32) : Nat → List Bytes32
  | 0 => []
  | n + 1 => node :: emptySubtreesFrom (hashPair node node) n

theorem getD_emptySubtreesFrom {i n : Nat} (base : Nat) (h : i < n) :
    (emptySubtreesFrom (emptySubtree base) n).getD i emptyLeaf = emptySubtree (base + i) := by
  induction n generalizing base i with
  | zero => omega
  | succ n ih =>
    cases i with
    | zero => rfl
    | succ i =>
      have := ih (base + 1) (Nat.lt_of_succ_lt_succ h)
      simpa [emptySubtreesFrom, emptySubtree, Nat.add_assoc, Nat.add_comm 1 i] using this

/-- What is wrong with a tree, an index or a witness. -/
inductive MerkleError where
  /-- A witness has the wrong number of siblings for its tree. -/
  | heightMismatch (expected actual : Nat)
  /-- A tree has no levels, or more than 64. -/
  | invalidHeight (height : Nat)
  /-- There is no such leaf. -/
  | indexOutOfRange (index capacity : Nat)
  /-- Two leaves were asked for, and both are the same. -/
  | sameIndex (index : Nat)
deriving DecidableEq

/-- The wording of an error. -/
def MerkleError.message : MerkleError → String
  | .heightMismatch expected actual =>
      s!"witness built for height {actual}, expected {expected}"
  | .invalidHeight height => s!"unsupported tree height {height}"
  | .indexOutOfRange index capacity =>
      s!"leaf index {index} out of range for {capacity} leaves"
  | .sameIndex index => s!"double witness needs two distinct leaves, both at {index}"

end AmmRollup
