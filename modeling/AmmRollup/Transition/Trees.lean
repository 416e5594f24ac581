import AmmRollup.Merkle.Tree
import AmmRollup.Transition.Basic

/-!
# AmmRollup.Transition.Trees

The trees that roots stand for, without records or keys: what replaying the written
leaves of a step does to the roots.
-/

namespace AmmRollup

/-- The four state trees, and the tree of withdrawals beside them. -/
structure StateTrees where
  balances : Tree (balancesHeight - 1)
  liquidities : Tree (liquiditiesHeight - 1)
  pools : Tree (poolsHeight - 1)
  burns : Tree (burnsHeight - 1)
  withdrawals : Tree (withdrawalsHeight - 1)

namespace StateTrees

/-- Five unwritten trees. -/
def empty : StateTrees := ⟨.empty _, .empty _, .empty _, .empty _, .empty _⟩

/-- The roots of the four state trees. -/
def roots (s : StateTrees) : StateRoots where
  balances := s.balances.root
  liquidities := s.liquidities.root
  pools := s.pools.root
  burns := s.burns.root

/-- The witness of a leaf.  The deposit chain is no tree, so it has no levels. -/
def witness (s : StateTrees) (tree : StateTree) (index : Nat) : Except MerkleError Witness :=
  match tree with
  | .balances => s.balances.witness index
  | .liquidities => s.liquidities.witness index
  | .pools => s.pools.witness index
  | .burns => s.burns.witness index
  | .withdrawals => s.withdrawals.witness index
  | .deposits => .error (.invalidHeight 0)

/-- Writes a leaf, and gives the root above it as well. -/
def setLeaf (s : StateTrees) (tree : StateTree) (index : Nat) (value : Bytes32) :
    Except MerkleError (Bytes32 × StateTrees) := do
  match tree with
  | .balances =>
      let balances ← s.balances.setLeaf index value
      return (balances.root, { s with balances })
  | .liquidities =>
      let liquidities ← s.liquidities.setLeaf index value
      return (liquidities.root, { s with liquidities })
  | .pools =>
      let pools ← s.pools.setLeaf index value
      return (pools.root, { s with pools })
  | .burns =>
      let burns ← s.burns.setLeaf index value
      return (burns.root, { s with burns })
  | .withdrawals =>
      let withdrawals ← s.withdrawals.setLeaf index value
      return (withdrawals.root, { s with withdrawals })
  | .deposits => throw (.invalidHeight 0)

/-- Writes the leaves of a step, in order. -/
def replay (s : StateTrees) (writes : List LeafWrite) : Except MerkleError StateTrees :=
  writes.foldlM (fun s w => do
    let (_, s) ← s.setLeaf w.leaf.tree w.index.toNat w.leaf.leaf
    return s) s

end StateTrees

end AmmRollup
