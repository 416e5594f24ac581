import AmmRollup.Merkle.Node

/-!
# AmmRollup.Merkle.Witness

Witnesses for one leaf and for two.  A witness lists siblings from the leaf to the
root.  Folding a leaf through them gives a candidate root, and the sides on which
the siblings stand spell the index of the leaf, lowest bit first.

A double witness carries two paths and a flag for every level.  At a flagged level
the first path takes the running node of the second in place of its own sibling,
so one fold gives the root after both leaves have changed.
-/

namespace AmmRollup

/-! ## One leaf -/

/-- A node beside a path.  It stands on the left when the path goes up from a right child. -/
structure Sibling where
  value : Bytes32
  isLeft : Bool
deriving DecidableEq

/-- The node above `node` and `other`, where `other` stands on the sibling's side. -/
def Sibling.join (s : Sibling) (node other : Bytes32) : Bytes32 :=
  if s.isLeft then hashPair other node else hashPair node other

/-- The node above a path and its sibling. -/
def Sibling.fold (s : Sibling) (node : Bytes32) : Bytes32 :=
  s.join node s.value

/-- The number whose binary digits, lowest first, are the sides of a path. -/
def pathPosition : List Sibling → Nat
  | [] => 0
  | s :: path => s.isLeft.toNat + 2 * pathPosition path

/-- The index that a path spells, as far as 64 bits hold it. -/
def pathIndex (path : List Sibling) : UInt64 :=
  UInt64.ofNat (pathPosition path)

/-- A path from one leaf to the root. -/
structure Witness where
  siblings : List Sibling
deriving DecidableEq

namespace Witness

/-- The number of levels of the tree that a witness fits. -/
def height (w : Witness) : Nat := w.siblings.length + 1

/-- Refuses a witness that does not fit a tree of `height` levels. -/
def checkHeight (w : Witness) (height : Nat) : Except MerkleError Unit :=
  if w.height = height then .ok () else .error (.heightMismatch height w.height)

/-- The root above `leaf`. -/
def root (w : Witness) (leaf : Bytes32) : Bytes32 :=
  w.siblings.foldl (fun node s => s.fold node) leaf

/-- The index of the leaf. -/
def index (w : Witness) : UInt64 := pathIndex w.siblings

end Witness

/-! ## Two leaves -/

/-- The level at which the paths of two leaves stand beside each other; none when they are one. -/
def mergeLevel (a b : UInt64) : Option Nat :=
  if a = b then none else some (a.toNat ^^^ b.toNat).log2

/-- A flag for each of `levels` levels, set where the two paths meet. -/
def mergeFlags (a b : UInt64) (levels : Nat) : List Bool :=
  (List.range levels).map fun level => mergeLevel a b = some level

/-- Paths from two leaves to the root, and the flags of their levels. -/
structure DoubleWitness where
  first : List Sibling
  second : List Sibling
  meets : List Bool
deriving DecidableEq

namespace DoubleWitness

/-- Refuses a double witness of which any part does not fit a tree of `height` levels. -/
def checkHeight (w : DoubleWitness) (height : Nat) : Except MerkleError Unit :=
  if w.first.length ≠ height - 1 then
    .error (.heightMismatch height (w.first.length + 1))
  else if w.second.length ≠ height - 1 then
    .error (.heightMismatch height (w.second.length + 1))
  else if w.meets.length ≠ height - 1 then
    .error (.heightMismatch height (w.meets.length + 1))
  else .ok ()

/-- Folds two nodes up together, as far as both paths and the flags go. -/
def foldTogether (a b : Bytes32) : List Sibling → List Sibling → List Bool → Bytes32
  | s :: ss, t :: ts, meet :: meets =>
      foldTogether (if meet then s.join a b else s.fold a) (t.fold b) ss ts meets
  | _, _, _ => a

/-- The root above both leaves. -/
def root (w : DoubleWitness) (a b : Bytes32) : Bytes32 :=
  foldTogether a b w.first w.second w.meets

/-- The indexes of both leaves. -/
def indexes (w : DoubleWitness) : UInt64 × UInt64 :=
  (pathIndex w.first, pathIndex w.second)

/-- The flags that the sides of the two paths call for. -/
def expectedFlags (w : DoubleWitness) : List Bool :=
  mergeFlags w.indexes.1 w.indexes.2 w.first.length

end DoubleWitness

end AmmRollup
