import AmmRollup.FinMap
import AmmRollup.Merkle.Tree
import AmmRollup.Roots

/-!
# AmmRollup.Rollup.Table

One state tree together with the records behind its leaves and the keys that the
leaves belong to.  A key is bound to a leaf the first time it is asked for or
written, and stays bound to it: undoing a write restores the record and the leaf,
never the binding.
-/

namespace AmmRollup

/-- Why the state refuses a change. -/
inductive StateError where
  /-- The tree refuses an index. -/
  | witness (cause : MerkleError)
  /-- No leaf is free, or there is no such leaf. -/
  | full (tree : StateTree)
  /-- The key or the leaf is bound elsewhere. -/
  | slotConflict (tree : StateTree) (index : Nat)
  /-- Written leaves lead to other roots than were proven. -/
  | diverged (expected actual : StateRoots)
deriving DecidableEq

/-- The wording of an error. -/
def StateError.message : StateError → String
  | .witness cause => cause.message
  | .full tree => s!"{tree.name} tree has no free leaf"
  | .slotConflict tree index => s!"{tree.name} leaf {index} is assigned to another key"
  | .diverged expected actual =>
      s!"replayed roots {actual.short} differ from proven roots {expected.short}"

/-- A tree, its records, and the keys of its leaves. -/
structure Table (depth : Nat) (κ ρ : Type) where
  kind : StateTree
  tree : Tree depth
  /-- The leaf of each bound key. -/
  slots : FinMap κ Nat
  /-- The key of each bound leaf. -/
  keys : FinMap Nat κ
  /-- The record of each written leaf. -/
  records : FinMap Nat ρ
  /-- No leaf below is free. -/
  next : Nat

namespace Table

variable {depth : Nat} {κ ρ : Type} [DecidableEq κ] [Record ρ]

/-- The table of an unwritten tree. -/
def empty (kind : StateTree) (depth : Nat) : Table depth κ ρ where
  kind := kind
  tree := Tree.empty depth
  slots := ∅
  keys := ∅
  records := ∅
  next := 0

/-! ## Reading -/

/-- The root of the tree. -/
def root (t : Table depth κ ρ) : Bytes32 := t.tree.root

/-- The leaf that a key is bound to. -/
def find? (t : Table depth κ ρ) (key : κ) : Option Nat := t.slots.get? key

/-- The record of a key. -/
def get? (t : Table depth κ ρ) (key : κ) : Option ρ :=
  (t.find? key).bind t.records.get?

/-- The witness of a leaf. -/
def witness (t : Table depth κ ρ) (index : Nat) : Except StateError Witness :=
  (t.tree.witness index).mapError .witness

/-- The witness of two distinct leaves. -/
def doubleWitness (t : Table depth κ ρ) (a b : Nat) : Except StateError DoubleWitness :=
  (t.tree.doubleWitness a b).mapError .witness

/-! ## Binding -/

/-- The first leaf from `index` on that is not bound, looking at no more than `fuel` bound ones. -/
def firstFree (keys : FinMap Nat κ) : (fuel : Nat) → Nat → Nat
  | 0, index => index
  | fuel + 1, index => if keys.contains index then firstFree keys fuel (index + 1) else index

/-- Binds a key to a leaf. -/
def bind (t : Table depth κ ρ) (key : κ) (index : Nat) : Table depth κ ρ :=
  { t with slots := t.slots.insert key index, keys := t.keys.insert index key }

/-- The leaf of a key, binding it to the first free one on first use. -/
def index (t : Table depth κ ρ) (key : κ) : Except StateError Nat × Table depth κ ρ :=
  match t.find? key with
  | some index => (.ok index, t)
  | none =>
      let free := firstFree t.keys t.keys.size t.next
      if free < t.tree.capacity then
        (.ok free, { t.bind key free with next := free + 1 })
      else
        (.error (.full t.kind), { t with next := free })

/-- Binds a key to a given leaf, unless either is bound elsewhere. -/
def claim (t : Table depth κ ρ) (key : κ) (index : Nat) :
    Except StateError (Table depth κ ρ) :=
  match t.find? key with
  | some bound => if bound = index then .ok t else .error (.slotConflict t.kind index)
  | none =>
      if t.keys.contains index then .error (.slotConflict t.kind index)
      else if index < t.tree.capacity then .ok (t.bind key index)
      else .error (.full t.kind)

/-! ## Writing -/

/-- Writes a record at a leaf of its key, and gives the record that stood there. -/
def write (t : Table depth κ ρ) (key : κ) (index : Nat) (record : ρ) :
    Except StateError (Table depth κ ρ × Option ρ) := do
  let t ← t.claim key index
  let tree ← (t.tree.setLeaf index (Record.leaf record)).mapError .witness
  return ({ t with tree, records := t.records.insert index record }, t.records.get? index)

/-- Puts back what stood at a leaf that was written. -/
def restore (t : Table depth κ ρ) (index : Nat) (prior : Option ρ) : Table depth κ ρ :=
  { t with
    tree := t.tree.rehash depth 0 index (Record.leafOrEmpty prior)
    records :=
      match prior with
      | some record => t.records.insert index record
      | none => t.records.erase index }

end Table

end AmmRollup
