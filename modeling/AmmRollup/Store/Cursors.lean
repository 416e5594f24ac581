import AmmRollup.Json.Form
import AmmRollup.Store.Basic

/-!
# AmmRollup.Store.Cursors

How far a store has come: the number of its proofs, the window of the merged proof and
the mark of settlement.  In JSON each of the four may be missing and is then zero.
-/

namespace AmmRollup

/-- The cursors of a store. -/
structure Cursors where
  proofCount : Nat
  window : Window
  settledUntil : Nat
deriving DecidableEq

namespace Cursors

/-- The cursors of a store that holds nothing. -/
def zero : Cursors := ⟨0, ⟨0, 0⟩, 0⟩

/-- The names of the four numbers. -/
def fieldNames : List String := ["proof_count", "merged_from", "merged_until", "settled_until"]

/-- A number that is zero when it is missing. -/
def count? : Option Json → Option Nat
  | none => some 0
  | some value => value.nat? (1 <<< 64)

/-- The four numbers of a form, where they are written; an array may lack the last ones. -/
def fields? : Json → Option (List (Option Json))
  | .array items =>
      if items.length ≤ fieldNames.length then
        some (items.map some ++ List.replicate (fieldNames.length - items.length) none)
      else none
  | value => value.fields? fieldNames

end Cursors

instance : JsonForm Cursors where
  toJson c :=
    .record [("proof_count", .number c.proofCount), ("merged_from", .number c.window.start),
      ("merged_until", .number c.window.stop), ("settled_until", .number c.settledUntil)]
  ofJson? j := do
    let [proofCount, mergedFrom, mergedUntil, settledUntil] ← Cursors.fields? j | none
    return ⟨← Cursors.count? proofCount,
      ⟨← Cursors.count? mergedFrom, ← Cursors.count? mergedUntil⟩, ← Cursors.count? settledUntil⟩

end AmmRollup
