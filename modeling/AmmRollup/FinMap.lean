/-!
# AmmRollup.FinMap

Finite maps over keys with decidable equality, as lists of entries.  A map is read
through `get?` only, and the two lemmas at the end say what each operation does to
that view.

This module depends only on the Lean 4 core library.
-/

namespace AmmRollup

/-- A finite map; of several entries for a key the first counts. -/
structure FinMap (κ ν : Type) where
  entries : List (κ × ν)

namespace FinMap

variable {κ ν : Type} [DecidableEq κ]

/-- The map without entries. -/
def empty : FinMap κ ν := ⟨[]⟩

instance : EmptyCollection (FinMap κ ν) := ⟨empty⟩

/-- The value at a key. -/
def get? (m : FinMap κ ν) (k : κ) : Option ν := m.entries.lookup k

/-- Whether a key has a value. -/
def contains (m : FinMap κ ν) (k : κ) : Bool := (m.get? k).isSome

/-- Removes a key. -/
def erase (m : FinMap κ ν) (k : κ) : FinMap κ ν := ⟨m.entries.filter fun e => e.1 ≠ k⟩

/-- Sets the value at a key. -/
def insert (m : FinMap κ ν) (k : κ) (v : ν) : FinMap κ ν := ⟨(k, v) :: (m.erase k).entries⟩

/-- The number of keys of a map built by `insert` and `erase`. -/
def size (m : FinMap κ ν) : Nat := m.entries.length

@[simp] theorem get?_empty (k : κ) : (∅ : FinMap κ ν).get? k = none := rfl

private theorem lookup_filter (es : List (κ × ν)) (k a : κ) :
    (es.filter fun e => e.1 ≠ k).lookup a = if a = k then none else es.lookup a := by
  induction es with
  | nil => simp
  | cons e es ih =>
    obtain ⟨b, v⟩ := e
    by_cases hb : b = k
    · rw [List.filter_cons_of_neg (by simpa using hb), ih, List.lookup_cons]
      by_cases ha : a = k
      · rw [if_pos ha, if_pos ha]
      · have : (a == b) = false := by simpa [hb] using ha
        rw [if_neg ha, if_neg ha, this]
    · rw [List.filter_cons_of_pos (by simpa using hb), List.lookup_cons, List.lookup_cons]
      by_cases hab : a = b
      · subst hab
        simp [hb]
      · have : (a == b) = false := by simpa using hab
        rw [this]
        exact ih

theorem get?_erase (m : FinMap κ ν) (k a : κ) :
    (m.erase k).get? a = if a = k then none else m.get? a :=
  lookup_filter m.entries k a

theorem get?_insert (m : FinMap κ ν) (k : κ) (v : ν) (a : κ) :
    (m.insert k v).get? a = if a = k then some v else m.get? a := by
  by_cases ha : a = k
  · simp [get?, insert, ha]
  · have hb : (a == k) = false := by simpa using ha
    have := get?_erase m k a
    simp only [get?, ha, if_false] at this
    simp [get?, insert, List.lookup_cons, hb, ha, this]

end FinMap

end AmmRollup
