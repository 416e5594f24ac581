import Mathlib.Algebra.Order.BigOperators.Group.Finset
import Mathlib.Algebra.BigOperators.Finprod

/-!
# AmmRollup.Proofs.Total

Sums over a map with finitely many entries, what rewriting one entry does to them, and by
how much the entries of one map exceed those of another.
-/

namespace AmmRollup

variable {κ ρ : Type} {value : ρ → Nat} {f g : κ → Option ρ}

/-- The sum of what the entries of a map are worth. -/
noncomputable def total (value : ρ → Nat) (f : κ → Option ρ) : Nat := ∑ᶠ k, (f k).elim 0 value

/-- A map has finitely many entries. -/
def FiniteMap (f : κ → Option ρ) : Prop := {k | f k ≠ none}.Finite

theorem FiniteMap.empty : FiniteMap fun _ : κ => (none : Option ρ) := by
  simp [FiniteMap]

@[simp] theorem total_empty : total value (fun _ : κ => none) = 0 := by
  simp [total]

theorem FiniteMap.support (hf : FiniteMap f) (value : ρ → Nat) :
    (Function.support fun k => (f k).elim 0 value).Finite :=
  hf.subset fun k hk hnone => hk (by simp [hnone])

/-! ## Exceeding another map

What the burned column exceeds the withdrawn one by is what the bridge still has to pay out.  It
is a sum of differences, which are truncated, so it adds up with the other sum only where no
entry falls short.
-/

/-- The sum of what the entries of a map are worth beyond those of another. -/
noncomputable def totalBeyond (value : ρ → Nat) (f g : κ → Option ρ) : Nat :=
  ∑ᶠ k, ((f k).elim 0 value - (g k).elim 0 value)

theorem FiniteMap.support_beyond (hf : FiniteMap f) (value : ρ → Nat) (g : κ → Option ρ) :
    (Function.support fun k => (f k).elim 0 value - (g k).elim 0 value).Finite :=
  hf.subset fun k hk hnone => hk (by simp [hnone])

/-- No entry is worth more than all of them. -/
theorem le_total (hf : FiniteMap f) (value : ρ → Nat) (k : κ) :
    (f k).elim 0 value ≤ total value f :=
  single_le_finsum k (hf.support value) fun _ => Nat.zero_le _

/-- No entry exceeds that of another map by more than all of them do. -/
theorem le_totalBeyond (hf : FiniteMap f) (value : ρ → Nat) (g : κ → Option ρ) (k : κ) :
    (f k).elim 0 value - (g k).elim 0 value ≤ totalBeyond value f g :=
  single_le_finsum k (hf.support_beyond value g) fun _ => Nat.zero_le _

/-- Where no entry is worth less than the other's, the sums differ by what they exceed it. -/
theorem totalBeyond_add_total (hf : FiniteMap f) (hg : FiniteMap g)
    (hle : ∀ k, (g k).elim 0 value ≤ (f k).elim 0 value) :
    totalBeyond value f g + total value g = total value f := by
  rw [totalBeyond, total, total,
    ← finsum_add_distrib (hf.support_beyond value g) (hg.support value)]
  exact finsum_congr fun k => Nat.sub_add_cancel (hle k)

/-! ## Rewriting an entry

A step rewrites one entry of a map at a time.  The sum changes by the entry before and after,
which is how conservation is proved without ever enumerating a map.
-/

variable [DecidableEq κ]

theorem FiniteMap.update (hf : FiniteMap f) (k : κ) (r : Option ρ) :
    FiniteMap (Function.update f k r) := by
  refine (hf.insert k).subset fun j hj => ?_
  by_cases hjk : j = k
  · exact .inl hjk
  · exact .inr fun h => hj (by rw [Function.update_of_ne hjk, h])

/-- Rewriting an entry changes the sum by what it was and is worth. -/
theorem total_update (value : ρ → Nat) (hf : FiniteMap f) (k : κ) (r : Option ρ) :
    total value (Function.update f k r) + (f k).elim 0 value =
      total value f + r.elim 0 value := by
  -- both sums split into the value at the place and those everywhere else, which are the same
  have hsum (g : κ → Option ρ) (hg : ∀ j ≠ k, g j = f j) :
      total value g = (g k).elim 0 value +
        ∑ j ∈ hf.toFinset.erase k, (f j).elim 0 value := by
    have hsupport : Function.support (fun j => (g j).elim 0 value) ⊆
        (insert k (hf.toFinset.erase k) : Finset κ) := by
      intro j hj
      by_cases hjk : j = k
      · simp [hjk]
      · have hne : j ∈ hf.toFinset := hf.mem_toFinset.mpr fun h => by simp [hg j hjk, h] at hj
        simp [hjk, hne]
    rw [total, finsum_eq_sum_of_support_subset _ hsupport,
      Finset.sum_insert (Finset.notMem_erase k _)]
    congr 1
    exact Finset.sum_congr rfl fun j hj => by rw [hg j (Finset.ne_of_mem_erase hj)]
  rw [hsum f fun _ _ => rfl, hsum _ fun j hj => Function.update_of_ne hj r f, Function.update_self]
  omega

end AmmRollup
