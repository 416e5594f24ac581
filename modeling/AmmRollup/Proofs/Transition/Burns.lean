import AmmRollup.Proofs.Transition.Steps

/-!
# AmmRollup.Proofs.Transition.Burns

The burns tree alone, along a chain of accepted steps.  Only burns write it, each at one
leaf and without flags, so nothing needs to be known of the three other trees, nor of
the flags of the steps.

* `Chain.burns` — a chain that starts on the burns tree over some records ends on the tree
  over what its steps write, and the records have only grown.
-/

namespace AmmRollup

/-! ## Growth

Burned totals only grow.  This is what makes a total that was once settled a lower bound ever
after, whatever is settled after it.
-/

/-- Every record still stands, for the account and the token it stood for, with no less. -/
def Grows (records later : Nat → Option AccountRecord) : Prop :=
  ∀ i r, records i = some r → ∃ amount, r.amount ≤ amount ∧ later i = some { r with amount }

section

variable {records later : Nat → Option AccountRecord}

theorem Grows.refl (records : Nat → Option AccountRecord) : Grows records records :=
  fun _ r h => ⟨r.amount, UInt64.le_refl _, h⟩

theorem Grows.trans {last : Nat → Option AccountRecord} (h : Grows records later)
    (hlast : Grows later last) : Grows records last := by
  intro i r hr
  obtain ⟨amount, hle, hlater⟩ := h i r hr
  obtain ⟨amount', hle', hlast⟩ := hlast i _ hlater
  exact ⟨amount', UInt64.le_trans hle hle', hlast⟩

/-- Writing no less for an account and its token makes records grow. -/
theorem grows_update {i : Nat} {account : Address} {token : Token} {prior : Option Amount}
    {amount : Amount} (hprior : accountRecord? account token prior = records i)
    (hle : prior.getD 0 ≤ amount) :
    Grows records (Function.update records i (some ⟨account, token, amount⟩)) := by
  intro j r hr
  by_cases hj : j = i
  · subst hj
    rw [← hprior] at hr
    obtain ⟨before, rfl, rfl⟩ := Option.map_eq_some_iff.mp hr
    exact ⟨amount, hle, Function.update_self ..⟩
  · exact ⟨r.amount, UInt64.le_refl _, by rw [Function.update_of_ne hj, hr]⟩

end

/-! ## Steps

The records of burns that a list of steps leaves are computed from their claims, without the
trees.  What the steps hash of burns is listed with them, as the induction over a chain needs all
of it to be free of collisions.
-/

/-- The burn records that steps leave, from those they start with. -/
def burnsAfter (records : Nat → Option AccountRecord) (steps : List Step) :
    Nat → Option AccountRecord :=
  writeAt records (writesOf LeafValue.burn? (stepWrites steps))

theorem burnsAfter_append (records : Nat → Option AccountRecord) (steps more : List Step) :
    burnsAfter records (steps ++ more) = burnsAfter (burnsAfter records steps) more := by
  simp only [burnsAfter, stepWrites, writesOf, writeAt, List.flatMap_append, List.filterMap_append,
    List.foldl_append]

/-- What steps hash of burns: the trees that they run on and lead to, and their claims. -/
def burnPreimages (records : Nat → Option AccountRecord) (steps : List Step) : Set Bytes :=
  { bytes | ∃ n, bytes ∈ treePreimages (burnsAfter records (steps.take n)) (burnsHeight - 1) } ∪
    { bytes | ∃ step ∈ steps, bytes ∈ step.transition.burnOpening.preimages }

variable {records : Nat → Option AccountRecord} {roots start final : StateRoots} {step : Step}
  {steps : List Step} {hashed : Set Bytes}

/-- What later steps hash is hashed by all of them together. -/
theorem burnPreimages_append (records : Nat → Option AccountRecord) (steps more : List Step) :
    burnPreimages (burnsAfter records steps) more ⊆ burnPreimages records (steps ++ more) := by
  rintro bytes (⟨n, h⟩ | ⟨later, hmem, h⟩)
  · rw [← burnsAfter_append] at h
    exact .inl ⟨steps.length + n, by rwa [List.take_length_add_append]⟩
  · exact .inr ⟨later, List.mem_append_right _ hmem, h⟩

theorem burnPreimages_take (records : Nat → Option AccountRecord) (steps : List Step) (n : Nat) :
    burnPreimages records (steps.take n) ⊆ burnPreimages records steps := by
  rintro bytes (⟨m, h⟩ | ⟨step, hmem, h⟩)
  · rw [List.take_take] at h
    exact .inl ⟨_, h⟩
  · exact .inr ⟨step, List.mem_of_mem_take hmem, h⟩

/-- A step with a true claim of burns makes the records grow. -/
theorem Transition.burns_grow {t : Transition} {o : Outcome} (h : t.outcome roots = .ok o)
    (hholds : t.burnOpening.Holds records) :
    Grows records (writeAt records (writesOf LeafValue.burn? o.writes)) := by
  cases t with
  | burn a =>
      simp only [outcome, bind_eq_ok_iff, pure_eq_ok_iff] at h
      obtain ⟨balance, -, total, hcredit, rfl⟩ := h
      have hle : a.priorBurned.getD 0 ≤ total := by
        rw [UInt64.le_iff_toNat_le, credit_eq_ok_iff.mp hcredit]
        exact Nat.le_add_right _ _
      exact grows_update hholds hle
  | genesis =>
      simp only [outcome, pure_eq_ok_iff] at h
      subst h
      exact .refl records
  | _ =>
      -- no other method writes the burns tree
      simp only [outcome, bind_eq_ok_iff, pure_eq_ok_iff] at h
      obtain ⟨_, -, rfl⟩ := h
      exact .refl records

/-- What an accepted step leaves of the burns tree that it runs on. -/
theorem Step.burns (hc : CollisionFree hashed)
    (htree : treePreimages records (burnsHeight - 1) ⊆ hashed)
    (hclaims : step.transition.burnOpening.preimages ⊆ hashed)
    (hroot : roots.burns = nodeOver (leavesOf records) (burnsHeight - 1) 0)
    (h : step.transition.execute step.verifiers roots step.earlier = .ok step.outcome) :
    step.outcome.roots.burns =
        nodeOver (leavesOf (burnsAfter records [step])) (burnsHeight - 1) 0 ∧
      Grows records (burnsAfter records [step]) := by
  obtain ⟨-, hfits, -, ⟨hfolds, -⟩, houtcome⟩ := Transition.execute_eq_ok_iff.mp h
  have hflags : step.transition.burnOpening.Flagged := by cases step.transition <;> trivial
  obtain ⟨hholds, hopens⟩ := Opening.holds_of_root hc htree hclaims View.burns.depth_le
    hfits.burns hflags (hroot ▸ hfolds.burns)
  have hwrites : burnsAfter records [step] =
      writeAt records (writesOf LeafValue.burn? step.outcome.writes) := by
    rw [burnsAfter, stepWrites_cons, stepWrites, List.flatMap_nil, List.append_nil]
  rw [hwrites]
  exact ⟨(Transition.outcome_gives houtcome).burns.root_eq hroot View.burns.depth_le hfits.burns
    hopens, Transition.burns_grow houtcome hholds⟩

/-! ## Chains

A chain starts on the roots that the last step gave.  Its burns grow along it, and as it can be
cut anywhere they grow between any two moments.
-/

/-- A chain can be cut anywhere. -/
theorem Chain.split {before after : List Step} (h : Chain start (before ++ after) final) :
    ∃ mid, Chain start before mid ∧ Chain mid after final := by
  induction before generalizing start with
  | nil => exact ⟨start, .nil, h⟩
  | cons step before ih =>
      obtain _ | ⟨hhead, hrest⟩ := h
      obtain ⟨mid, hbefore, hafter⟩ := ih hrest
      exact ⟨mid, .cons hhead hbefore, hafter⟩

/-- **Burns.**  A chain that starts on the burns tree over some records ends on the tree over
the records that its steps leave, which have only grown. -/
theorem Chain.burns (h : Chain start steps final) (hc : CollisionFree hashed)
    (hhashed : burnPreimages records steps ⊆ hashed)
    (hroot : start.burns = nodeOver (leavesOf records) (burnsHeight - 1) 0) :
    final.burns = nodeOver (leavesOf (burnsAfter records steps)) (burnsHeight - 1) 0 ∧
      Grows records (burnsAfter records steps) := by
  induction h generalizing records with
  | nil => exact ⟨hroot, .refl records⟩
  | @cons start final step steps head rest ih =>
      have htree : treePreimages records (burnsHeight - 1) ⊆ hashed :=
        fun bytes hb => hhashed (.inl ⟨0, hb⟩)
      have hclaims : step.transition.burnOpening.preimages ⊆ hashed :=
        fun bytes hb => hhashed (.inr ⟨step, List.mem_cons_self, hb⟩)
      obtain ⟨hnext, hgrows⟩ := Step.burns hc htree hclaims hroot head
      obtain ⟨hfinal, hrest⟩ := ih ((burnPreimages_append records [step] steps).trans hhashed) hnext
      rw [← List.singleton_append, burnsAfter_append]
      exact ⟨hfinal, hgrows.trans hrest⟩

/-- Between two moments of a chain the records have only grown. -/
theorem Chain.burns_mono (h : Chain start steps final) (hc : CollisionFree hashed)
    (hhashed : burnPreimages records steps ⊆ hashed)
    (hroot : start.burns = nodeOver (leavesOf records) (burnsHeight - 1) 0) {n m : Nat}
    (hnm : n ≤ m) :
    Grows (burnsAfter records (steps.take n)) (burnsAfter records (steps.take m)) := by
  -- the steps up to the later moment are those up to the earlier one and some between
  have hm : steps.take m = steps.take n ++ (steps.take m).drop n := by
    have := List.take_append_drop n (steps.take m)
    rwa [List.take_take, Nat.min_eq_left hnm, eq_comm] at this
  rw [← List.take_append_drop m steps] at h
  obtain ⟨later, hlater, -⟩ := h.split
  rw [hm] at hlater ⊢
  obtain ⟨mid, hearlier, hbetween⟩ := hlater.split
  -- nothing is hashed in between that the whole chain does not hash
  have htake := (burnPreimages_take records steps m).trans hhashed
  rw [hm] at htake
  have hmid := (hearlier.burns hc ((burnPreimages_take records steps n).trans hhashed) hroot).1
  rw [burnsAfter_append]
  exact (hbetween.burns hc ((burnPreimages_append records _ _).trans htake) hmid).2

end AmmRollup
