import AmmRollup.Proofs.Merkle.Sparse

/-!
# AmmRollup.Proofs.Merkle.Updates

Witnesses know the roots to come.  A tree starts unwritten and takes calls that write
leaves, of which those past the last leaf are refused (`Tree.writeAll`).  Whatever the
calls were, the witness of a leaf is accepted for the height of the tree, names its leaf,
and computes the present root from the present value and, from any other, the root that
writing it would give (`Witness.Foretells`).  A double witness does so for two leaves,
whichever of them is written first (`DoubleWitness.Foretells`).

* `foretold_of_writes` — every witness that a written tree hands out.
-/

namespace AmmRollup

variable {depth : Nat} {t : Tree depth}

/-! ## Runs of writes

Trees are reached from unwritten ones by calls that write leaves.  A call with an index past the
last leaf is refused and changes nothing, so a run of calls never fails.
-/

namespace Tree

theorem depthOfHeight_eq_ok {height : Nat} (hpos : 1 ≤ height) (hle : height ≤ 64) :
    depthOfHeight height = .ok (height - 1) := by
  rw [depthOfHeight, if_neg (by omega)]

/-- The tree after a call that writes a leaf; a call that is refused changes nothing. -/
def write (t : Tree depth) (index : Nat) (value : Bytes32) : Tree depth :=
  (t.setLeaf index value).toOption.getD t

/-- The tree after calls that write leaves, one after another. -/
def writeAll (t : Tree depth) (calls : List (Nat × Bytes32)) : Tree depth :=
  calls.foldl (fun t call => t.write call.1 call.2) t

/-- A call leaves a tree that was built by writing leaves. -/
theorem Built.write (h : t.Built) (index : Nat) (value : Bytes32) :
    (t.write index value).Built := by
  rw [Tree.write]
  cases hset : t.setLeaf index value with
  | error e => exact h
  | ok t' => exact h.setLeaf hset

/-- Any number of calls leave a tree that was built by writing leaves. -/
theorem Built.writeAll (h : t.Built) (calls : List (Nat × Bytes32)) : (t.writeAll calls).Built := by
  induction calls generalizing t with
  | nil => exact h
  | cons call calls ih => exact ih (h.write call.1 call.2)

end Tree

/-! ## Foretelling

Whoever has a witness of a leaf needs no tree: it computes the root that the tree has, and the
one that it will have once the leaf is written.  For two leaves the one is written after the
other, in either order.
-/

/-- A witness stands for a leaf of a tree: it has the height of the tree and the index of
the leaf, the value there folds to the root, and any other to the root once it is written. -/
structure Witness.Foretells (w : Witness) (t : Tree depth) (i : Nat) : Prop where
  height : w.height = t.height
  index : w.index.toNat = i
  present : w.root (t.leaf i) = t.root
  written : ∀ value, (do return (← t.setLeaf i value).root) = Except.ok (w.root value)

/-- A double witness stands for two leaves of a tree: it is accepted for the height, has
both indexes and the flags that they call for, the values there fold to the root, and any
other two to the root once both are written, in either order. -/
structure DoubleWitness.Foretells (w : DoubleWitness) (t : Tree depth) (a b : Nat) : Prop where
  fits : w.checkHeight t.height = .ok ()
  first : w.indexes.1.toNat = a
  second : w.indexes.2.toNat = b
  flags : w.meets = w.expectedFlags
  present : w.root (t.leaf a) (t.leaf b) = t.root
  written : ∀ va vb,
    (do return (← (← t.setLeaf a va).setLeaf b vb).root) = Except.ok (w.root va vb)
  written_swapped : ∀ va vb,
    (do return (← (← t.setLeaf b vb).setLeaf a va).root) = Except.ok (w.root va vb)

namespace Tree

variable {leaves : Nat → Bytes32} {a b : Nat}

/-- Writing a leaf gives the root over the leaves with that one rewritten. -/
theorem Over.root_setLeaf (h : t.Over leaves) (ha : a < 2 ^ depth) (value : Bytes32) :
    (do return (← t.setLeaf a value).root) =
      (Except.ok (nodeOver (Function.update leaves a value) depth 0) :
        Except MerkleError Bytes32) := by
  rw [setLeaf_eq_ok ha, ← (h.rehash ha value).root_eq]
  rfl

/-- Writing two leaves gives the root over the leaves with both rewritten. -/
theorem Over.root_setLeaf_setLeaf (h : t.Over leaves) (ha : a < 2 ^ depth) (hb : b < 2 ^ depth)
    (va vb : Bytes32) :
    (do return (← (← t.setLeaf a va).setLeaf b vb).root) =
      (Except.ok (nodeOver (Function.update (Function.update leaves a va) b vb) depth 0) :
        Except MerkleError Bytes32) := by
  rw [setLeaf_eq_ok ha]
  exact (h.rehash ha va).root_setLeaf hb vb

/-- The witness that a tree gives for a leaf foretells its roots. -/
theorem Over.foretells_witness (h : t.Over leaves) (hd : depth ≤ 64) (ha : a < 2 ^ depth) :
    (⟨t.path a⟩ : Witness).Foretells t a := by
  have hopens := h.opens_witness ha
  have hposition : pathPosition (t.path a) = a := h.pathPosition_path ha
  have hlength : (t.path a).length = depth := h.length_path ha
  have hroot (value : Bytes32) : (⟨t.path a⟩ : Witness).root value =
      nodeOver (Function.update leaves a value) depth 0 := by
    rw [hopens.root_eq, hposition]
  exact
    { height := congrArg (· + 1) hlength
      index := (Witness.toNat_index (hlength.trans_le hd)).trans hposition
      present := by rw [hroot, h.leaf_eq ha, Function.update_eq_self, h.root_eq]
      written value := by rw [hroot, h.root_setLeaf ha] }

/-- A double witness that opens a tree foretells its roots, when it has the flags that its
indexes call for. -/
theorem Over.foretells_of_opens (h : t.Over leaves) (hd : depth ≤ 64) {w : DoubleWitness}
    (hopens : w.Opens leaves depth) (hflags : w.meets = w.expectedFlags) :
    w.Foretells t w.indexes.1.toNat w.indexes.2.toNat := by
  have hfirst := hopens.fits.toNat_indexes_fst hd
  have hsecond := hopens.fits.toNat_indexes_snd hd
  have ha : pathPosition w.first < 2 ^ depth := by
    simpa [hopens.fits.first] using pathPosition_lt w.first
  have hb : pathPosition w.second < 2 ^ depth := by
    simpa [hopens.fits.second] using pathPosition_lt w.second
  rw [hfirst, hsecond]
  exact
    { fits := by
        simp [DoubleWitness.checkHeight, hopens.fits.first, hopens.fits.second, hopens.fits.meets,
          Tree.height]
      first := hfirst
      second := hsecond
      flags := hflags
      present := by
        rw [hopens.root_eq, h.leaf_eq ha, h.leaf_eq hb, Function.update_eq_self,
          Function.update_eq_self, h.root_eq]
      -- the leaves differ, so they may be written in either order
      written va vb := by
        rw [hopens.root_eq, Function.update_comm hopens.ne.symm, h.root_setLeaf_setLeaf ha hb]
      written_swapped va vb := by rw [hopens.root_eq, h.root_setLeaf_setLeaf hb ha] }

/-- The witness that a tree gives for two leaves foretells its roots. -/
theorem Over.foretells_doubleWitness (h : t.Over leaves) (hd : depth ≤ 64) (ha : a < 2 ^ depth)
    (hb : b < 2 ^ depth) (hne : a ≠ b) :
    (⟨t.path a, t.path b, mergeFlags (UInt64.ofNat a) (UInt64.ofNat b) depth⟩ :
      DoubleWitness).Foretells t a b := by
  have hopens := h.opens_doubleWitness hd ha hb hne
  have hposition : pathPosition (t.path a) = a := h.pathPosition_path ha
  have hposition' : pathPosition (t.path b) = b := h.pathPosition_path hb
  have hforetells := h.foretells_of_opens hd hopens (h.flags_doubleWitness ha hb)
  rwa [hopens.fits.toNat_indexes_fst hd, hopens.fits.toNat_indexes_snd hd, hposition,
    hposition'] at hforetells

/-! ## Main result -/

/-- **The witnesses of a tree foretell its roots.**  A tree of any supported height that was
written by any calls gives, for every leaf, a witness that foretells the roots of that leaf,
and for every two leaves that differ, a double witness that foretells the roots of both. -/
theorem foretold_of_writes {height : Nat} (hpos : 1 ≤ height) (hle : height ≤ 64) :
    ∃ depth, depthOfHeight height = .ok depth ∧ ∀ calls : List (Nat × Bytes32),
      let t := (empty depth).writeAll calls
      t.height = height ∧
      (∀ i < t.capacity, ∃ w, t.witness i = .ok w ∧ w.Foretells t i) ∧
      ∀ a < t.capacity, ∀ b < t.capacity, a ≠ b →
        ∃ w, t.doubleWitness a b = .ok w ∧ w.Foretells t a b := by
  refine ⟨height - 1, depthOfHeight_eq_ok hpos hle, fun calls => ?_⟩
  have hbuilt : ((empty (height - 1)).writeAll calls).Built := Built.empty.writeAll calls
  have hover := hbuilt.tree_over
  have hd : height - 1 ≤ 64 := by omega
  intro t
  simp only [capacity_eq]
  refine ⟨by rw [Tree.height, Nat.sub_add_cancel hpos], fun i hi => ?_, fun a ha b hb hne => ?_⟩
  · exact ⟨_, witness_eq_ok hi, hover.foretells_witness hd hi⟩
  · exact ⟨_, doubleWitness_eq_ok ha hb hne, hover.foretells_doubleWitness hd ha hb hne⟩

/-- The middle leaves of a tree of three levels, whose paths meet below the root only: one
was written twice, a leaf past the last was refused, and the other was never written. -/
theorem foretold_of_writes_three :
    1 ≤ 3 ∧ 3 ≤ 64 ∧
      let t := (empty 2).writeAll [(1, emptyRoot 2), (4, emptyRoot 2), (1, emptyRoot 3)]
      ∃ w, t.doubleWitness 1 2 = .ok w ∧ w.Foretells t 1 2 := by
  refine ⟨by decide, by decide, ?_⟩
  obtain ⟨depth, hdepth, hforetold⟩ := foretold_of_writes (show 1 ≤ 3 by decide) (by decide)
  obtain rfl : 2 = depth := Except.ok.inj hdepth
  obtain ⟨-, -, hdouble⟩ := hforetold [(1, emptyRoot 2), (4, emptyRoot 2), (1, emptyRoot 3)]
  exact hdouble 1 (by rw [capacity_eq]; decide) 2 (by rw [capacity_eq]; decide) (by decide)

end Tree

end AmmRollup
