import AmmRollup.Proofs.Merkle.Canonical

/-!
# AmmRollup.Proofs.Merkle.Binding

A witness that computes the root of a tree binds the leaves that it was given.  All that is
assumed of the digest is that it does not collide on the pairs that the tree and the witness
hash (`Tree.preimages`, `Witness.preimages`); nothing is assumed of where the witness comes
from.

A double witness need not be consistent.  Its second path is folded into the root below the
level where the two meet only, and the sibling of the first path there is never read, so
these parts of it are free; what is folded fixes both leaves and every later update all the
same (`Tree.bound_of_root`).
-/

namespace AmmRollup

/-! ## Pairs

Trees hash pairs of digests only, 64 bytes each, which no record is as long as.  So where
witnesses of bare leaves are concerned it is enough to assume that Keccak is injective on the
pairs of the tree and of the witness.
-/

@[simp] theorem length_pairBytes (left right : Bytes32) : (pairBytes left right).length = 64 := by
  simp [pairBytes]

@[simp] theorem Bytes32.length_concat (xs : List Bytes32) :
    (Bytes32.concat xs).length = 32 * xs.length := by
  simp [Bytes32.concat, List.length_flatMap, Nat.mul_comm]

/-- No record is hashed from as few bytes as a pair of nodes. -/
theorem IsRecord.length_ne {bytes : Bytes} (h : IsRecord bytes) : bytes.length ≠ 64 := by
  cases h <;> simp [Record.preimage, Record.fields, Address.fields]

/-- On pairs alone, that digests do not collide is all there is to assume. -/
theorem CollisionFree.of_pairs {hashed : Set Bytes}
    (hpairs : ∀ bytes ∈ hashed, ∃ left right, bytes = pairBytes left right)
    (h : Set.InjOn keccak256 hashed) : CollisionFree hashed := by
  refine ⟨h, fun bytes hb hrecord => ?_⟩
  obtain ⟨left, right, rfl⟩ := hpairs bytes hb
  exact absurd (length_pairBytes left right) hrecord.length_ne

theorem exists_pair_of_mem_foldPreimages {value : Bytes32} {siblings : List Sibling} {bytes : Bytes}
    (h : bytes ∈ foldPreimages value siblings) : ∃ left right, bytes = pairBytes left right := by
  induction siblings generalizing value with
  | nil => contradiction
  | cons s siblings ih =>
      rcases h with rfl | h
      · split <;> exact ⟨_, _, rfl⟩
      · exact ih h

namespace Tree

variable {depth : Nat} {t : Tree depth}

/-- The pairs of nodes that the nodes of a tree above its leaves are hashed from. -/
def preimages (t : Tree depth) : Set Bytes :=
  { bytes | ∃ level position, level < depth ∧ position < 2 ^ (depth - (level + 1)) ∧
      bytes = pairBytes (t.node level (2 * position)) (t.node level (2 * position + 1)) }

theorem collisionFree_of_injOn {pairs : Set Bytes}
    (hpairs : ∀ bytes ∈ pairs, ∃ left right, bytes = pairBytes left right)
    (h : Set.InjOn keccak256 (t.preimages ∪ pairs)) : CollisionFree (t.preimages ∪ pairs) := by
  refine .of_pairs (fun bytes hb => ?_) h
  obtain ⟨level, position, -, -, rfl⟩ | hb := hb
  · exact ⟨_, _, rfl⟩
  · exact hpairs bytes hb

/-! ## Nodes past the tree

A made-up witness may have an index past the last leaf, and its path is compared with the
complete tree there as well.  Over leaves that repeat without end, the nodes past the tree are
nodes of the tree, so nothing more is hashed for the comparison.
-/

/-- Children of a node that is taken modulo the width of its level. -/
theorem children_mod {level : Nat} (hl : level < depth) (position : Nat) :
    2 * position % 2 ^ (depth - level) = 2 * (position % 2 ^ (depth - (level + 1))) ∧
      (2 * position + 1) % 2 ^ (depth - level) =
        2 * (position % 2 ^ (depth - (level + 1))) + 1 := by
  rw [show depth - level = depth - (level + 1) + 1 by omega, Nat.pow_succ']
  constructor
  · exact Nat.mul_mod_mul_left 2 position _
  · rw [Nat.mod_mul, show (2 * position + 1) / 2 = position by omega]
    omega

/-- Over leaves that repeat, nodes repeat. -/
theorem nodeOver_mod (leaves : Nat → Bytes32) {level : Nat} (hl : level ≤ depth) (position : Nat) :
    nodeOver (fun i => leaves (i % 2 ^ depth)) level position =
      nodeOver (fun i => leaves (i % 2 ^ depth)) level (position % 2 ^ (depth - level)) := by
  induction level generalizing position with
  | zero => simp [nodeOver]
  | succ level ih =>
      obtain ⟨hleft, hright⟩ := children_mod hl position
      rw [nodeOver, ih (by omega), ih (by omega) (2 * position + 1), hleft, hright, nodeOver]

/-- A tree is over its own leaves, repeated without end. -/
theorem Over.repeated (h : t.Over t.leaf) : t.Over fun i => t.leaf (i % 2 ^ depth) :=
  h.congr fun i hi => by rw [Nat.mod_eq_of_lt hi]

/-- Over these, the complete tree is hashed from the pairs of the tree alone, also past its
last leaf. -/
theorem Over.nodePreimages_repeated (h : t.Over t.leaf) :
    nodePreimages (fun i => t.leaf (i % 2 ^ depth)) depth ⊆ t.preimages := by
  rintro bytes ⟨level, position, hl, rfl⟩
  obtain ⟨hleft, hright⟩ := children_mod hl position
  have hlt := Nat.mod_lt position (Nat.two_pow_pos (depth - (level + 1)))
  have hwidth : 2 ^ (depth - level) = 2 * 2 ^ (depth - (level + 1)) := by
    rw [show depth - level = depth - (level + 1) + 1 by omega, Nat.pow_succ']
  refine ⟨level, position % 2 ^ (depth - (level + 1)), hl, hlt, ?_⟩
  rw [nodeOver_mod t.leaf hl.le (2 * position), nodeOver_mod t.leaf hl.le (2 * position + 1),
    hleft, hright, ← h.repeated level _ hl.le (by omega), ← h.repeated level _ hl.le (by omega)]

/-! ## Binding

The results on complete trees, brought to trees that were built by writing leaves and to the
hypotheses that a caller can state: a height that is supported, and injectivity on what the tree
and the one witness hash.
-/

/-- A witness that computes the root of a tree is the tree's own, for the leaf that it was
given. -/
theorem Built.bound_witness (h : t.Built) (hd : depth ≤ 64) {w : Witness} {value : Bytes32}
    (hheight : w.height = t.height) (hc : Set.InjOn keccak256 (t.preimages ∪ w.preimages value))
    (hroot : w.root value = t.root) :
    value = t.leaf w.index.toNat ∧ w.siblings = t.path w.index.toNat ∧
      w.Foretells t w.index.toNat := by
  have hlength : w.siblings.length = depth := by simpa [Witness.height, height] using hheight
  have hlt : pathPosition w.siblings < 2 ^ depth := hlength ▸ pathPosition_lt w.siblings
  have hover := h.tree_over
  obtain ⟨hvalue, hopens⟩ := Witness.opens_of_root
    (collisionFree_of_injOn (fun _ => exists_pair_of_mem_foldPreimages) hc)
    (hover.nodePreimages_repeated.trans Set.subset_union_left) hlength Set.subset_union_right
    (hroot.trans hover.repeated.root_eq)
  have hpath : w.siblings = t.path (pathPosition w.siblings) :=
    hopens.trans (hover.repeated.path_eq hlt).symm
  have hforetells := hover.foretells_witness hd hlt
  rw [Nat.mod_eq_of_lt hlt] at hvalue
  rw [← hpath] at hforetells
  rw [Witness.toNat_index (hlength.trans_le hd)]
  exact ⟨hvalue, hpath, hforetells⟩

/-- A double witness that computes the root of a tree knows the roots to come, if its flags are
those of its indexes, and was given the two leaves there. -/
theorem Built.bound_doubleWitness (h : t.Built) (hd : depth ≤ 64) {w : DoubleWitness}
    {a b : Bytes32} (hheight : w.checkHeight t.height = .ok ())
    (hne : w.indexes.1 ≠ w.indexes.2) (hflags : w.meets = w.expectedFlags)
    (hc : Set.InjOn keccak256 (t.preimages ∪ w.preimages a b)) (hroot : w.root a b = t.root) :
    a = t.leaf w.indexes.1.toNat ∧ b = t.leaf w.indexes.2.toNat ∧
      w.Foretells t w.indexes.1.toNat w.indexes.2.toNat := by
  have hfits : w.Fits depth := DoubleWitness.checkHeight_eq_ok_iff.mp hheight
  have hover := h.tree_over
  have hpairs : ∀ bytes ∈ w.preimages a b, ∃ left right, bytes = pairBytes left right := by
    rintro bytes (hb | hb)
    · exact exists_pair_of_mem_foldPreimages hb
    · exact exists_pair_of_mem_foldPreimages hb
  obtain ⟨ha, hb, hopens⟩ := DoubleWitness.opens_of_root (collisionFree_of_injOn hpairs hc)
    (hover.nodePreimages_repeated.trans Set.subset_union_left) hfits hd hflags hne
    Set.subset_union_right (hroot.trans hover.repeated.root_eq)
  have hfirst : pathPosition w.first < 2 ^ depth := hfits.first ▸ pathPosition_lt w.first
  have hsecond : pathPosition w.second < 2 ^ depth := hfits.second ▸ pathPosition_lt w.second
  refine ⟨?_, ?_, hover.repeated.foretells_of_opens hd hopens hflags⟩
  · rw [ha, hfits.toNat_indexes_fst hd, Nat.mod_eq_of_lt hfirst]
  · rw [hb, hfits.toNat_indexes_snd hd, Nat.mod_eq_of_lt hsecond]

/-- **Witnesses bind leaves.**  Take a tree of any supported height that was written by any
calls, and any witness of that height, made up or not, such that digests do not collide on the
pairs that the tree and the witness hash.  If it computes the root of the tree from a value,
then it is the tree's own witness of a leaf, and the value is that leaf.  A double witness for
two leaves, with the flags that they call for, binds both.  Either foretells every later root. -/
theorem bound_of_root {height : Nat} (hpos : 1 ≤ height) (hle : height ≤ 64) :
    ∃ depth, depthOfHeight height = .ok depth ∧ ∀ calls : List (Nat × Bytes32),
      let t := (empty depth).writeAll calls
      (∀ (w : Witness) (value : Bytes32), w.height = height →
        Set.InjOn keccak256 (t.preimages ∪ w.preimages value) → w.root value = t.root →
          value = t.leaf w.index.toNat ∧ w.siblings = t.path w.index.toNat ∧
            w.Foretells t w.index.toNat) ∧
      ∀ (w : DoubleWitness) (a b : Bytes32), w.checkHeight height = .ok () →
        w.indexes.1 ≠ w.indexes.2 → w.meets = w.expectedFlags →
        Set.InjOn keccak256 (t.preimages ∪ w.preimages a b) → w.root a b = t.root →
          a = t.leaf w.indexes.1.toNat ∧ b = t.leaf w.indexes.2.toNat ∧
            w.Foretells t w.indexes.1.toNat w.indexes.2.toNat := by
  refine ⟨height - 1, depthOfHeight_eq_ok hpos hle, fun calls => ?_⟩
  have hbuilt : ((empty (height - 1)).writeAll calls).Built := Built.empty.writeAll calls
  have hd : height - 1 ≤ 64 := by omega
  intro t
  have hheight : t.height = height := Nat.sub_add_cancel hpos
  constructor
  · intro w value hw hc hroot
    exact hbuilt.bound_witness hd (hw.trans hheight.symm) hc hroot
  · intro w a b hw hne hflags hc hroot
    exact hbuilt.bound_doubleWitness hd (by rwa [hheight]) hne hflags hc hroot

/-! ### A witness that is partly made up

A double witness has siblings that are never read: where the two paths meet, the sibling of the
first is replaced, and above that level the second path counts for nothing.  A witness that fills
these with anything is still bound to the leaves.
-/

/-- A tree of three levels with its first two leaves written. -/
def frontTree : Tree 2 := (empty 2).writeAll [(0, .ofWord 1), (1, .ofWord 2)]

/-- The witness of its first leaf. -/
def frontWitness : Witness := ⟨[⟨.ofWord 2, false⟩, ⟨emptySubtree 1, false⟩]⟩

/-- A witness of both leaves.  The paths meet at once, so neither the first sibling of the
first path nor anything of the second is read, and all of these are made up. -/
def looseWitness : DoubleWitness where
  first := [⟨.ofWord 3, false⟩, ⟨emptySubtree 1, false⟩]
  second := [⟨.ofWord 4, true⟩, ⟨.ofWord 5, false⟩]
  meets := [true, false]

/-- The pairs that are hashed for the tree and for the two witnesses. -/
def frontPairs : List Bytes :=
  [pairBytes (.ofWord 1) (.ofWord 2), pairBytes emptyLeaf emptyLeaf,
    pairBytes (hashPair (.ofWord 1) (.ofWord 2)) (emptySubtree 1),
    pairBytes (.ofWord 4) (.ofWord 2),
    pairBytes (hashPair (.ofWord 4) (.ofWord 2)) (.ofWord 5)]

/-- Their digests, computed, are all different. -/
theorem nodup_frontPairs : (frontPairs.map keccak256).Nodup := by
  decide +kernel

theorem over_frontTree : frontTree.Over fun i =>
    if i = 0 then .ofWord 1 else if i = 1 then .ofWord 2 else emptyLeaf := by
  refine (Built.empty.writeAll _).tree_over.congr fun i hi => ?_
  rw [leaf_writeAll _ hi]
  match i with
  | 0 => rfl
  | 1 => rfl
  | 2 => rfl
  | 3 => rfl

theorem preimages_frontTree {bytes : Bytes} (h : bytes ∈ frontTree.preimages) :
    bytes ∈ frontPairs := by
  obtain ⟨level, position, hl, hp, rfl⟩ := h
  obtain ⟨hleft, hright⟩ : 2 * position < 2 ^ (2 - level) ∧ 2 * position + 1 < 2 ^ (2 - level) := by
    rw [show 2 - level = 2 - (level + 1) + 1 by omega, Nat.pow_succ]
    omega
  rw [over_frontTree level _ hl.le hleft, over_frontTree level _ hl.le hright]
  match level, position with
  | 0, 0 => simp [frontPairs, nodeOver]
  | 0, 1 => simp [frontPairs, nodeOver]
  | 1, 0 => simp [frontPairs, nodeOver, emptySubtree]

/-- The root of the tree is computed from the first leaf by its witness. -/
theorem root_frontWitness : frontWitness.root (.ofWord 1) = frontTree.root := by
  rw [over_frontTree.root_eq]
  rfl

/-- The root of the tree is computed from both leaves by the loose witness. -/
theorem root_looseWitness : looseWitness.root (.ofWord 1) (.ofWord 2) = frontTree.root := by
  rw [over_frontTree.root_eq]
  rfl

theorem injOn_front {pairs : Set Bytes} (h : ∀ bytes ∈ pairs, bytes ∈ frontPairs) :
    Set.InjOn keccak256 (frontTree.preimages ∪ pairs) := by
  have hmem : ∀ bytes ∈ frontTree.preimages ∪ pairs, bytes ∈ frontPairs := by
    rintro bytes (hb | hb)
    · exact preimages_frontTree hb
    · exact h bytes hb
  exact fun x hx y hy => List.inj_on_of_nodup_map nodup_frontPairs (hmem x hx) (hmem y hy)

/-- The witness and the loose one foretell the roots of the tree, the latter in spite of what is
made up in it. -/
theorem bound_of_root_front :
    1 ≤ 3 ∧ 3 ≤ 64 ∧ frontWitness.height = 3 ∧
      Set.InjOn keccak256 (frontTree.preimages ∪ frontWitness.preimages (.ofWord 1)) ∧
      frontWitness.root (.ofWord 1) = frontTree.root ∧ frontWitness.Foretells frontTree 0 ∧
      looseWitness.checkHeight 3 = .ok () ∧ looseWitness.indexes.1 ≠ looseWitness.indexes.2 ∧
      looseWitness.meets = looseWitness.expectedFlags ∧
      Set.InjOn keccak256
        (frontTree.preimages ∪ looseWitness.preimages (.ofWord 1) (.ofWord 2)) ∧
      looseWitness.root (.ofWord 1) (.ofWord 2) = frontTree.root ∧
      looseWitness.Foretells frontTree 0 1 := by
  obtain ⟨depth, hdepth, hbound⟩ := bound_of_root (show 1 ≤ 3 by decide) (show 3 ≤ 64 by decide)
  obtain rfl : 2 = depth := Except.ok.inj hdepth
  obtain ⟨hsingle, hdouble⟩ := hbound [(0, .ofWord 1), (1, .ofWord 2)]
  -- both witnesses hash among the strings whose digests were computed
  have hfront : Set.InjOn keccak256
      (frontTree.preimages ∪ frontWitness.preimages (.ofWord 1)) := injOn_front <| by
    rintro bytes (rfl | rfl | h)
    · simp [frontPairs]
    · simp [frontPairs, Sibling.fold, Sibling.join]
    · contradiction
  have hloose : Set.InjOn keccak256
      (frontTree.preimages ∪ looseWitness.preimages (.ofWord 1) (.ofWord 2)) := injOn_front <| by
    rintro bytes ((rfl | rfl | h) | (rfl | rfl | h))
    · simp [frontPairs]
    · simp [frontPairs, Sibling.fold, Sibling.join]
    · contradiction
    · simp [frontPairs]
    · simp [frontPairs, Sibling.fold, Sibling.join]
    · contradiction
  have hheight : frontWitness.height = 3 := rfl
  have hfits : looseWitness.checkHeight 3 = .ok () := rfl
  have hne : looseWitness.indexes.1 ≠ looseWitness.indexes.2 := by decide
  have hflags : looseWitness.meets = looseWitness.expectedFlags := by decide
  exact ⟨by decide, by decide, hheight, hfront, root_frontWitness,
    (hsingle frontWitness _ hheight hfront root_frontWitness).2.2, hfits, hne, hflags, hloose,
    root_looseWitness,
    (hdouble looseWitness _ _ hfits hne hflags hloose root_looseWitness).2.2⟩

end Tree

end AmmRollup
