import AmmRollup.Proofs.Merkle.Complete

/-!
# AmmRollup.Proofs.Merkle.Hashed

What trees with few leaves hash, as lists, so that it can be computed that nothing in them
collides.  A tree hashes what an unwritten one does, and what folding its leaves up hashes
(`nodePreimages_subset_of_agree`); and the siblings on the way are the roots of unwritten
subtrees, but for the first (`pathOver_of_front`).  What was computed is kept as fingerprints.
-/

namespace AmmRollup

open AmmRollup.Tree (beside)

variable {f g : Nat → Bytes32}

/-! ## Unwritten trees

To show that nothing collides in a concrete tree its strings must be listed.  All nodes of one
level of an unwritten tree are the same, so a list of one string for each level has all that it
hashes.
-/

theorem emptySubtree_mem {i n : Nat} (base : Nat) (h : i < n) :
    emptySubtree (base + i) ∈ emptySubtreesFrom (emptySubtree base) n := by
  induction n generalizing base i with
  | zero => omega
  | succ n ih =>
      cases i with
      | zero => exact List.mem_cons_self
      | succ i =>
          rw [show base + (i + 1) = base + 1 + i by omega]
          exact List.mem_cons_of_mem _ (ih (base + 1) (by omega))

/-- The strings that an unwritten tree of `n` levels above its leaves is hashed from. -/
def emptyStrings (n : Nat) : List Bytes :=
  (emptySubtreesFrom emptyLeaf n).map fun x => pairBytes x x

/-- An unwritten tree hashes the listed strings. -/
theorem mem_emptyStrings {depth n : Nat} (hd : depth ≤ n) {bytes : Bytes}
    (h : bytes ∈ nodePreimages (fun _ => emptyLeaf) depth) : bytes ∈ emptyStrings n := by
  obtain ⟨level, position, hl, rfl⟩ := h
  rw [nodeOver_emptyLeaf, nodeOver_emptyLeaf]
  have := emptySubtree_mem 0 (hl.trans_le hd)
  rw [Nat.zero_add] at this
  exact List.mem_map_of_mem this

/-- The digests of those strings are the roots of the unwritten subtrees above the leaves. -/
theorem map_emptyStrings (n : Nat) :
    emptyLeaf :: (emptyStrings n).map keccak256 = emptySubtreesFrom emptyLeaf (n + 1) := by
  have hfrom (node : Bytes32) :
      node :: ((emptySubtreesFrom node n).map fun x => pairBytes x x).map keccak256 =
        emptySubtreesFrom node (n + 1) := by
    induction n generalizing node with
    | zero => rfl
    | succ n ih => exact congrArg (node :: ·) (ih (hashPair node node))
  exact hfrom emptyLeaf

/-! ## Written leaves

A tree with one more leaf hashes what it did before and what folding that leaf up hashes.  The
strings along the way are listed together with the nodes that they become, so that the digests
are computed only once each.
-/

/-- Folding a leaf up through its own path hashes every node above it. -/
theorem node_mem_foldPreimages (levels level position k : Nat) (hk : k < levels) :
    pairBytes (nodeOver f (level + k) (2 * (position / 2 ^ (k + 1))))
        (nodeOver f (level + k) (2 * (position / 2 ^ (k + 1)) + 1)) ∈
      foldPreimages (nodeOver f level position) (pathOver f levels level position) := by
  induction levels generalizing level position k with
  | zero => omega
  | succ levels ih =>
      rw [pathOver, foldPreimages, fold_sibling]
      cases k with
      | zero =>
          left
          rcases Nat.mod_two_eq_zero_or_one position with h | h
          · have hp : 2 * (position / 2) = position := by omega
            simp [beside, h, hp]
          · have hp : 2 * (position / 2) = position - 1 := by omega
            have hs : position - 1 + 1 = position := by omega
            simp [beside, h, hp, hs]
      | succ k =>
          right
          have := ih (level + 1) (position / 2) k (by omega)
          rwa [Nat.div_div_eq_div_mul, ← Nat.pow_succ', Nat.add_right_comm] at this

/-- A tree that agrees with another but for a leaf and the one beside it hashes what the
other does, and what folding that leaf up hashes. -/
theorem nodePreimages_subset_of_agree {depth i : Nat} (h : ∀ j, j / 2 ≠ i / 2 → f j = g j) :
    nodePreimages f depth ⊆
      foldPreimages (f i) (pathOver f depth 0 i) ∪ nodePreimages g depth := by
  rintro bytes ⟨level, position, hl, rfl⟩
  -- either the node is on the way up from the leaf, or no leaf below it differs
  by_cases hi : i / 2 ^ (level + 1) = position
  · left
    have := node_mem_foldPreimages (f := f) depth 0 i level hl
    rwa [hi, Nat.zero_add] at this
  · right
    have hagree (child : Nat) (hchild : child / 2 = position) :
        nodeOver f level child = nodeOver g level child :=
      nodeOver_congr fun j hj => h j fun hji => hi <| by
        rw [Nat.pow_succ', ← Nat.div_div_eq_div_mul, ← hji, Nat.div_div_eq_div_mul,
          ← Nat.pow_succ', Nat.pow_succ, ← Nat.div_div_eq_div_mul, hj, hchild]
    exact ⟨level, position, hl, by rw [hagree _ (by omega), hagree _ (by omega)]⟩

/-- The strings that folding a value up hashes, in order. -/
def foldStrings (value : Bytes32) : List Sibling → List Bytes
  | [] => []
  | s :: siblings =>
      (if s.isLeft then pairBytes s.value value else pairBytes value s.value) ::
        foldStrings (s.fold value) siblings

theorem mem_foldStrings {value : Bytes32} {siblings : List Sibling} {bytes : Bytes}
    (h : bytes ∈ foldPreimages value siblings) : bytes ∈ foldStrings value siblings := by
  induction siblings generalizing value with
  | nil => contradiction
  | cons s siblings ih =>
      rcases h with rfl | h
      · exact List.mem_cons_self
      · exact List.mem_cons_of_mem _ (ih h)

/-- The nodes that folding a value up leads through. -/
def foldNodes (value : Bytes32) : List Sibling → List Bytes32
  | [] => []
  | s :: siblings => s.fold value :: foldNodes (s.fold value) siblings

theorem map_foldStrings (value : Bytes32) (siblings : List Sibling) :
    (foldStrings value siblings).map keccak256 = foldNodes value siblings := by
  induction siblings generalizing value with
  | nil => rfl
  | cons s siblings ih =>
      rw [foldStrings, List.map_cons, ih, foldNodes]
      congr 1
      unfold Sibling.fold Sibling.join
      split <;> rfl

/-! ## Paths

Where all written leaves are at the front, the siblings above the first two are roots of
unwritten subtrees, whatever the depth.
-/

/-- The siblings at the front of an unwritten tree, from a level on. -/
def emptyPath (level levels : Nat) : List Sibling :=
  (emptySubtreesFrom (emptySubtree level) levels).map fun x => ⟨x, false⟩

/-- Where nothing is written behind the first two leaves, their paths have the root of an
unwritten subtree beside them at every level but the first. -/
theorem pathOver_of_front (h : ∀ j, 1 < j → f j = emptyLeaf) (levels : Nat) {i : Nat} (hi : i ≤ 1) :
    pathOver f (levels + 1) 0 i = ⟨f (beside i), i % 2 = 1⟩ :: emptyPath 1 levels := by
  -- from the second level on everything beside the path is unwritten
  have habove (level n : Nat) (hl : 0 < level) : pathOver f n level 0 = emptyPath level n := by
    induction n generalizing level with
    | zero => rfl
    | succ n ih =>
        have hbeside : nodeOver f level (beside 0) = emptySubtree level := by
          rw [← nodeOver_emptyLeaf level (beside 0)]
          refine nodeOver_congr fun j hj => h j ?_
          have hpow : 2 ≤ 2 ^ level := Nat.le_self_pow hl.ne' 2
          have hle : 2 ^ level ≤ j := (Nat.one_le_div_iff (by omega)).mp (hj ▸ Nat.le_refl 1)
          omega
        rw [pathOver, hbeside, ih (level + 1) (by omega)]
        rfl
  rw [pathOver, show i / 2 = 0 by omega, habove 1 levels Nat.one_pos]
  rfl

/-! ## Fingerprints -/

/-- The lowest bits of a digest.  They tell apart the few digests that are compared, and are short
enough to be written down, so that a list of digests is computed once and on its own. -/
def fingerprint (x : Bytes32) : Nat := x.w0.toNat % 2 ^ 16

end AmmRollup
