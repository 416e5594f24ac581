import AmmRollup.Merkle.Tree
import AmmRollup.Proofs.Merkle.Double

/-!
# AmmRollup.Proofs.Merkle.Sparse

The sparse tree stores the complete one.  `Tree.Over t leaves` says that every node of
`t` is the node over `leaves`; the unwritten tree has it, a write keeps it for the
leaves with one rewritten (`Tree.Over.rehash`), and it gives the root and the
siblings of every leaf.  So the witnesses that a tree hands out open it, and what is
known of the complete tree is known of the sparse one.
-/

namespace AmmRollup

namespace Tree

variable {depth : Nat} {t : Tree depth} {leaves : Nat → Bytes32}

@[simp] theorem capacity_eq (t : Tree depth) : t.capacity = 2 ^ depth := by
  rw [capacity, Nat.one_shiftLeft]

/-! ## Stored nodes

A tree stores its nodes under numbers, level by level, and leaves out those that are roots of
unwritten subtrees.  Reading a node gives what was stored under its number, or else the unwritten
one for its level.  As the numbers are different, storing a node is an update of that one alone.
-/

/-- Numbers tell the nodes of a tree apart. -/
theorem number_injective {level position level' position' : Nat}
    (hl : level ≤ depth) (hp : position < 2 ^ (depth - level))
    (hl' : level' ≤ depth) (hp' : position' < 2 ^ (depth - level'))
    (h : number depth level position = number depth level' position') :
    level = level' ∧ position = position' := by
  have hlog {l p : Nat} (hp : p < 2 ^ (depth - l)) : (number depth l p).log2 = depth - l := by
    have hpos := Nat.two_pow_pos (depth - l)
    rw [number, Nat.one_shiftLeft, Nat.log2_eq_iff (by omega), Nat.pow_succ]
    omega
  have hdepth : depth - level = depth - level' := by rw [← hlog hp, h, hlog hp']
  have hlevel : level = level' := by omega
  refine ⟨hlevel, ?_⟩
  rw [number, number, hdepth] at h
  omega

/-- Storing a node changes that node alone. -/
theorem node_put {level position level' position' : Nat} {value : Bytes32}
    (hl : level ≤ depth) (hp : position < 2 ^ (depth - level))
    (hl' : level' ≤ depth) (hp' : position' < 2 ^ (depth - level')) :
    (t.put level position value).node level' position' =
      if level' = level ∧ position' = position then value else t.node level' position' := by
  have hempty : (t.put level position value).emptyAt level' = t.emptyAt level' := rfl
  rw [node, hempty]
  by_cases hsame : level' = level ∧ position' = position
  · obtain ⟨rfl, rfl⟩ := hsame
    rw [if_pos ⟨rfl, rfl⟩, put]
    split
    · next hv => simp [hv]
    · simp
  · have hne : number depth level position ≠ number depth level' position' := fun h =>
      hsame (number_injective hl' hp' hl hp h.symm)
    rw [if_neg hsame, node, put]
    split
    · simp [Std.ExtTreeMap.getElem?_erase, hne]
    · simp [Std.ExtTreeMap.getElem?_insert, hne]

/-! ## Trees over leaves

`Tree.Over` ties what is stored to the complete tree: every node that can be read is the node of
the complete tree over some leaves.  It holds of an unwritten tree, and everything else about a
sparse tree is derived from it.
-/

/-- Every node of a tree is the node of the complete tree over some leaves. -/
def Over (t : Tree depth) (leaves : Nat → Bytes32) : Prop :=
  ∀ level position, level ≤ depth → position < 2 ^ (depth - level) →
    t.node level position = nodeOver leaves level position

theorem over_empty (depth : Nat) : (empty depth).Over fun _ => emptyLeaf := by
  intro level position hl _
  rw [node, emptyAt_eq _ hl, nodeOver_emptyLeaf]
  simp [empty]

/-- Only the leaves of the tree matter. -/
theorem Over.congr {leaves' : Nat → Bytes32} (h : t.Over leaves)
    (heq : ∀ i < 2 ^ depth, leaves i = leaves' i) : t.Over leaves' := by
  intro level position hl hp
  rw [h level position hl hp]
  refine nodeOver_congr fun i hi => heq i ?_
  have : i / 2 ^ level < 2 ^ (depth - level) := hi ▸ hp
  rwa [Nat.div_lt_iff_lt_mul (Nat.two_pow_pos level), ← Nat.pow_add, Nat.sub_add_cancel hl] at this

theorem Over.root_eq (h : t.Over leaves) : t.root = nodeOver leaves depth 0 :=
  h depth 0 (Nat.le_refl depth) (Nat.two_pow_pos _)

theorem Over.leaf_eq (h : t.Over leaves) {i : Nat} (hi : i < 2 ^ depth) : t.leaf i = leaves i :=
  h 0 i (Nat.zero_le depth) hi

/-- The leaves below the top of the tree are its own. -/
theorem Over.leaf (h : t.Over leaves) : t.Over t.leaf :=
  h.congr fun _ hi => (h.leaf_eq hi).symm

/-! ### Writing

Writing a leaf rehashes the way up from it.  In between the tree is over neither the old leaves
nor the new ones, which `over_rehash_of_partial` makes precise: up to the current level the nodes
are those over the new leaves, and from there on those over the old.
-/

/-- A path that is rehashed leaves the tree over the leaves with the one at its foot
rewritten: below the current level the nodes are up to date, from there on they are as
before the write. -/
theorem over_rehash_of_partial {leaves' : Nat → Bytes32} {i : Nat} (levels level : Nat)
    (hd : level + levels = depth) (hi : i < 2 ^ depth)
    (heq : ∀ j, j ≠ i → leaves j = leaves' j)
    (hbelow : ∀ l p, l < level → p < 2 ^ (depth - l) → t.node l p = nodeOver leaves' l p)
    (habove : ∀ l p, level ≤ l → l ≤ depth → p < 2 ^ (depth - l) →
      t.node l p = nodeOver leaves l p) :
    (t.rehash levels level (i / 2 ^ level) (nodeOver leaves' level (i / 2 ^ level))).Over
      leaves' := by
  -- below the level the nodes are those over the new leaves, from it on those over the old ones
  induction levels generalizing t level with
  | zero =>
      obtain rfl : level = depth := hd
      rw [rehash]
      intro l p hl hp
      have htop : i / 2 ^ level < 2 ^ (level - level) := by
        rw [Nat.sub_self, Nat.div_lt_iff_lt_mul (Nat.two_pow_pos level)]
        simpa using hi
      rw [node_put (Nat.le_refl level) htop hl hp]
      split
      · next h => rw [h.1, h.2]
      · next h =>
          refine hbelow l p (Nat.lt_of_le_of_ne hl fun he => h ⟨he, ?_⟩) hp
          subst he
          rw [Nat.sub_self, Nat.pow_zero, Nat.lt_one_iff] at hp htop
          rw [hp, htop]
  | succ levels ih =>
      have hlevel : level < depth := by omega
      have hp : i / 2 ^ level < 2 ^ (depth - level) := by
        rwa [Nat.div_lt_iff_lt_mul (Nat.two_pow_pos level), ← Nat.pow_add,
          Nat.sub_add_cancel hlevel.le]
      have hoff {l p : Nat} (h : i / 2 ^ l ≠ p) : nodeOver leaves l p = nodeOver leaves' l p :=
        nodeOver_congr fun j hj => heq j fun hji => h (hji ▸ hj)
      have hbeside : beside (i / 2 ^ level) < 2 ^ (depth - level) := by
        have hhalf := beside_div_two (i / 2 ^ level)
        rw [show depth - level = depth - (level + 1) + 1 by omega, Nat.pow_succ] at hp ⊢
        omega
      -- the sibling has no leaf that differs, so it may be read from the tree as it is
      have hsibling : t.node level (beside (i / 2 ^ level)) =
          nodeOver leaves' level (beside (i / 2 ^ level)) := by
        rw [habove level _ (Nat.le_refl level) hlevel.le hbeside,
          hoff (beside_ne (i / 2 ^ level)).symm]
      simp only [rehash]
      rw [hsibling, fold_sibling, Nat.div_div_eq_div_mul, ← Nat.pow_succ]
      apply ih (level + 1) (by omega)
      · intro l p hl hlp
        rw [node_put hlevel.le hp (by omega) hlp]
        split
        · next h => rw [h.1, h.2]
        · next h =>
            rcases Nat.lt_or_ge l level with hlt | hge
            · exact hbelow l p hlt hlp
            · obtain rfl : l = level := by omega
              rw [habove l p hge hlevel.le hlp, hoff fun he => h ⟨rfl, he.symm⟩]
      · intro l p hge hl hlp
        rw [node_put hlevel.le hp hl hlp, if_neg (by omega)]
        exact habove l p (by omega) hl hlp

/-- Rehashing the way from a leaf rewrites that leaf. -/
theorem Over.rehash (h : t.Over leaves) {i : Nat} (hi : i < 2 ^ depth) (value : Bytes32) :
    (t.rehash depth 0 i value).Over (Function.update leaves i value) := by
  have heq (j : Nat) (hj : j ≠ i) : leaves j = Function.update leaves i value j :=
    (Function.update_of_ne hj value leaves).symm
  have := over_rehash_of_partial (t := t) depth 0 (Nat.zero_add depth) hi heq
    (fun l p hl => by omega) (fun l p _ => h l p)
  simpa [nodeOver] using this

/-- Setting a leaf of the tree rehashes it. -/
theorem setLeaf_eq_ok {i : Nat} (hi : i < 2 ^ depth) (value : Bytes32) :
    t.setLeaf i value = .ok (t.rehash depth 0 i value) := by
  rw [setLeaf, checkIndex, if_pos (by simpa using hi)]
  rfl

/-- No leaf beyond the tree can be set. -/
theorem lt_of_setLeaf_eq_ok {i : Nat} {value : Bytes32} {t' : Tree depth}
    (h : t.setLeaf i value = .ok t') : i < 2 ^ depth ∧ t' = t.rehash depth 0 i value := by
  by_cases hi : i < 2 ^ depth
  · rw [setLeaf_eq_ok hi] at h
    exact ⟨hi, (Except.ok.inj h).symm⟩
  · rw [setLeaf, checkIndex, if_neg (by simpa using hi)] at h
    contradiction

/-- The trees that writing leaves gives. -/
inductive Built : Tree depth → Prop
  | empty : Built (empty depth)
  | setLeaf {t t' : Tree depth} {index : Nat} {value : Bytes32} (h : Built t)
      (hset : t.setLeaf index value = .ok t') : Built t'

/-- A tree that was built by writing leaves is over its leaves. -/
theorem Built.tree_over (h : t.Built) : t.Over t.leaf := by
  induction h with
  | empty => exact (over_empty depth).leaf
  | setLeaf h hset ih =>
      obtain ⟨hi, rfl⟩ := lt_of_setLeaf_eq_ok hset
      exact (ih.rehash hi _).leaf

/-! ### Witnesses

The paths that a tree gives are read off its nodes, so they are those of the complete tree, and
the witnesses made of them open it.  The flags that come with two paths are the ones that the
paths call for: a tree never gives a witness whose second leaf is not bound.
-/

theorem Over.siblingsFrom_eq (h : t.Over leaves) (levels level position : Nat)
    (hl : level + levels ≤ depth) (hp : position < 2 ^ (depth - level)) :
    t.siblingsFrom levels level position = pathOver leaves levels level position := by
  induction levels generalizing level position with
  | zero => rfl
  | succ levels ih =>
      have hhalf := beside_div_two position
      rw [show depth - level = depth - (level + 1) + 1 by omega, Nat.pow_succ] at hp
      have hbeside : beside position < 2 ^ (depth - level) := by
        rw [show depth - level = depth - (level + 1) + 1 by omega, Nat.pow_succ]
        omega
      rw [siblingsFrom, pathOver, h level _ (by omega) hbeside, ih _ _ (by omega) (by omega)]

theorem Over.path_eq (h : t.Over leaves) {i : Nat} (hi : i < 2 ^ depth) :
    t.path i = pathOver leaves depth 0 i :=
  h.siblingsFrom_eq depth 0 i (by omega) hi

theorem witness_eq_ok {i : Nat} (hi : i < 2 ^ depth) : t.witness i = .ok ⟨t.path i⟩ := by
  rw [witness, checkIndex, if_pos (by simpa using hi)]
  rfl

theorem doubleWitness_eq_ok {i j : Nat} (hi : i < 2 ^ depth) (hj : j < 2 ^ depth) (hne : i ≠ j) :
    t.doubleWitness i j =
      .ok ⟨t.path i, t.path j, mergeFlags (UInt64.ofNat i) (UInt64.ofNat j) depth⟩ := by
  rw [doubleWitness, checkIndex, if_pos (by simpa using hi), checkIndex,
    if_pos (by simpa using hj)]
  simp only [bind, Except.bind, if_neg hne]
  rfl

/-- Two leaves of the tree that are one have no double witness. -/
theorem doubleWitness_self {i : Nat} (hi : i < 2 ^ depth) :
    t.doubleWitness i i = .error (.sameIndex i) := by
  rw [doubleWitness, checkIndex, if_pos (by simpa using hi)]
  simp only [bind, Except.bind, if_true]
  rfl

theorem Over.pathPosition_path (h : t.Over leaves) {i : Nat} (hi : i < 2 ^ depth) :
    pathPosition (t.path i) = i := by
  rw [h.path_eq hi, pathPosition_pathOver, Nat.mod_eq_of_lt hi]

theorem Over.length_path (h : t.Over leaves) {i : Nat} (hi : i < 2 ^ depth) :
    (t.path i).length = depth := by
  rw [h.path_eq hi, length_pathOver]

/-- The witness that a tree gives for a leaf opens it. -/
theorem Over.opens_witness (h : t.Over leaves) {i : Nat} (hi : i < 2 ^ depth) :
    (⟨t.path i⟩ : Witness).Opens leaves depth := by
  rw [Witness.Opens, h.pathPosition_path hi, h.path_eq hi]

/-- The flags that a tree gives with two paths are the ones that the paths call for. -/
theorem Over.flags_doubleWitness (h : t.Over leaves) {i j : Nat} (hi : i < 2 ^ depth)
    (hj : j < 2 ^ depth) :
    mergeFlags (UInt64.ofNat i) (UInt64.ofNat j) depth =
      (⟨t.path i, t.path j, mergeFlags (UInt64.ofNat i) (UInt64.ofNat j) depth⟩ :
        DoubleWitness).expectedFlags := by
  simp only [DoubleWitness.expectedFlags, DoubleWitness.indexes, pathIndex,
    h.pathPosition_path hi, h.pathPosition_path hj, h.length_path hi]

/-- The witness that a tree gives for two leaves opens it. -/
theorem Over.opens_doubleWitness (h : t.Over leaves) (hd : depth ≤ 64) {i j : Nat}
    (hi : i < 2 ^ depth) (hj : j < 2 ^ depth) (hne : i ≠ j) :
    (⟨t.path i, t.path j, mergeFlags (UInt64.ofNat i) (UInt64.ofNat j) depth⟩ :
      DoubleWitness).Opens leaves depth := by
  have hi' := h.pathPosition_path hi
  have hj' := h.pathPosition_path hj
  have hfits : (⟨t.path i, t.path j, mergeFlags (UInt64.ofNat i) (UInt64.ofNat j) depth⟩ :
      DoubleWitness).Fits depth := ⟨h.length_path hi, h.length_path hj, by simp [mergeFlags]⟩
  -- both paths are the tree's own, and the flags are those expected of their leaves
  apply hfits.opens hd (h.flags_doubleWitness hi hj)
  · simpa only [hi', hj'] using hne
  · intro k s hs _
    simp only [hi']
    simp only [h.path_eq hi] at hs
    obtain ⟨hk, rfl⟩ := List.getElem?_eq_some_iff.mp hs
    rw [getElem_pathOver, Nat.zero_add]
  · intro k hk _
    simp only [hj']
    simp only [h.path_eq hj]
    exact take_pathOver depth 0 j k hk.le

end Tree

end AmmRollup
