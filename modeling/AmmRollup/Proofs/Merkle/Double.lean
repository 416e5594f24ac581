import AmmRollup.Proofs.Merkle.Complete
import Mathlib.Data.LawfulXor.Basic

/-!
# AmmRollup.Proofs.Merkle.Double

Witnesses against the complete tree.  A witness *opens* the tree over some leaves
when folding any values through it gives the root of the tree in which those values
stand; `Witness.Opens` and `DoubleWitness.Opens` say so in terms of siblings.

A double witness folds its first leaf through one path, `joinedPath`, in which the
running node of the second leaf stands in for the sibling at each flagged level.
So what is known of single paths carries over, and the flags matter only through
that path: with the flags that the two positions call for, a double witness that
folds two values to the root opens the tree, and the values are its leaves.
-/

namespace AmmRollup

open AmmRollup.Tree (beside)

/-! ## Merge levels

Two leaves of a tree have paths that meet at one level, from which on they are one.  The program
finds it from the highest bit in which the indexes differ.  Said of positions, it is the level
where the two stand beside each other.
-/

/-- Two positions have one ancestor at a level when they agree above it. -/
theorem xor_div_pow_eq_zero_iff {a b k : Nat} : (a ^^^ b) / 2 ^ k = 0 ↔ a / 2 ^ k = b / 2 ^ k := by
  simp only [← Nat.shiftRight_eq_div_pow, Nat.shiftRight_xor_distrib]
  exact xor_eq_zero_iff

/-- Two paths merge at the level where they stand beside each other. -/
theorem mergeLevel_eq_some_iff {a b : UInt64} {m : Nat} :
    mergeLevel a b = some m ↔ b.toNat / 2 ^ m = beside (a.toNat / 2 ^ m) := by
  have hbeside : b.toNat / 2 ^ m = beside (a.toNat / 2 ^ m) ↔
      a.toNat / 2 ^ m ≠ b.toNat / 2 ^ m ∧ a.toNat / 2 ^ (m + 1) = b.toNat / 2 ^ (m + 1) := by
    rw [Tree.eq_beside_iff, Nat.div_div_eq_div_mul, Nat.div_div_eq_div_mul, ← Nat.pow_succ,
      ne_comm, eq_comm (a := b.toNat / 2 ^ (m + 1))]
  rw [hbeside, ne_eq, ← xor_div_pow_eq_zero_iff, ← xor_div_pow_eq_zero_iff, mergeLevel]
  by_cases hab : a = b
  · simp [hab]
  · have hxor : a.toNat ^^^ b.toNat ≠ 0 := fun h =>
      hab (UInt64.toNat_inj.mp (xor_eq_zero_iff.mp h))
    rw [if_neg hab, Option.some.injEq, Nat.log2_eq_iff hxor,
      Nat.div_eq_zero_iff_lt (Nat.two_pow_pos m), Nat.div_eq_zero_iff_lt (Nat.two_pow_pos (m + 1)),
      Nat.not_lt]

/-- Distinct positions of a tree have paths that merge below its root. -/
theorem exists_mergeLevel {a b : UInt64} {n : Nat} (hne : a ≠ b)
    (ha : a.toNat < 2 ^ n) (hb : b.toNat < 2 ^ n) :
    ∃ m, m < n ∧ mergeLevel a b = some m := by
  refine ⟨(a.toNat ^^^ b.toNat).log2, ?_, by rw [mergeLevel, if_neg hne]⟩
  have hxor : a.toNat ^^^ b.toNat ≠ 0 := fun h =>
    hne (UInt64.toNat_inj.mp (xor_eq_zero_iff.mp h))
  exact (Nat.log2_lt hxor).mpr (Nat.xor_lt_two_pow ha hb)

/-- The one flag of two leaves is at the level where their paths meet. -/
theorem getElem?_mergeFlags (a b : UInt64) (levels k : Nat) :
    (mergeFlags a b levels)[k]? =
      if k < levels then some (decide (mergeLevel a b = some k)) else none := by
  unfold mergeFlags
  split
  · next hk => rw [List.getElem?_map, List.getElem?_range hk, Option.map_some]
  · next hk => simpa using hk

/-! ## One leaf

A witness opens a tree when its siblings are those of its position in the complete tree.  Then it
computes the root of the tree with its leaf rewritten to anything, and hashes nothing that the
tree does not.  That a witness which computes the root opens the tree is binding, from
`eq_pathOver_of_fold`.
-/

namespace Witness

/-- The siblings of a witness are those of its position in the complete tree. -/
def Opens (w : Witness) (leaves : Nat → Bytes32) (depth : Nat) : Prop :=
  w.siblings = pathOver leaves depth 0 (pathPosition w.siblings)

/-- What computing a root from a leaf hashes. -/
def preimages (w : Witness) (leaf : Bytes32) : Set Bytes := foldPreimages leaf w.siblings

variable {w : Witness} {leaves : Nat → Bytes32} {depth : Nat}

/-- An index of at most 64 bits is the position that the siblings spell. -/
theorem toNat_index (hd : w.siblings.length ≤ 64) : w.index.toNat = pathPosition w.siblings := by
  have hlt := pathPosition_lt w.siblings
  have hle : 2 ^ w.siblings.length ≤ 2 ^ 64 := Nat.pow_le_pow_right (by decide) hd
  rw [index, pathIndex, UInt64.toNat_ofNat', Nat.mod_eq_of_lt (by omega)]

theorem Opens.length_eq (h : w.Opens leaves depth) : w.siblings.length = depth := by
  rw [h, length_pathOver]

/-- A witness that opens a tree still does when its leaf is rewritten. -/
theorem Opens.update (h : w.Opens leaves depth) (leaf : Bytes32) :
    w.Opens (Function.update leaves (pathPosition w.siblings) leaf) depth := by
  have hpath := pathOver_update (f := leaves) depth 0 (pathPosition w.siblings) leaf
  rw [Nat.pow_zero, Nat.div_one] at hpath
  exact h.trans hpath.symm

/-- A witness that opens a tree computes the root of the tree with a leaf rewritten. -/
theorem Opens.root_eq (h : w.Opens leaves depth) (leaf : Bytes32) :
    w.root leaf =
      nodeOver (Function.update leaves (pathPosition w.siblings) leaf) depth 0 := by
  have hlt := pathPosition_lt w.siblings
  rw [h, length_pathOver, ← h] at hlt
  have hfold := fold_pathOver (f := leaves)
    (g := Function.update leaves (pathPosition w.siblings) leaf) depth 0
    (pathPosition w.siblings)
    fun i hi => (Function.update_of_ne (by simpa using hi) leaf leaves).symm
  rw [nodeOver, Function.update_self, ← h, Nat.zero_add, Nat.div_eq_of_lt hlt] at hfold
  exact hfold

/-- A witness that opens a tree hashes nothing but its nodes on the way up from its leaf. -/
theorem Opens.preimages_subset (h : w.Opens leaves depth) :
    w.preimages (leaves (pathPosition w.siblings)) ⊆ nodePreimages leaves depth := by
  have := foldPreimages_pathOver (f := leaves) depth 0 (pathPosition w.siblings)
    (Nat.zero_add depth).le
  rwa [← h] at this

/-- A witness that computes the root of a tree opens it, at the leaf that it was given. -/
theorem opens_of_root {hashed : Set Bytes} (hc : CollisionFree hashed)
    (hleaves : nodePreimages leaves depth ⊆ hashed) (hlen : w.siblings.length = depth)
    {leaf : Bytes32} (hw : w.preimages leaf ⊆ hashed)
    (h : w.root leaf = nodeOver leaves depth 0) :
    leaf = leaves (pathPosition w.siblings) ∧ w.Opens leaves depth := by
  subst hlen
  have hlen : 0 + w.siblings.length ≤ w.siblings.length := by omega
  have := eq_pathOver_of_fold hc hleaves hlen hw (by rwa [Nat.zero_add, ← root_eq_foldUp])
  simpa [Opens, nodeOver] using this

end Witness

/-! ## Two leaves

A double witness folds two leaves at once, and where a flag is set it takes the running node of
the second leaf in place of a sibling of the first.  So it is one witness of the first leaf along
a path of its own, `joinedPath`, which is the tree's own exactly when the second leaf comes in
where it should.  All that is said about two leaves is said about that path.
-/

/-- The path that the first leaf of a double witness is folded through: at a flagged
level the running node of the second leaf stands in for the sibling. -/
def joinedPath (second : Bytes32) :
    List Sibling → List Sibling → List Bool → List Sibling
  | s :: ss, t :: ts, meet :: meets =>
      ⟨if meet then second else s.value, s.isLeft⟩ :: joinedPath (t.fold second) ss ts meets
  | _, _, _ => []

/-- Folding two leaves together is folding the first along the joined path. -/
theorem foldTogether_eq_foldUp (a b : Bytes32) (ss ts : List Sibling) (meets : List Bool) :
    DoubleWitness.foldTogether a b ss ts meets = foldUp a (joinedPath b ss ts meets) := by
  fun_induction DoubleWitness.foldTogether a b ss ts meets with
  | case1 a b s ss t ts meet meets ih =>
      rw [ih, joinedPath, foldUp_cons]
      cases meet <;> rfl
  | case2 a b ss ts meets h =>
      rw [joinedPath, foldUp_nil]
      exact h

/-- The joined path is the first one but where a flag is set: there the second leaf comes in, folded
up. -/
theorem getElem?_joinedPath (b : Bytes32) (ss ts : List Sibling) (meets : List Bool) (k : Nat)
    (hts : ts.length = ss.length) (hmeets : meets.length = ss.length) :
    (joinedPath b ss ts meets)[k]? = (ss[k]?).bind fun s => (meets[k]?).map fun meet =>
      ⟨if meet then foldUp b (ts.take k) else s.value, s.isLeft⟩ := by
  induction ss generalizing b ts meets k with
  | nil => simp [joinedPath]
  | cons s ss ih =>
      cases ts with
      | nil => simp at hts
      | cons t ts =>
          cases meets with
          | nil => simp at hmeets
          | cons meet meets =>
              cases k with
              | zero => simp [joinedPath]
              | succ k =>
                  simp only [List.length_cons, Nat.add_right_cancel_iff] at hts hmeets
                  simpa [joinedPath] using ih (t.fold b) ts meets k hts hmeets

theorem length_joinedPath (b : Bytes32) (ss ts : List Sibling) (meets : List Bool)
    (hts : ts.length = ss.length) (hmeets : meets.length = ss.length) :
    (joinedPath b ss ts meets).length = ss.length := by
  induction ss generalizing b ts meets with
  | nil => simp [joinedPath]
  | cons s ss ih =>
      cases ts with
      | nil => simp at hts
      | cons t ts =>
          cases meets with
          | nil => simp at hmeets
          | cons meet meets =>
              simp only [List.length_cons, Nat.add_right_cancel_iff] at hts hmeets
              rw [joinedPath, List.length_cons, List.length_cons, ih _ ts meets hts hmeets]

/-- Without flags nothing stands in for a sibling. -/
theorem joinedPath_of_unflagged (b : Bytes32) (ss ts : List Sibling) (meets : List Bool)
    (hts : ts.length = ss.length) (hmeets : meets.length = ss.length) (h : true ∉ meets) :
    joinedPath b ss ts meets = ss := by
  apply List.ext_getElem?
  intro k
  rw [getElem?_joinedPath b ss ts meets k hts hmeets]
  cases hs : ss[k]? with
  | none => rfl
  | some s =>
      obtain ⟨meet, hmeet⟩ : ∃ meet, meets[k]? = some meet :=
        ⟨_, List.getElem?_eq_getElem (hmeets ▸ (List.getElem?_eq_some_iff.mp hs).1)⟩
      have hunset : meet = false :=
        Bool.eq_false_iff.mpr fun hset => h (hset ▸ List.mem_of_getElem? hmeet)
      rw [Option.bind_some, hmeet, hunset]
      rfl

/-- Standing in for siblings does not change the sides of a path. -/
theorem pathPosition_joinedPath (b : Bytes32) (ss ts : List Sibling) (meets : List Bool)
    (hts : ts.length = ss.length) (hmeets : meets.length = ss.length) :
    pathPosition (joinedPath b ss ts meets) = pathPosition ss := by
  induction ss generalizing b ts meets with
  | nil => simp [joinedPath]
  | cons s ss ih =>
      cases ts with
      | nil => simp at hts
      | cons t ts =>
          cases meets with
          | nil => simp at hmeets
          | cons meet meets =>
              simp only [List.length_cons, Nat.add_right_cancel_iff] at hts hmeets
              rw [joinedPath, pathPosition, pathPosition, ih _ ts meets hts hmeets]

/-- The side of the sibling at each level is the bit of the position there. -/
theorem isLeft_eq {path : List Sibling} {k : Nat} {s : Sibling} (h : path[k]? = some s) :
    s.isLeft = decide (pathPosition path / 2 ^ k % 2 = 1) := by
  induction path generalizing k with
  | nil => simp at h
  | cons t path ih =>
      have hbit := Bool.toNat_lt t.isLeft
      cases k with
      | zero =>
          obtain rfl : t = s := by simpa using h
          rw [pathPosition, Nat.pow_zero, Nat.div_one, Nat.add_mul_mod_self_left]
          cases t.isLeft <;> rfl
      | succ k =>
          rw [ih (by simpa using h), pathPosition, Nat.pow_succ', ← Nat.div_div_eq_div_mul,
            show (t.isLeft.toNat + 2 * pathPosition path) / 2 = pathPosition path by omega]

namespace DoubleWitness

/-- Both paths and the flags have a level for each of the tree. -/
structure Fits (w : DoubleWitness) (depth : Nat) : Prop where
  first : w.first.length = depth
  second : w.second.length = depth
  meets : w.meets.length = depth

/-- The two positions differ, and whatever the second leaf becomes, the first is folded
through the siblings of its position in the tree where the second stands. -/
structure Opens (w : DoubleWitness) (leaves : Nat → Bytes32) (depth : Nat) : Prop where
  fits : w.Fits depth
  ne : pathPosition w.first ≠ pathPosition w.second
  joined : ∀ b, joinedPath b w.first w.second w.meets =
    pathOver (Function.update leaves (pathPosition w.second) b) depth 0 (pathPosition w.first)

/-- What computing a root from two leaves hashes. -/
def preimages (w : DoubleWitness) (a b : Bytes32) : Set Bytes :=
  foldPreimages a (joinedPath b w.first w.second w.meets) ∪ foldPreimages b w.second

variable {w : DoubleWitness} {leaves : Nat → Bytes32} {depth : Nat} {a b : Bytes32}

/-- A double witness is accepted for a height when it fits the tree of that height. -/
theorem checkHeight_eq_ok_iff {height : Nat} :
    w.checkHeight height = .ok () ↔ w.Fits (height - 1) := by
  rw [checkHeight]
  constructor
  · intro h
    split at h
    · contradiction
    · next hfirst =>
        split at h
        · contradiction
        · next hsecond =>
            split at h
            · contradiction
            · next hmeets => exact ⟨not_not.mp hfirst, not_not.mp hsecond, not_not.mp hmeets⟩
  · intro h
    rw [if_neg (not_not.mpr h.first), if_neg (not_not.mpr h.second),
      if_neg (not_not.mpr h.meets)]

/-- The path of the first leaf, as a witness of its own. -/
theorem root_eq_joined (w : DoubleWitness) (a b : Bytes32) :
    w.root a b = (⟨joinedPath b w.first w.second w.meets⟩ : Witness).root a :=
  foldTogether_eq_foldUp a b w.first w.second w.meets

namespace Fits

/-- Standing in for siblings changes neither the levels nor the position of the path. -/
theorem position_joined (hw : w.Fits depth) (b : Bytes32) :
    pathPosition (joinedPath b w.first w.second w.meets) = pathPosition w.first :=
  pathPosition_joinedPath b _ _ _ (hw.second.trans hw.first.symm) (hw.meets.trans hw.first.symm)

theorem length_joined (hw : w.Fits depth) (b : Bytes32) :
    (joinedPath b w.first w.second w.meets).length = depth :=
  (length_joinedPath b _ _ _ (hw.second.trans hw.first.symm)
    (hw.meets.trans hw.first.symm)).trans hw.first

theorem toNat_indexes_fst (hw : w.Fits depth) (hd : depth ≤ 64) :
    w.indexes.1.toNat = pathPosition w.first :=
  Witness.toNat_index (w := ⟨w.first⟩) (hw.first.trans_le hd)

theorem toNat_indexes_snd (hw : w.Fits depth) (hd : depth ≤ 64) :
    w.indexes.2.toNat = pathPosition w.second :=
  Witness.toNat_index (w := ⟨w.second⟩) (hw.second.trans_le hd)

/-- The joined path is that of its position when every level gives the node beside it:
a flagged one by the running node of the second leaf, any other by its own sibling. -/
theorem joined_eq_pathOver_iff (hw : w.Fits depth) (b : Bytes32) :
    joinedPath b w.first w.second w.meets = pathOver leaves depth 0 (pathPosition w.first) ↔
      ∀ k s meet, w.first[k]? = some s → w.meets[k]? = some meet →
        (if meet then foldUp b (w.second.take k) else s.value) =
          nodeOver leaves k (beside (pathPosition w.first / 2 ^ k)) := by
  -- level by level: the sides of the two paths agree, so only the values are compared
  have hget (k : Nat) := getElem?_joinedPath b w.first w.second w.meets k
    (hw.second.trans hw.first.symm) (hw.meets.trans hw.first.symm)
  constructor
  · intro h k s meet hs hmeet
    have hk : k < depth := hw.first ▸ (List.getElem?_eq_some_iff.mp hs).1
    have := hget k
    rw [h, hs, hmeet, List.getElem?_eq_getElem (by simpa using hk), getElem_pathOver] at this
    simpa using (congrArg Sibling.value (Option.some.inj this)).symm
  · intro h
    apply List.ext_getElem?
    intro k
    rw [hget k]
    by_cases hk : k < depth
    · have hs : w.first[k]? = some (w.first.get ⟨k, hw.first ▸ hk⟩) :=
        List.getElem?_eq_getElem (hw.first ▸ hk)
      have hmeet : w.meets[k]? = some (w.meets.get ⟨k, hw.meets ▸ hk⟩) :=
        List.getElem?_eq_getElem (hw.meets ▸ hk)
      rw [hs, hmeet, Option.bind_some, Option.map_some, h k _ _ hs hmeet, isLeft_eq hs,
        List.getElem?_eq_getElem (by simpa using hk), getElem_pathOver, Nat.zero_add]
    · have hs : w.first[k]? = none := List.getElem?_eq_none (by rw [hw.first]; omega)
      have hpath : (pathOver leaves depth 0 (pathPosition w.first))[k]? = none :=
        List.getElem?_eq_none (by rw [length_pathOver]; omega)
      rw [hs, hpath, Option.bind_none]

/-- With the flags that the positions call for, the joined path is right when the second
path is the tree's own below the level where the two meet, and the first is elsewhere. -/
theorem opens (hw : w.Fits depth) (hd : depth ≤ 64) (hflags : w.meets = w.expectedFlags)
    (hne : pathPosition w.first ≠ pathPosition w.second)
    (hfirst : ∀ k s, w.first[k]? = some s → mergeLevel w.indexes.1 w.indexes.2 ≠ some k →
      s.value = nodeOver leaves k (beside (pathPosition w.first / 2 ^ k)))
    (hsecond : ∀ k, k < depth → mergeLevel w.indexes.1 w.indexes.2 = some k →
      w.second.take k = pathOver leaves k 0 (pathPosition w.second)) :
    w.Opens leaves depth := by
  refine ⟨hw, hne, fun b => (hw.joined_eq_pathOver_iff b).mpr ?_⟩
  intro k s meet hs hmeet
  have hk : k < depth := hw.first ▸ (List.getElem?_eq_some_iff.mp hs).1
  have hlevel : meet = decide (mergeLevel w.indexes.1 w.indexes.2 = some k) := by
    rw [hflags, expectedFlags, getElem?_mergeFlags, hw.first, if_pos hk] at hmeet
    exact (Option.some.inj hmeet).symm
  have hmerge : mergeLevel w.indexes.1 w.indexes.2 = some k ↔
      pathPosition w.second / 2 ^ k = beside (pathPosition w.first / 2 ^ k) := by
    rw [mergeLevel_eq_some_iff, hw.toNat_indexes_fst hd, hw.toNat_indexes_snd hd]
  -- where the paths meet the second leaf comes in, and on every other level the sibling does not
  -- see it
  by_cases hm : mergeLevel w.indexes.1 w.indexes.2 = some k
  · have hfold := fold_pathOver (f := leaves)
      (g := Function.update leaves (pathPosition w.second) b) k 0 (pathPosition w.second)
      fun i hi => (Function.update_of_ne (by simpa using hi) b leaves).symm
    rw [nodeOver, Function.update_self, Nat.zero_add] at hfold
    rw [hlevel, decide_eq_true hm, if_pos rfl, hsecond k hk hm, hfold, hmerge.mp hm]
  · rw [hlevel, decide_eq_false hm, if_neg Bool.false_ne_true, hfirst k s hs hm,
      nodeOver_update_of_ne b (mt hmerge.mpr hm)]

end Fits

/-- A double witness that opens a tree computes the root of the tree with both leaves
rewritten. -/
theorem Opens.root_eq (h : w.Opens leaves depth) (a b : Bytes32) :
    w.root a b = nodeOver (Function.update
      (Function.update leaves (pathPosition w.second) b) (pathPosition w.first) a) depth 0 := by
  have hopens : (⟨joinedPath b w.first w.second w.meets⟩ : Witness).Opens
      (Function.update leaves (pathPosition w.second) b) depth := by
    rw [Witness.Opens, h.fits.position_joined]
    exact h.joined b
  rw [root_eq_joined, hopens.root_eq a, h.fits.position_joined]

/-! ### Binding

The flags are supplied with the witness, and nothing checks them.  What a root binds therefore
depends on them: the first leaf always, and the second as far as a flagged level takes it in,
which is at its own place when the flags are those that the positions call for.
-/

/-- A double witness that computes the root of a tree has the first leaf right, and the
path that it is folded through, whatever its flags. -/
theorem joined_of_root {hashed : Set Bytes} (hc : CollisionFree hashed)
    (hleaves : nodePreimages leaves depth ⊆ hashed) (hw : w.Fits depth)
    (hab : w.preimages a b ⊆ hashed) (h : w.root a b = nodeOver leaves depth 0) :
    a = leaves (pathPosition w.first) ∧
      joinedPath b w.first w.second w.meets = pathOver leaves depth 0 (pathPosition w.first) := by
  have := Witness.opens_of_root hc hleaves (hw.length_joined b)
    (Set.subset_union_left.trans hab) (by rwa [← root_eq_joined])
  rwa [Witness.Opens, hw.position_joined] at this

/-- At a flagged level the second leaf is folded to the node beside the first path, so it
is the leaf that its path spells below that node. -/
theorem second_of_root {hashed : Set Bytes} (hc : CollisionFree hashed)
    (hleaves : nodePreimages leaves depth ⊆ hashed) (hw : w.Fits depth)
    (hab : w.preimages a b ⊆ hashed) (h : w.root a b = nodeOver leaves depth 0)
    {k : Nat} (hk : w.meets[k]? = some true) :
    b = leaves (pathPosition w.second % 2 ^ k +
        2 ^ k * beside (pathPosition w.first / 2 ^ k)) ∧
      w.second.take k = pathOver leaves k 0 (pathPosition w.second % 2 ^ k +
        2 ^ k * beside (pathPosition w.first / 2 ^ k)) := by
  have hlt : k < depth := hw.meets ▸ (List.getElem?_eq_some_iff.mp hk).1
  have hlen : (w.second.take k).length = k := by
    rw [List.length_take, hw.second, Nat.min_eq_left hlt.le]
  have hjoined := (hw.joined_eq_pathOver_iff b).mp (joined_of_root hc hleaves hw hab h).2 k _ true
    (List.getElem?_eq_getElem (hw.first ▸ hlt)) hk
  rw [if_pos rfl] at hjoined
  have hle : 0 + (w.second.take k).length ≤ depth := by omega
  have := eq_pathOver_of_fold hc hleaves hle
    ((foldPreimages_take_subset b w.second k).trans (Set.subset_union_right.trans hab))
    (by rwa [hlen, Nat.zero_add])
  rwa [hlen, pathPosition_take] at this

/-- With the flags that the positions call for, a double witness that computes the root of
a tree opens it, at the two leaves that it was given. -/
theorem opens_of_root {hashed : Set Bytes} (hc : CollisionFree hashed)
    (hleaves : nodePreimages leaves depth ⊆ hashed) (hw : w.Fits depth) (hd : depth ≤ 64)
    (hflags : w.meets = w.expectedFlags) (hne : w.indexes.1 ≠ w.indexes.2)
    (hab : w.preimages a b ⊆ hashed) (h : w.root a b = nodeOver leaves depth 0) :
    a = leaves (pathPosition w.first) ∧ b = leaves (pathPosition w.second) ∧
      w.Opens leaves depth := by
  obtain ⟨ha, hjoined⟩ := joined_of_root hc hleaves hw hab h
  have hfirst := hw.toNat_indexes_fst hd
  have hsecond := hw.toNat_indexes_snd hd
  have hflag {k : Nat} (hk : k < depth) :
      w.meets[k]? = some (decide (mergeLevel w.indexes.1 w.indexes.2 = some k)) := by
    rw [hflags, expectedFlags, getElem?_mergeFlags, hw.first, if_pos hk]
  -- different leaves meet at one level, and its flag is the one that is set
  obtain ⟨m, hm, hmerge⟩ := exists_mergeLevel hne (n := depth)
    (by rw [hfirst, ← hw.first]; exact pathPosition_lt w.first)
    (by rw [hsecond, ← hw.second]; exact pathPosition_lt w.second)
  have hbeside : beside (pathPosition w.first / 2 ^ m) = pathPosition w.second / 2 ^ m := by
    rw [← hfirst, ← hsecond]
    exact (mergeLevel_eq_some_iff.mp hmerge).symm
  obtain ⟨hb, htake⟩ := second_of_root hc hleaves hw hab h
    (by rw [hflag hm, decide_eq_true hmerge])
  rw [hbeside, Nat.mod_add_div] at hb htake
  refine ⟨ha, hb, hw.opens hd hflags (fun he => hne ?_) ?_ ?_⟩
  · rw [← UInt64.toNat_inj, hfirst, hsecond, he]
  · intro k s hs hk
    have hlt : k < depth := hw.first ▸ (List.getElem?_eq_some_iff.mp hs).1
    have := (hw.joined_eq_pathOver_iff b).mp hjoined k s _ hs (hflag hlt)
    rwa [decide_eq_false hk, if_neg Bool.false_ne_true] at this
  · intro k _ hk
    obtain rfl : m = k := Option.some.inj (hmerge.symm.trans hk)
    exact htake

/-! ### Unset flags

Without flags the second leaf and its path are read by nothing.  The root is then computed from
the first leaf alone, so the witness is accepted with any claim about the second one.  These
lemmas say so of every tree, and the forged pools use them.
-/

/-- Without flags the first leaf is folded through its own path, and the second counts for
nothing. -/
theorem Fits.joined_of_unflagged (hw : w.Fits depth) (hflags : true ∉ w.meets) (b : Bytes32) :
    joinedPath b w.first w.second w.meets = w.first :=
  joinedPath_of_unflagged b _ _ _ (hw.second.trans hw.first.symm)
    (hw.meets.trans hw.first.symm) hflags

/-- What an unflagged double witness computes is the root of the tree with the first leaf
rewritten, if the first path opens it. -/
theorem root_of_unflagged (hw : w.Fits depth) (hflags : true ∉ w.meets)
    (hopens : (⟨w.first⟩ : Witness).Opens leaves depth) (a b : Bytes32) :
    w.root a b = nodeOver (Function.update leaves (pathPosition w.first) a) depth 0 := by
  rw [root_eq_joined, hw.joined_of_unflagged hflags, hopens.root_eq]

/-- Trees whose roots an unflagged double witness computes agree at its second leaf. -/
theorem agree_of_unflagged {hashed : Set Bytes} (hc : CollisionFree hashed)
    {leaves' : Nat → Bytes32} (hleaves : nodePreimages leaves depth ⊆ hashed)
    (hleaves' : nodePreimages leaves' depth ⊆ hashed) (hw : w.Fits depth) (hd : depth ≤ 64)
    (hflags : true ∉ w.meets) (hne : w.indexes.1 ≠ w.indexes.2) {a' b' : Bytes32}
    (hab : w.preimages a b ⊆ hashed) (hab' : w.preimages a' b' ⊆ hashed)
    (h : w.root a b = nodeOver leaves depth 0) (h' : w.root a' b' = nodeOver leaves' depth 0) :
    leaves (pathPosition w.second) = leaves' (pathPosition w.second) := by
  have hjoined := (joined_of_root hc hleaves hw hab h).2
  have hjoined' := (joined_of_root hc hleaves' hw hab' h').2
  rw [hw.joined_of_unflagged hflags] at hjoined hjoined'
  have hfirst := hw.toNat_indexes_fst hd
  have hsecond := hw.toNat_indexes_snd hd
  obtain ⟨m, hm, hmerge⟩ := exists_mergeLevel hne (n := depth)
    (by rw [hfirst, ← hw.first]; exact pathPosition_lt w.first)
    (by rw [hsecond, ← hw.second]; exact pathPosition_lt w.second)
  rw [mergeLevel_eq_some_iff, hfirst, hsecond] at hmerge
  -- the first path has one sibling where the second joins it, in both trees
  have hsibling := getElem_pathOver (f := leaves) depth 0 (pathPosition w.first) m
    (by simpa using hm)
  have hsibling' := getElem_pathOver (f := leaves') depth 0 (pathPosition w.first) m
    (by simpa using hm)
  simp only [← hjoined] at hsibling
  simp only [← hjoined'] at hsibling'
  rw [hsibling, Sibling.mk.injEq, Nat.zero_add, ← hmerge] at hsibling'
  exact leaf_eq_of_node_eq hc hleaves hleaves' hm.le hsibling'.1 rfl

end DoubleWitness

end AmmRollup
