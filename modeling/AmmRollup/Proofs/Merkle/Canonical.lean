import AmmRollup.Proofs.Merkle.Updates
import Mathlib.Data.List.Induction

/-!
# AmmRollup.Proofs.Merkle.Canonical

A sparse tree is the complete tree over its leaves and keeps nothing of how they came to
be written.  What it stores is trimmed: nodes of the tree only, and none that equals the
root of an unwritten subtree (`Tree.Trimmed`).  So every node is either stored or implied,
and trees with the same leaves store the same nodes.

* `Tree.Built.eq_of_leaf_eq` — built trees with the same leaves are one;
* `Tree.complete_of_writes` — what any calls that write leaves make of an unwritten tree.

No assumption on digests is needed: a node that happens to equal the root of an unwritten
subtree is dropped, and reading it gives the same value.
-/

namespace AmmRollup

namespace Tree

variable {depth : Nat} {t t' : Tree depth}

/-! ## Stored nodes

What a tree stores is determined by its leaves.  A node that equals the unwritten one for its
level is dropped when it is put, so a built tree stores exactly the nodes that are not implied,
and two built trees with the same leaves are the same tree.
-/

/-- Only nodes of the tree are stored, and none that is the root of an unwritten subtree. -/
def Trimmed (t : Tree depth) : Prop :=
  ∀ n value, t.nodes[n]? = some value → ∃ level position, level ≤ depth ∧
    position < 2 ^ (depth - level) ∧ n = number depth level position ∧ value ≠ emptySubtree level

theorem trimmed_empty (depth : Nat) : (empty depth).Trimmed := by
  intro n value h
  simp [empty] at h

/-- Storing a node of the tree keeps it trimmed: one that equals an unwritten subtree is
dropped instead. -/
theorem Trimmed.put (h : t.Trimmed) {level position : Nat} (hl : level ≤ depth)
    (hp : position < 2 ^ (depth - level)) (value : Bytes32) :
    (t.put level position value).Trimmed := by
  intro n v hv
  simp only [Tree.put, emptyAt_eq t hl] at hv
  split at hv
  · simp only [Std.ExtTreeMap.getElem?_erase, Nat.compare_eq_eq] at hv
    split at hv
    · contradiction
    · exact h n v hv
  · next hne =>
      simp only [Std.ExtTreeMap.getElem?_insert, Nat.compare_eq_eq] at hv
      split at hv
      · next hn => exact ⟨level, position, hl, hp, hn.symm, Option.some.inj hv ▸ hne⟩
      · exact h n v hv

/-- Storing every node on the way up leaves no empty entry. -/
theorem Trimmed.rehash (h : t.Trimmed) (levels level : Nat) {position : Nat}
    (hd : level + levels = depth) (hp : position < 2 ^ levels) (value : Bytes32) :
    (t.rehash levels level position value).Trimmed := by
  induction levels generalizing t level position value with
  | zero => exact h.put (by omega) (by simpa [← hd] using hp) value
  | succ levels ih =>
      have hlevels : depth - level = levels + 1 := by omega
      have hput : (t.put level position value).Trimmed :=
        h.put (by omega) (by rwa [hlevels]) value
      rw [Nat.pow_succ] at hp
      exact ih hput (level + 1) (by omega) (by omega) _

theorem Built.trimmed (h : t.Built) : t.Trimmed := by
  induction h with
  | empty => exact trimmed_empty depth
  | setLeaf h hset ih =>
      obtain ⟨hi, rfl⟩ := lt_of_setLeaf_eq_ok hset
      exact ih.rehash depth 0 (Nat.zero_add depth) hi _

/-- A node is stored unless it is the root of an unwritten subtree. -/
theorem Trimmed.getElem?_number (h : t.Trimmed) {level position : Nat} (hl : level ≤ depth)
    (hp : position < 2 ^ (depth - level)) :
    t.nodes[number depth level position]? =
      if t.node level position = emptySubtree level then none
      else some (t.node level position) := by
  cases hstored : t.nodes[number depth level position]? with
  | none => simp [node, hstored, emptyAt_eq t hl]
  | some value =>
      obtain ⟨level', position', hl', hp', hnumber, hne⟩ := h _ _ hstored
      obtain ⟨rfl, rfl⟩ := number_injective hl hp hl' hp' hnumber
      simp [node, hstored, hne]

/-- Trimmed trees with the same nodes store the same. -/
theorem Trimmed.nodes_eq (h : t.Trimmed) (h' : t'.Trimmed)
    (heq : ∀ level position, level ≤ depth → position < 2 ^ (depth - level) →
      t.node level position = t'.node level position) : t.nodes = t'.nodes := by
  apply Std.ExtTreeMap.ext_getElem?
  intro n
  by_cases hn : ∃ level position, level ≤ depth ∧ position < 2 ^ (depth - level) ∧
      n = number depth level position
  · obtain ⟨level, position, hl, hp, rfl⟩ := hn
    rw [h.getElem?_number hl hp, h'.getElem?_number hl hp, heq level position hl hp]
  · have hnone {u : Tree depth} (hu : u.Trimmed) : u.nodes[n]? = none := by
      by_contra hstored
      obtain ⟨value, hvalue⟩ := Option.ne_none_iff_exists'.mp hstored
      obtain ⟨level, position, hl, hp, hnumber, -⟩ := hu n value hvalue
      exact hn ⟨level, position, hl, hp, hnumber⟩
    rw [hnone h, hnone h']

/-- Numbers past the last leaf are of no node, so nothing is stored there. -/
theorem Trimmed.leaf_of_le (h : t.Trimmed) {i : Nat} (hi : 2 ^ depth ≤ i) :
    t.leaf i = emptyLeaf := by
  cases hstored : t.nodes[number depth 0 i]? with
  | none => simp [leaf, node, hstored, emptyAt_eq t (Nat.zero_le depth), emptySubtree]
  | some value =>
      obtain ⟨level, position, hl, hp, hnumber, -⟩ := h _ _ hstored
      have hpow : 2 ^ (depth - level) ≤ 2 ^ depth := Nat.pow_le_pow_right (by decide) (by omega)
      simp only [number, Nat.one_shiftLeft, Nat.sub_zero] at hnumber
      omega

/-- Built trees with the same leaves are one. -/
theorem Built.eq_of_leaf_eq (h : t.Built) (h' : t'.Built)
    (heq : ∀ i < 2 ^ depth, t.leaf i = t'.leaf i) : t = t' := by
  have hover := h.tree_over.congr heq
  have hnodes : t.nodes = t'.nodes := h.trimmed.nodes_eq h'.trimmed fun level position hl hp => by
    rw [hover level position hl hp, h'.tree_over level position hl hp]
  have hempties : t.empties = t'.empties := t.empties_eq.trans t'.empties_eq.symm
  obtain ⟨nodes, empties, _⟩ := t
  obtain ⟨nodes', empties', _⟩ := t'
  simp_all

/-- Writing the value that a leaf had before puts the tree back. -/
theorem Built.rehash_leaf (h : t.Built) {i : Nat} (hi : i < 2 ^ depth) (value : Bytes32) :
    (t.rehash depth 0 i value).rehash depth 0 i (t.leaf i) = t := by
  have hwritten := h.setLeaf (setLeaf_eq_ok hi value)
  refine (hwritten.setLeaf (setLeaf_eq_ok hi _)).eq_of_leaf_eq h fun j hj => ?_
  rw [((h.tree_over.rehash hi value).rehash hi _).leaf_eq hj, Function.update_idem,
    Function.update_eq_self]

/-! ## Histories

The calls that write leaves may repeat, overwrite, unwrite and miss the tree.  All that remains
of them is the value that was written last at each leaf.
-/

/-- The value that calls wrote last at a leaf, and the unwritten one if there is none. -/
def lastWritten (calls : List (Nat × Bytes32)) (i : Nat) : Bytes32 :=
  (calls.reverse.lookup i).getD emptyLeaf

/-- The last call decides what its leaf was written to. -/
theorem lastWritten_concat (calls : List (Nat × Bytes32)) (index : Nat) (value : Bytes32) :
    lastWritten (calls ++ [(index, value)]) = Function.update (lastWritten calls) index value := by
  funext i
  by_cases hi : i = index
  · simp [lastWritten, hi]
  · have hb : (i == index) = false := by simpa using hi
    simp [lastWritten, List.lookup_cons, hb, Function.update_of_ne hi]

/-- A call past the last leaf is refused. -/
theorem setLeaf_eq_error {i : Nat} (hi : 2 ^ depth ≤ i) (value : Bytes32) :
    t.setLeaf i value = .error (.indexOutOfRange i t.capacity) := by
  rw [setLeaf, checkIndex, if_neg (by simpa using hi)]
  rfl

/-- A call rehashes a leaf of the tree, and beyond the tree it is refused and changes nothing. -/
theorem write_eq (t : Tree depth) (index : Nat) (value : Bytes32) :
    t.write index value = if index < 2 ^ depth then t.rehash depth 0 index value else t := by
  split
  · next hi => rw [write, setLeaf_eq_ok hi]; rfl
  · next hi => rw [write, setLeaf_eq_error (by omega)]; rfl

theorem writeAll_append (t : Tree depth) (calls more : List (Nat × Bytes32)) :
    t.writeAll (calls ++ more) = (t.writeAll calls).writeAll more :=
  List.foldl_append

/-- A leaf has what the calls wrote there last. -/
theorem leaf_writeAll (calls : List (Nat × Bytes32)) {i : Nat} (hi : i < 2 ^ depth) :
    ((empty depth).writeAll calls).leaf i = lastWritten calls i := by
  induction calls using List.reverseRecOn generalizing i with
  | nil => exact (over_empty depth).leaf_eq hi
  | append_singleton calls call ih =>
      obtain ⟨index, value⟩ := call
      have hbuilt : ((empty depth).writeAll calls).Built := Built.empty.writeAll calls
      have hover := hbuilt.tree_over
      rw [lastWritten_concat, writeAll_append, writeAll, List.foldl_cons, List.foldl_nil, write_eq]
      split
      · next hindex =>
          rw [(hover.rehash hindex value).leaf_eq hi, Function.update_apply,
            Function.update_apply, ih hi]
      · next hindex => rw [ih hi, Function.update_of_ne (by omega)]

/-- Where calls wrote nothing, the leaf is unwritten. -/
theorem lastWritten_of_notMem {calls : List (Nat × Bytes32)} {i : Nat}
    (hi : ∀ call ∈ calls, call.1 ≠ i) : lastWritten calls i = emptyLeaf := by
  have hnone : calls.reverse.lookup i = none :=
    List.lookup_eq_none_iff.mpr fun call hm => by
      simpa using (hi call (List.mem_reverse.mp hm)).symm
  rw [lastWritten, hnone, Option.getD_none]

/-- Unwriting all leaves that calls wrote leaves none written. -/
theorem lastWritten_cleared {calls : List (Nat × Bytes32)} {indexes : List Nat} {i : Nat}
    (hi : ∀ call ∈ calls, call.1 = i → i ∈ indexes) :
    lastWritten (calls ++ indexes.map (·, emptyLeaf)) i = emptyLeaf := by
  induction indexes using List.reverseRecOn with
  | nil =>
      have hnone : ∀ call ∈ calls, call.1 ≠ i := fun call hm he => by simpa using hi call hm he
      simpa using lastWritten_of_notMem hnone
  | append_singleton indexes index ih =>
      rw [List.map_append, List.map_singleton, ← List.append_assoc, lastWritten_concat,
        Function.update_apply]
      split
      · rfl
      · next hne =>
          refine ih fun call hm he => ?_
          simpa [hne] using hi call hm he

/-! ## Main result -/

/-- A tree is the complete tree over its leaves, and stores no node that is implied. -/
structure Complete (t : Tree depth) : Prop where
  /-- A node, stored or implied, is hashed from its children. -/
  node_eq : ∀ level position, level < depth → position < 2 ^ (depth - (level + 1)) →
    t.node (level + 1) position =
      hashPair (t.node level (2 * position)) (t.node level (2 * position + 1))
  /-- The root is that of the complete tree, computed from all leaves. -/
  root_eq : t.root = nodeOver t.leaf depth 0
  trimmed : t.Trimmed

theorem Built.complete (h : t.Built) : t.Complete where
  node_eq level position hl hp := by
    have hchild : 2 ^ (depth - level) = 2 * 2 ^ (depth - (level + 1)) := by
      rw [show depth - level = depth - (level + 1) + 1 by omega, Nat.pow_succ']
    have hover := h.tree_over
    rw [hover (level + 1) position hl hp, hover level (2 * position) hl.le (by omega),
      hover level (2 * position + 1) hl.le (by omega), nodeOver]
  root_eq := h.tree_over.root_eq
  trimmed := h.trimmed

/-- **A sparse tree is the complete tree, whatever its history.**  In a tree of any supported
height, written by any calls, every leaf has what was written there last, every node is that
of the complete tree over the leaves, and nothing is stored that is implied.  Calls past the
last leaf are refused and change nothing.  Two histories that leave the same leaves leave the
same stored nodes, and unwriting all that was written leaves none. -/
theorem complete_of_writes {height : Nat} (hpos : 1 ≤ height) (hle : height ≤ 64) :
    ∃ depth, depthOfHeight height = .ok depth ∧ ∀ calls : List (Nat × Bytes32),
      let t := (empty depth).writeAll calls
      (t.height = height ∧ t.capacity = 2 ^ (height - 1)) ∧
      (∀ i value, t.capacity ≤ i →
        t.setLeaf i value = .error (.indexOutOfRange i t.capacity) ∧ t.write i value = t) ∧
      (∀ i, t.leaf i = if i < t.capacity then lastWritten calls i else emptyLeaf) ∧
      t.Complete ∧
      (∀ others : List (Nat × Bytes32),
        (∀ i < t.capacity, ((empty depth).writeAll others).leaf i = t.leaf i) →
          ((empty depth).writeAll others).nodes = t.nodes) ∧
      ∀ indexes : List Nat, (∀ call ∈ calls, call.1 < t.capacity → call.1 ∈ indexes) →
        (t.writeAll (indexes.map (·, emptyLeaf))).nodes = ∅ ∧
          (t.writeAll (indexes.map (·, emptyLeaf))).root = emptyRoot height := by
  refine ⟨height - 1, depthOfHeight_eq_ok hpos hle, fun calls => ?_⟩
  have hbuilt (calls : List (Nat × Bytes32)) : ((empty (height - 1)).writeAll calls).Built :=
    Built.empty.writeAll calls
  intro t
  simp only [capacity_eq, and_true]
  refine ⟨by rw [Tree.height, Nat.sub_add_cancel hpos], fun i value hi => ?_, fun i => ?_,
    (hbuilt calls).complete, fun others heq => ?_, fun indexes hall => ?_⟩
  · exact ⟨by simpa using setLeaf_eq_error hi value, by rw [write_eq, if_neg (by omega)]⟩
  · split
    · next hi => exact leaf_writeAll calls hi
    · next hi => exact (hbuilt calls).trimmed.leaf_of_le (by omega)
  · rw [(hbuilt others).eq_of_leaf_eq (hbuilt calls) heq]
  -- clearing every written leaf gives the leaves of an unwritten tree, and leaves decide the nodes
  · have hcleared : t.writeAll (indexes.map (·, emptyLeaf)) = empty (height - 1) := by
      refine ((hbuilt calls).writeAll _).eq_of_leaf_eq .empty fun i hi => ?_
      rw [(over_empty _).leaf_eq hi, ← writeAll_append, leaf_writeAll _ hi]
      exact lastWritten_cleared fun call hm he => he ▸ hall call hm (he ▸ hi)
    rw [hcleared, root_empty, Nat.sub_add_cancel hpos]
    exact ⟨rfl, rfl⟩

/-- A leaf that was written and unwritten again, beside a call past the last leaf and another
leaf, leaves what that other leaf alone does; and unwriting both leaves nothing. -/
theorem complete_of_writes_three :
    1 ≤ 3 ∧ 3 ≤ 64 ∧
      let calls := [(1, emptyRoot 2), (4, emptyRoot 2), (2, emptyRoot 3), (1, emptyLeaf)]
      let t := (empty 2).writeAll calls
      let u := (empty 2).writeAll [(2, emptyRoot 3)]
      (∀ i < t.capacity, u.leaf i = t.leaf i) ∧ u.nodes = t.nodes ∧
        (∀ call ∈ calls, call.1 < t.capacity → call.1 ∈ [1, 2]) ∧
        (t.writeAll ([1, 2].map (·, emptyLeaf))).nodes = ∅ := by
  obtain ⟨depth, hdepth, hcomplete⟩ :=
    complete_of_writes (show 1 ≤ 3 by decide) (show 3 ≤ 64 by decide)
  obtain rfl : 2 = depth := Except.ok.inj hdepth
  refine ⟨by decide, by decide, ?_⟩
  intro calls t u
  obtain ⟨-, -, -, -, hsame, hclear⟩ := hcomplete calls
  have hleaves : ∀ i < t.capacity, u.leaf i = t.leaf i := by
    intro i hi
    rw [capacity_eq] at hi
    rw [leaf_writeAll _ hi, leaf_writeAll _ hi]
    match i, hi with
    | 0, _ => rfl
    | 1, _ => rfl
    | 2, _ => rfl
    | 3, _ => rfl
  have hall : ∀ call ∈ calls, call.1 < t.capacity → call.1 ∈ [1, 2] := by
    simp [calls]
  exact ⟨hleaves, hsame _ hleaves, hall, (hclear [1, 2] hall).1⟩

end Tree

end AmmRollup
