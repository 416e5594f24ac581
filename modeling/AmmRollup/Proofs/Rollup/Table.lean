import AmmRollup.Proofs.Transition.Records
import AmmRollup.Rollup.Table
import Mathlib.Data.List.Perm.Subperm

/-!
# AmmRollup.Proofs.Rollup.Table

The invariant of a table (`Table.Valid`): keys and leaves are bound one to one, every
record stands at the leaf of its own key, and the tree stores the records.  Asking for a
leaf, writing and putting back keep it.

Bindings only ever grow, and a leaf that is bound without being written holds nothing.
So a table may gain bindings without any lookup noticing (`Table.Extends`), and putting
back what a write replaced undoes it up to bindings (`Table.Valid.restore`).
-/

namespace AmmRollup

variable {depth : Nat} {κ ρ : Type} [DecidableEq κ]

/-! ## Free leaves

A table looks for a free leaf from where it last found one.  It never goes back, so it must be
shown that what the search has passed is bound, and that it finds a free leaf as long as there is
one.
-/

/-- A key is contained when it is among the entries. -/
theorem FinMap.contains_iff_mem {ν : Type} {m : FinMap κ ν} {k : κ} :
    m.contains k ↔ k ∈ m.entries.map Prod.fst := by
  simp [FinMap.contains, FinMap.get?, List.lookup_isSome_iff]

namespace Table

/-- The search stops at a leaf that is not bound, or after as many as it may look at. -/
theorem firstFree_spec {ν : Type} (keys : FinMap Nat ν) (fuel index : Nat) :
    keys.contains (firstFree keys fuel index) = false ∨
      firstFree keys fuel index = index + fuel := by
  induction fuel generalizing index with
  | zero => exact .inr rfl
  | succ fuel ih =>
      rw [firstFree]
      split
      · rcases ih (index + 1) with hfree | heq
        · exact .inl hfree
        · exact .inr (by omega)
      · next hfree => exact .inl (by simpa using hfree)

/-- The search never goes back. -/
theorem le_firstFree {ν : Type} (keys : FinMap Nat ν) (fuel index : Nat) :
    index ≤ firstFree keys fuel index := by
  induction fuel generalizing index with
  | zero => exact Nat.le_refl _
  | succ fuel ih =>
      rw [firstFree]
      split
      · exact (Nat.le_succ _).trans (ih (index + 1))
      · exact Nat.le_refl _

/-- What the search has passed is bound. -/
theorem contains_of_lt_firstFree {ν : Type} {keys : FinMap Nat ν} {fuel index i : Nat}
    (hle : index ≤ i) (hlt : i < firstFree keys fuel index) : keys.contains i = true := by
  induction fuel generalizing index with
  | zero =>
      rw [firstFree] at hlt
      omega
  | succ fuel ih =>
      rw [firstFree] at hlt
      split at hlt
      · next hbound =>
          rcases Nat.eq_or_lt_of_le hle with rfl | h
          · exact hbound
          · exact ih h hlt
      · omega

/-- Looking at one leaf more than there are bound ones finds a free one. -/
theorem contains_firstFree {ν : Type} (keys : FinMap Nat ν) (index : Nat) :
    keys.contains (firstFree keys keys.size index) = false := by
  rcases firstFree_spec keys keys.size index with h | heq
  · exact h
  · by_contra hbound
    -- otherwise more leaves in a row were bound than there are bindings
    have hsub : List.range' index (keys.size + 1) ⊆ keys.entries.map Prod.fst := by
      intro i hi
      rw [List.mem_range'_1] at hi
      rw [← FinMap.contains_iff_mem]
      rcases Nat.lt_or_ge i (index + keys.size) with h | h
      · exact contains_of_lt_firstFree hi.1 (heq ▸ h)
      · obtain rfl : i = index + keys.size := by omega
        rwa [heq, Bool.not_eq_false] at hbound
    have hlen := (List.subperm_of_subset List.nodup_range' hsub).length_le
    rw [List.length_range', List.length_map, FinMap.size] at hlen
    omega

/-! ## Validity

A table keeps a tree, the records behind its leaves, and a binding between keys and leaves.
`Table.Valid` says how the three fit together, and every operation on tables is shown to keep it.
`Table.Extends` is what looking for leaves does: it adds bindings, and changes no record.
-/

variable {t t' : Table depth κ ρ} {keyOf : ρ → κ} {key : κ} {index : Nat}

/-- A table with the records of another, and its bindings among its own. -/
structure Extends (t t' : Table depth κ ρ) : Prop where
  records : t'.records.get? = t.records.get?
  find : ∀ key index, t.find? key = some index → t'.find? key = some index

theorem Extends.refl (t : Table depth κ ρ) : t.Extends t := ⟨rfl, fun _ _ h => h⟩

theorem Extends.trans {t'' : Table depth κ ρ} (h : t.Extends t') (h' : t'.Extends t'') :
    t.Extends t'' :=
  ⟨h'.records.trans h.records, fun key index hf => h'.find key index (h.find key index hf)⟩

/-- The record of a key is the one at its leaf. -/
theorem get?_eq (h : t.find? key = some index) : t.get? key = t.records.get? index := by
  rw [get?, h, Option.bind_some]

/-- Everything that a claim can do: the key is bound to the leaf, or neither is bound and
they are now. -/
theorem claim_eq_ok_iff : t.claim key index = .ok t' ↔
    (t.find? key = some index ∧ t' = t) ∨ (t.find? key = none ∧ t.keys.get? index = none ∧
      index < 2 ^ depth ∧ t' = t.bind key index) := by
  rw [claim]
  split
  · next bound hbound =>
      by_cases heq : bound = index
      · simp [hbound, heq, eq_comm]
      · simp [hbound, heq]
  · next hkey =>
      by_cases hfree : t.keys.get? index = none
      · by_cases hi : index < 2 ^ depth <;> simp [FinMap.contains, hkey, hfree, hi, eq_comm]
      · simp [FinMap.contains, hkey, Option.isSome_iff_ne_none.mpr hfree, hfree]

/-- A key may claim the leaf that it is bound to. -/
theorem claim_eq_ok (h : t.find? key = some index) : t.claim key index = .ok t :=
  claim_eq_ok_iff.mpr (.inl ⟨h, rfl⟩)

/-- Asking for the leaf of a key that has one changes nothing. -/
theorem index_of_bound (h : t.find? key = some index) : t.index key = (.ok index, t) := by
  rw [Table.index, h]

/-- Everything that asking for the leaf of a key can do: find it, bind the first free leaf
to the key, or find none free. -/
theorem index_cases (t : Table depth κ ρ) (key : κ) :
    (∃ i, t.find? key = some i ∧ t.index key = (.ok i, t)) ∨
      ∃ free, t.find? key = none ∧ t.keys.get? free = none ∧
        (∀ i, t.next ≤ i → i < free → ∃ k, t.keys.get? i = some k) ∧
        (free < 2 ^ depth ∧
            t.index key = (.ok free, { t.bind key free with next := free + 1 }) ∨
          2 ^ depth ≤ free ∧ t.index key = (.error (.full t.kind), { t with next := free })) := by
  rw [Table.index]
  split
  · next i hi => exact .inl ⟨i, hi, rfl⟩
  · next hkey =>
      refine .inr ⟨firstFree t.keys t.keys.size t.next, hkey, ?_, fun i hle hlt => ?_, ?_⟩
      · simpa [FinMap.contains] using contains_firstFree t.keys t.next
      · exact Option.isSome_iff_exists.mp (contains_of_lt_firstFree hle hlt)
      · simp only [Tree.capacity_eq]
        split
        · next hi => exact .inl ⟨hi, rfl⟩
        · next hi => exact .inr ⟨Nat.le_of_not_lt hi, rfl⟩

/-- Asking for the leaf of a key changes that of no other. -/
theorem find?_index_of_ne (t : Table depth κ ρ) {other : κ} (hne : other ≠ key) :
    (t.index key).2.find? other = t.find? other := by
  obtain ⟨i, -, heq⟩ | ⟨free, -, -, -, ⟨-, heq⟩ | ⟨-, heq⟩⟩ := t.index_cases key
  · rw [heq]
  · rw [heq]
    exact (FinMap.get?_insert _ _ _ _).trans (if_neg hne)
  · rw [heq]
    rfl

variable [Record ρ]

/-- What holds of a table at all times; `keyOf` gives the key that a record belongs to. -/
structure Valid (t : Table depth κ ρ) (keyOf : ρ → κ) : Prop where
  slots : ∀ key index, t.find? key = some index ↔ t.keys.get? index = some key
  bound : ∀ key index, t.find? key = some index → index < 2 ^ depth
  keyed : ∀ index r, t.records.get? index = some r → t.find? (keyOf r) = some index
  stores : t.tree.Stores t.records.get?

/-- A table without bindings is valid for any keys. -/
theorem valid_empty (kind : StateTree) (keyOf : ρ → κ) : (empty kind depth).Valid keyOf where
  slots _ _ := by simp [empty, find?]
  bound _ _ h := by simp [empty, find?] at h
  keyed _ _ h := by simp [empty] at h
  stores := .empty depth

namespace Valid

/-- A leaf has one key. -/
theorem key_unique (h : t.Valid keyOf) {key' : κ} (hkey : t.find? key = some index)
    (hkey' : t.find? key' = some index) : key = key' :=
  Option.some.inj (((h.slots _ _).mp hkey).symm.trans ((h.slots _ _).mp hkey'))

/-- More bindings change no lookup. -/
theorem get?_extends (h : t.Valid keyOf) (h' : t'.Valid keyOf) (hext : t.Extends t') :
    t'.get? = t.get? := by
  funext key
  cases hfind : t.find? key with
  | some index => rw [get?_eq (hext.find key index hfind), get?_eq hfind, hext.records]
  | none =>
      rw [get?, get?, hfind, Option.bind_none]
      cases hfind' : t'.find? key with
      | none => rfl
      | some index =>
          rw [Option.bind_some, hext.records]
          cases hr : t.records.get? index with
          | none => rfl
          | some r =>
              -- the leaf of a record was bound before, and to one key only
              have hold := h.keyed index r hr
              rw [h'.key_unique hfind' (hext.find _ _ hold), hold] at hfind
              contradiction

/-! ## Binding

A key gets a leaf in two ways.  It asks for one, and is bound to the first free leaf, or it
claims the leaf that a write names, which must be free or its own.
-/

/-- A key without a leaf may be bound to any leaf without a key. -/
theorem bind_spec (h : t.Valid keyOf) (hkey : t.find? key = none) (hfree : t.keys.get? index = none)
    (hi : index < 2 ^ depth) :
    (t.bind key index).Valid keyOf ∧ t.Extends (t.bind key index) ∧
      (t.bind key index).find? key = some index := by
  have hfind (k : κ) : (t.bind key index).find? k = if k = key then some index else t.find? k :=
    FinMap.get?_insert _ _ _ _
  have hkeys (i : Nat) : (t.bind key index).keys.get? i =
      if i = index then some key else t.keys.get? i := FinMap.get?_insert _ _ _ _
  have hext : t.Extends (t.bind key index) := by
    refine ⟨rfl, fun k i hk => ?_⟩
    rw [hfind, if_neg fun he => by rw [he, hkey] at hk; contradiction, hk]
  refine ⟨⟨fun k i => ?_, fun k i hk => ?_, fun i r hr => hext.find _ _ (h.keyed i r hr), h.stores⟩,
    hext, by rw [hfind, if_pos rfl]⟩
  · rw [hfind, hkeys]
    -- the new key and the new leaf have each other, and no one else
    by_cases hk : k = key <;> by_cases hi : i = index
    · simp [hk, hi]
    · have : t.keys.get? i ≠ some key := fun he => by
        rw [(h.slots _ _).mpr he] at hkey
        contradiction
      simp [hk, hi, this, Ne.symm hi]
    · have : t.find? k ≠ some index := fun he => by
        rw [(h.slots _ _).mp he] at hfree
        contradiction
      simp [hk, hi, this, Ne.symm hk]
    · rw [if_neg hk, if_neg hi]
      exact h.slots k i
  · rw [hfind] at hk
    split at hk
    · exact Option.some.inj hk ▸ hi
    · exact h.bound k i hk

/-- Asking for the leaf of a key binds it, and changes nothing else. -/
theorem index_spec (h : t.Valid keyOf) (key : κ) :
    (t.index key).2.Valid keyOf ∧ t.Extends (t.index key).2 ∧
      ∀ i, (t.index key).1 = .ok i → (t.index key).2.find? key = some i := by
  obtain ⟨i, hi, heq⟩ | ⟨free, hkey, hfree, -, ⟨hlt, heq⟩ | ⟨-, heq⟩⟩ := t.index_cases key
  · rw [heq]
    exact ⟨h, .refl t, fun j hj => by rw [hi, Except.ok.inj hj]⟩
  · obtain ⟨hvalid, hext, hfind⟩ := h.bind_spec hkey hfree hlt
    rw [heq]
    refine ⟨⟨hvalid.slots, hvalid.bound, hvalid.keyed, hvalid.stores⟩,
      ⟨hext.records, hext.find⟩, fun i hi => ?_⟩
    rw [← Except.ok.inj hi]
    exact hfind
  · rw [heq]
    exact ⟨⟨h.slots, h.bound, h.keyed, h.stores⟩, ⟨rfl, fun _ _ hk => hk⟩,
      fun i hi => by contradiction⟩

/-- Claiming a leaf for a key binds the two, if neither is bound elsewhere. -/
theorem claim_spec (h : t.Valid keyOf) (hclaim : t.claim key index = .ok t') :
    t'.Valid keyOf ∧ t.Extends t' ∧ t'.find? key = some index := by
  obtain ⟨hbound, rfl⟩ | ⟨hkey, hfree, hi, rfl⟩ := claim_eq_ok_iff.mp hclaim
  · exact ⟨h, .refl _, hbound⟩
  · exact h.bind_spec hkey hfree hi

end Valid

/-! ## Writing

A write claims its leaf and returns what was there, so that it can be put back.  Putting it back
restores tree and records, but not the binding: the undone table extends the one before, and is
not always equal to it.
-/

/-- Putting a record at a leaf leaves the keys alone. -/
theorem find?_restore (t : Table depth κ ρ) (index : Nat) (r : Option ρ) (key : κ) :
    (t.restore index r).find? key = t.find? key := rfl

omit [DecidableEq κ] in
/-- Putting a record at a leaf changes the record of that leaf, or takes it away. -/
theorem records_restore (t : Table depth κ ρ) (index : Nat) (r : Option ρ) :
    (t.restore index r).records.get? = Function.update t.records.get? index r := by
  funext i
  rw [Function.update_apply]
  cases r with
  | none => exact FinMap.get?_erase _ _ _
  | some r => exact FinMap.get?_insert _ _ _ _

/-- A write claims the leaf for the key and puts the record there. -/
theorem write_eq_ok_iff {r : ρ} {prior : Option ρ} :
    t.write key index r = .ok (t', prior) ↔ ∃ claimed, t.claim key index = .ok claimed ∧
      index < 2 ^ depth ∧ t' = claimed.restore index (some r) ∧
      prior = claimed.records.get? index := by
  simp only [write, bind_eq_ok_iff, mapError_eq_ok_iff, pure_eq_ok_iff, Prod.mk.injEq]
  constructor
  · rintro ⟨claimed, hclaim, tree, hset, rfl, rfl⟩
    obtain ⟨hi, rfl⟩ := Tree.lt_of_setLeaf_eq_ok hset
    exact ⟨claimed, hclaim, hi, rfl, rfl⟩
  · rintro ⟨claimed, hclaim, hi, rfl, rfl⟩
    exact ⟨claimed, hclaim, _, Tree.setLeaf_eq_ok hi _, rfl, rfl⟩

namespace Valid

/-- A record may be put at the leaf of its key, and any leaf may be cleared. -/
theorem restore (h : t.Valid keyOf) (hi : index < 2 ^ depth) {r : Option ρ}
    (hr : ∀ r' ∈ r, t.find? (keyOf r') = some index) : (t.restore index r).Valid keyOf where
  slots := h.slots
  bound := h.bound
  keyed i r' hr' := by
    rw [records_restore, Function.update_apply] at hr'
    split at hr'
    · next heq => exact heq ▸ hr r' hr'
    · exact h.keyed i r' hr'
  stores := by
    rw [records_restore]
    exact h.stores.rehash hi r

/-- What a write does: the key is bound to the leaf, where it had the record that the
write gives back, and has the new record now. -/
theorem write_spec (h : t.Valid keyOf) {r : ρ} {prior : Option ρ}
    (hwrite : t.write (keyOf r) index r = .ok (t', prior)) :
    t'.Valid keyOf ∧ index < 2 ^ depth ∧ prior = t.records.get? index ∧
      prior = t.get? (keyOf r) ∧ t'.find? (keyOf r) = some index ∧
      (∀ k i, t.find? k = some i → t'.find? k = some i) ∧
      t'.records.get? = Function.update t.records.get? index (some r) ∧
      t'.get? = Function.update t.get? (keyOf r) (some r) := by
  obtain ⟨claimed, hclaim, hi, rfl, rfl⟩ := write_eq_ok_iff.mp hwrite
  obtain ⟨hvalid, hext, hfind⟩ := h.claim_spec hclaim
  have hget := h.get?_extends hvalid hext
  refine ⟨hvalid.restore hi fun r' hr' => Option.some.inj hr' ▸ hfind, hi, by rw [hext.records],
    by rw [← hget, get?_eq hfind], hfind, hext.find, by rw [records_restore, hext.records], ?_⟩
  funext k
  rw [← hget, Function.update_apply, get?, find?_restore, records_restore]
  split
  · next heq => rw [heq, hfind, Option.bind_some, Function.update_self]
  -- any other key stands at another leaf, which was not written
  · next hne =>
      rw [get?]
      cases hk : claimed.find? k with
      | none => rfl
      | some i =>
          have hother : i ≠ index := fun he => hne (hvalid.key_unique (he ▸ hk) hfind)
          rw [Option.bind_some, Option.bind_some, Function.update_of_ne hother]

/-- A key that is bound to a leaf can be written there. -/
theorem write_of_bound (h : t.Valid keyOf) (hfind : t.find? key = some index) (r : ρ) :
    t.write key index r = .ok (t.restore index (some r), t.records.get? index) :=
  write_eq_ok_iff.mpr ⟨t, claim_eq_ok hfind, h.bound key index hfind, rfl, rfl⟩

/-- Putting back what a write replaced undoes it up to bindings, also when the table has
gained others since. -/
theorem undo_write (h : t.Valid keyOf) {r : ρ} {prior : Option ρ}
    (hwrite : t.write (keyOf r) index r = .ok (t', prior)) {t'' : Table depth κ ρ}
    (h'' : t''.Valid keyOf) (hext : t'.Extends t'') :
    (t''.restore index prior).Valid keyOf ∧ t.Extends (t''.restore index prior) := by
  obtain ⟨-, hi, rfl, -, -, hfind, hrecords, -⟩ := h.write_spec hwrite
  have hfind'' {k : κ} {i : Nat} (hk : t.find? k = some i) : t''.find? k = some i :=
    hext.find k i (hfind k i hk)
  refine ⟨h''.restore hi fun r' hr' => hfind'' (h.keyed index r' hr'), ⟨?_, fun k i => hfind''⟩⟩
  rw [records_restore, hext.records, hrecords, Function.update_idem, Function.update_eq_self]

end Valid

/-! ## Witnesses

What a table gives as a witness opens its tree at the leaf of the key.  The path of a leaf stays
good while only bindings are added, as these are not in the tree.
-/

/-- A witness of the leaf that a key is bound to. -/
structure OpenedAt (t : Table depth κ ρ) (key : κ) (w : Witness) : Prop where
  find : t.find? key = some w.index.toNat
  opens : w.Opens (leavesOf t.records.get?) depth

/-- A witness of the leaves that two keys are bound to, with the flags that its paths call for. -/
structure OpenedAtBoth (t : Table depth κ ρ) (key key' : κ) (w : DoubleWitness) : Prop where
  first : t.find? key = some w.indexes.1.toNat
  second : t.find? key' = some w.indexes.2.toNat
  ne : w.indexes.1 ≠ w.indexes.2
  flags : w.meets = w.expectedFlags
  opens : w.Opens (leavesOf t.records.get?) depth

/-- A witness stays good while only bindings are added. -/
theorem OpenedAt.extends {w : Witness} (h : t.OpenedAt key w) (hext : t.Extends t') :
    t'.OpenedAt key w :=
  ⟨hext.find _ _ h.find, hext.records ▸ h.opens⟩

namespace Valid

/-- The record of a key is keyed by it. -/
theorem keyOf_eq (h : t.Valid keyOf) {r : ρ} (hr : t.get? key = some r) : keyOf r = key := by
  obtain ⟨index, hfind, hrecord⟩ := Option.bind_eq_some_iff.mp hr
  exact h.key_unique (h.keyed index r hrecord) hfind

/-- The path of a leaf that a key is bound to opens it. -/
theorem openedAt_path (h : t.Valid keyOf) (hd : depth ≤ 64) (hfind : t.find? key = some index) :
    t.OpenedAt key ⟨t.tree.path index⟩ := by
  have hi := h.bound key index hfind
  have hover := h.stores.tree_over
  have hindex : (⟨t.tree.path index⟩ : Witness).index.toNat = index :=
    (Witness.toNat_index ((hover.length_path hi).trans_le hd)).trans (hover.pathPosition_path hi)
  exact ⟨by rw [hindex, hfind], hover.opens_witness hi⟩

/-- A bound leaf is in range, so its witness is the path to it. -/
theorem witness_eq_ok (h : t.Valid keyOf) (hfind : t.find? key = some index) :
    t.witness index = .ok ⟨t.tree.path index⟩ := by
  rw [witness, Tree.witness_eq_ok (h.bound key index hfind)]
  rfl

/-- The witness of a leaf that a key is bound to. -/
theorem witness_spec (h : t.Valid keyOf) (hd : depth ≤ 64) (hfind : t.find? key = some index)
    {w : Witness} (hw : t.witness index = .ok w) : t.OpenedAt key w := by
  rw [h.witness_eq_ok hfind] at hw
  exact Except.ok.inj hw ▸ h.openedAt_path hd hfind

/-- The path of a leaf folds what stands there to the root. -/
theorem root_path (h : t.Valid keyOf) (hi : index < 2 ^ depth) :
    (⟨t.tree.path index⟩ : Witness).root (Record.leafOrEmpty (t.records.get? index)) = t.root := by
  have hover := h.stores.tree_over
  have hleaf : Record.leafOrEmpty (t.records.get? index) =
      leavesOf t.records.get? (pathPosition (t.tree.path index)) := by
    rw [hover.pathPosition_path hi, leavesOf]
  rw [(hover.opens_witness hi).root_eq, hleaf, Function.update_eq_self, root, h.stores.root_eq]

/-- The path of a leaf folds what is written there to the root after the write. -/
theorem root_write (h : t.Valid keyOf) {r : ρ} {prior : Option ρ}
    (hwrite : t.write (keyOf r) index r = .ok (t', prior)) :
    (⟨t.tree.path index⟩ : Witness).root (Record.leaf r) = t'.root := by
  obtain ⟨hvalid, hi, -, -, -, -, hrecords, -⟩ := h.write_spec hwrite
  have hover := h.stores.tree_over
  rw [(hover.opens_witness hi).root_eq, hover.pathPosition_path hi, root, hvalid.stores.root_eq,
    hrecords, leavesOf_update]
  rfl

/-- The witness of the leaves that two keys are bound to. -/
theorem doubleWitness_spec (h : t.Valid keyOf) (hd : depth ≤ 64) {key' : κ} {index' : Nat}
    (hfind : t.find? key = some index) (hfind' : t.find? key' = some index') {w : DoubleWitness}
    (hw : t.doubleWitness index index' = .ok w) : t.OpenedAtBoth key key' w := by
  have hi := h.bound key index hfind
  have hi' := h.bound key' index' hfind'
  have hover := h.stores.tree_over
  rw [doubleWitness, mapError_eq_ok_iff] at hw
  -- one leaf has no witness of two
  by_cases hne : index = index'
  · rw [hne, Tree.doubleWitness_self hi'] at hw
    contradiction
  · rw [Tree.doubleWitness_eq_ok hi hi' hne] at hw
    obtain rfl := Except.ok.inj hw
    have hopens := hover.opens_doubleWitness hd hi hi' hne
    have hfirst := hopens.fits.toNat_indexes_fst hd
    have hsecond := hopens.fits.toNat_indexes_snd hd
    rw [hover.pathPosition_path hi] at hfirst
    rw [hover.pathPosition_path hi'] at hsecond
    refine ⟨by rw [hfirst, hfind], by rw [hsecond, hfind'], fun he => hne ?_,
      hover.flags_doubleWitness hi hi', hopens⟩
    exact hfirst.symm.trans ((congrArg UInt64.toNat he).trans hsecond)

end Valid

end Table

end AmmRollup
