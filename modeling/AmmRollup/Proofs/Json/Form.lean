import AmmRollup.Proofs.Json.RoundTrip
import AmmRollup.Store.Cursors
import Mathlib.Data.List.Nodup

/-!
# AmmRollup.Proofs.Json.Form

Forms that read back.  A value reads back from its form when that is plain and stands
for nothing else; then it also reads back from its text.  A type whose values all do so is
a `LawfulForm`, and what is built of such types is one again: lists, optional values,
records, as their fields have different names, and choices.

What a node keeps in JSON reads back: its settlement always, and its cursors as long as
they are numbers of 64 bits.
-/

namespace AmmRollup

open Json

namespace Json

/-- A value reads back from its form. -/
structure ReadsBack {α : Type} [JsonForm α] (a : α) : Prop where
  plain : (toJson a).Plain
  ofJson?_toJson : ofJson? (toJson a) = some a

/-- A type whose values all read back from their forms. -/
class LawfulForm (α : Type) [JsonForm α] : Prop where
  readsBack : ∀ a : α, ReadsBack a

variable {α : Type} [JsonForm α]

/-- A value that reads back from its form reads back from its text, whatever the layout. -/
theorem ReadsBack.read?_render {a : α} (h : ReadsBack a) (layout : Layout) :
    read? (render layout (toJson a)) = some a := by
  rw [read?, parse?_render _ h.plain, Option.bind_some, h.ofJson?_toJson]

theorem ReadsBack.read?_prettyBytes {a : α} (h : ReadsBack a) :
    read? (prettyBytes a) = some a :=
  h.read?_render _

@[simp] theorem plain_toJson [LawfulForm α] (a : α) : (toJson a).Plain :=
  (LawfulForm.readsBack a).plain

@[simp] theorem ofJson?_toJson [LawfulForm α] (a : α) : ofJson? (toJson a) = some a :=
  (LawfulForm.readsBack a).ofJson?_toJson

@[simp] theorem required?_toJson [LawfulForm α] (a : α) : required? (some (toJson a)) = some a :=
  ofJson?_toJson a

@[simp] theorem optional?_toJson [LawfulForm (Option α)] (a : Option α) :
    optional? (some (toJson a)) = some a :=
  ofJson?_toJson a

/-! ## Plain values

Numbers are bounded by their type, and are read as such.
-/

theorem nat?_number {bound n : Nat} (h : n < bound) : nat? bound (.number n) = some n :=
  if_pos h

instance : LawfulForm Bool where
  readsBack _ := ⟨trivial, rfl⟩

instance : LawfulForm String where
  readsBack _ := ⟨rfl, rfl⟩

instance : LawfulForm UInt8 where
  readsBack b := by
    refine ⟨trivial, ?_⟩
    show (nat? (1 <<< 8) (.number b.toNat)).map UInt8.ofNat = some b
    rw [nat?_number (show b.toNat < 1 <<< 8 from b.toNat_lt), Option.map_some, UInt8.ofNat_toNat]

instance : LawfulForm UInt64 where
  readsBack n := by
    refine ⟨trivial, ?_⟩
    show (nat? (1 <<< 64) (.number n.toNat)).map UInt64.ofNat = some n
    rw [nat?_number (show n.toNat < 1 <<< 64 from n.toNat_lt), Option.map_some, UInt64.ofNat_toNat]

instance : LawfulForm Points where
  readsBack n := by
    refine ⟨trivial, ?_⟩
    show (nat? (1 <<< 128) (.number n.toNat)).map (BitVec.ofNat 128) = some n
    rw [nat?_number (show n.toNat < 1 <<< 128 from n.isLt), Option.map_some, BitVec.ofNat_toNat,
      BitVec.setWidth_eq]

/-! ## Lists

A list reads back when its elements do.
-/

theorem plainItems_map [LawfulForm α] (xs : List α) : PlainItems (xs.map toJson) := by
  induction xs with
  | nil => trivial
  | cons x xs ih => exact ⟨plain_toJson x, ih⟩

instance [LawfulForm α] : LawfulForm (List α) where
  readsBack xs := by
    refine ⟨plainItems_map xs, ?_⟩
    show (xs.map toJson).mapM ofJson? = some xs
    induction xs with
    | nil => rfl
    | cons x xs ih =>
      rw [List.map_cons, List.mapM_cons, ofJson?_toJson, ih]
      rfl

instance : LawfulForm Bytes32 where
  readsBack x := by
    refine ⟨plain_toJson x.toBytes, ?_⟩
    show (ofJson? (toJson x.toBytes) >>= Bytes32.ofBytes?) = some x
    rw [ofJson?_toJson]
    exact Bytes32.ofBytes?_toBytes x

/-! ## Optional values

A value that is not there is written as null, so a value must not be written so itself.
-/

/-- A type none of whose values is written as `null`. -/
class NeverNull (α : Type) [JsonForm α] : Prop where
  toJson_ne_null : ∀ a : α, toJson a ≠ .null

theorem optional?_of_ne_null {j : Json} (h : j ≠ .null) :
    (optional? (some j) : Option (Option α)) = (ofJson? j).map some := by
  cases j with
  | null => exact absurd rfl h
  | _ => rfl

instance [LawfulForm α] [NeverNull α] : LawfulForm (Option α) where
  readsBack a := by
    cases a with
    | none => exact ⟨trivial, rfl⟩
    | some a =>
      have hread : (optional? (some (toJson a)) : Option (Option α)) = some (some a) := by
        rw [optional?_of_ne_null (NeverNull.toJson_ne_null a), ofJson?_toJson, Option.map_some]
      exact ⟨plain_toJson a, hread⟩

instance : NeverNull UInt64 where
  toJson_ne_null := nofun

instance : NeverNull Points where
  toJson_ne_null := nofun

instance : NeverNull String where
  toJson_ne_null := nofun

/-! ## Records

A record is written as fields with names.  It is read by looking each name up, which finds the
right field as the names are different.
-/

theorem plain_record {fields : List (String × Json)} (h : ∀ f ∈ fields, f.2.Plain) :
    (Json.record fields).Plain := by
  show PlainFields (fields.map fun f => (some f.1, f.2))
  induction fields with
  | nil => trivial
  | cons f fields ih =>
    exact ⟨rfl, h f List.mem_cons_self, ih fun g hg => h g (List.mem_cons_of_mem _ hg)⟩

/-- Under a name that occurs once its own field is found. -/
private theorem lookup_record {fields : List (String × Json)} {f : String × Json}
    (hnames : (fields.map (·.1)).Nodup) (hf : f ∈ fields) :
    (fields.map fun f => (some f.1, f.2)).lookup (some f.1) = some f.2 := by
  induction fields with
  | nil => cases hf
  | cons g fields ih =>
    obtain ⟨hfresh, hrest⟩ := List.nodup_cons.mp hnames
    rcases List.mem_cons.mp hf with rfl | hf
    · exact List.lookup_cons_self
    · have hne : f.1 ≠ g.1 := fun he => hfresh (List.mem_map.mpr ⟨f, hf, he⟩)
      rw [List.map_cons, List.lookup_cons, beq_eq_false_iff_ne.mpr (by simpa using hne)]
      exact ih hrest hf

/-- The fields of a record are found by their names, as these differ. -/
theorem fields?_record {names : List String} {fields : List (String × Json)}
    (hnames : fields.map (·.1) = names) (hnodup : names.Nodup) :
    fields? names (.record fields) = some (fields.map fun f => some f.2) := by
  subst hnames
  have hreadable : (fields.map fun f => ((some f.1 : Option String), f.2)).all
      (fun f => f.1.isSome) := by simp
  -- names that differ occur once each
  have honce : (fields.map (·.1)).all fun n =>
      ((fields.map fun f => ((some f.1 : Option String), f.2)).filter
        fun f => f.1 = some n).length ≤ 1 := by
    refine List.all_eq_true.mpr fun n _ => decide_eq_true ?_
    calc _ = (fields.map (·.1)).count n := by
          rw [List.filter_map, List.length_map, List.count, List.countP_map,
            List.countP_eq_length_filter]
          simp [Function.comp_def, beq_eq_decide]
      _ ≤ 1 := List.nodup_iff_count_le_one.mp hnodup n
  rw [Json.record, fields?, if_pos ⟨hreadable, honce⟩, List.map_map]
  congr 1
  exact List.map_congr_left fun f hf => lookup_record hnodup hf

/-- **Records.**  A record is read back when its fields have different names and what is built
of their forms is the record again. -/
theorem ReadsBack.record {a : α} {names : List String} {fields : List (String × Json)}
    {build : List (Option Json) → Option α} (hform : toJson a = .record fields)
    (hread : ∀ j, ofJson? j = (fields? names j).bind build) (hnames : fields.map (·.1) = names)
    (hnodup : names.Nodup) (hplain : ∀ f ∈ fields, f.2.Plain)
    (hbuild : build (fields.map fun f => some f.2) = some a) : ReadsBack a := by
  refine ⟨hform ▸ plain_record hplain, ?_⟩
  rw [hform, hread, fields?_record hnames hnodup, Option.bind_some, hbuild]

/-! ## Choices

A choice is written as a record of one field, the name of the variant.
-/

@[simp] theorem variant?_record (name : String) (contents : Json) :
    variant? (.record [(name, contents)]) = some (name, some contents) := rfl

/-- **Choices.**  A variant is read back when what is built of its name and the form of its
contents is the variant again. -/
theorem ReadsBack.variant {a : α} {name : String} {contents : Json}
    {build : String × Option Json → Option α} (hform : toJson a = .record [(name, contents)])
    (hread : ∀ j, ofJson? j = (variant? j).bind build) (hplain : contents.Plain)
    (hbuild : build (name, some contents) = some a) : ReadsBack a := by
  refine ⟨hform ▸ plain_record (by simpa using hplain), ?_⟩
  rw [hform, hread, variant?_record, Option.bind_some, hbuild]

end Json

/-! ## What a node keeps

The settlement and the cursors are the two JSON files of a node.  The counts among the cursors
are natural numbers here and are written whole, and reading them asks for 64 bits.
-/

instance : LawfulForm StateRoots where
  readsBack _ := by
    apply ReadsBack.record rfl (fun _ => rfl) rfl
    case hnodup => simp
    case hplain => simp
    case hbuild => simp

instance : LawfulForm Settlement where
  readsBack _ := by
    apply ReadsBack.record rfl (fun _ => rfl) rfl
    case hnodup => simp
    case hplain => simp
    case hbuild => simp

namespace Cursors

/-- Whether all four numbers fit into 64 bits. -/
def Fits (c : Cursors) : Prop :=
  c.proofCount < 1 <<< 64 ∧ c.window.start < 1 <<< 64 ∧ c.window.stop < 1 <<< 64 ∧
    c.settledUntil < 1 <<< 64

theorem count?_number {n : Nat} (h : n < 1 <<< 64) : count? (some (.number n)) = some n :=
  nat?_number h

theorem readsBack {c : Cursors} (h : c.Fits) : ReadsBack c := by
  have hfields : Cursors.fields? (toJson c) =
      some [some (.number c.proofCount), some (.number c.window.start),
        some (.number c.window.stop), some (.number c.settledUntil)] := by
    show Json.fields? fieldNames (toJson c) = _
    exact fields?_record rfl (by simp [fieldNames])
  refine ⟨plain_record ?_, ?_⟩
  · simp [Plain]
  · show (Cursors.fields? (toJson c)).bind _ = _
    obtain ⟨hcount, hstart, hstop, hsettled⟩ := h
    rw [hfields]
    simp only [Option.bind_some, count?_number hcount, count?_number hstart, count?_number hstop,
      count?_number hsettled, Option.bind_eq_bind, Option.pure_def]

/-- A count that is read has 64 bits. -/
theorem lt_of_count? {j : Option Json} {n : Nat} (h : count? j = some n) : n < 1 <<< 64 := by
  cases j with
  | none => exact Option.some.inj h ▸ (by decide : 0 < 1 <<< 64)
  | some j =>
    cases j with
    | number k =>
      rw [count?, nat?] at h
      split at h
      · exact Option.some.inj h ▸ ‹_›
      · cases h
    | _ => cases h

/-- Cursors that are read fit into 64 bits. -/
theorem fits_of_read? {text : Bytes} {c : Cursors} (h : read? text = some c) : c.Fits := by
  obtain ⟨j, -, h⟩ := Option.bind_eq_some_iff.mp h
  obtain ⟨fields, -, h⟩ := Option.bind_eq_some_iff.mp h
  split at h
  · obtain ⟨count, hcount, h⟩ := Option.bind_eq_some_iff.mp h
    obtain ⟨start, hstart, h⟩ := Option.bind_eq_some_iff.mp h
    obtain ⟨stop, hstop, h⟩ := Option.bind_eq_some_iff.mp h
    obtain ⟨settled, hsettled, h⟩ := Option.bind_eq_some_iff.mp h
    obtain rfl := Option.some.inj h
    exact ⟨lt_of_count? hcount, lt_of_count? hstart, lt_of_count? hstop, lt_of_count? hsettled⟩
  · cases h

end Cursors

end AmmRollup
