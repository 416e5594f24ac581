import AmmRollup.Proofs.Json.Form
import AmmRollup.Proofs.Text

/-!
# AmmRollup.Proofs.Json.Types

The forms of the library's types read back.  Each type is a record or a choice of types
that come before it, down to numbers, texts and lists of bytes, so its form is lawful
because theirs are.

An account record has no form of its own, as its account goes by another name in each of
its uses.

* `forms_round_trip` — every value is read back from its text on one line, and the texts
  that are read as addresses.
-/

namespace AmmRollup

open Json

/-! ## Addresses and records

Each instance names the record or the choice that a type is; that its parts read back is known
already.
-/

instance : LawfulForm Address where
  readsBack a := by
    refine ⟨rfl, ?_⟩
    show (Address.parse a.text).toOption = some a
    rw [Address.parse_eq_ok_iff.mpr rfl]
    rfl

@[simp] theorem plain_accountToJson (name : String) (r : AccountRecord) :
    (accountToJson name r).Plain :=
  plain_record (by simp)

/-- An account record is read back under any name that differs from its other fields'. -/
@[simp] theorem accountOfJson?_accountToJson {name : String} (hname : name ∉ ["token", "amount"])
    (r : AccountRecord) : accountOfJson? name (accountToJson name r) = some r := by
  have hnodup : [name, "token", "amount"].Nodup := by simpa using hname
  show (fields? [name, "token", "amount"] (.record _)).bind _ = _
  rw [fields?_record ?_ hnodup]
  · simp
  · rfl

instance : LawfulForm Pool where
  readsBack _ := by
    apply ReadsBack.record rfl (fun _ => rfl) rfl
    case hnodup => simp
    case hplain => simp
    case hbuild => simp

instance : LawfulForm Liquidity where
  readsBack _ := by
    apply ReadsBack.record rfl (fun _ => rfl) rfl
    case hnodup => simp
    case hplain => simp
    case hbuild => simp

instance : LawfulForm Method where
  readsBack m := by
    refine ⟨rfl, ?_⟩
    cases m <;> rfl

instance : LawfulForm Proof where
  readsBack _ := by
    apply ReadsBack.record rfl (fun _ => rfl) rfl
    case hnodup => simp
    case hplain => simp
    case hbuild => simp

instance : LawfulForm LeafValue where
  readsBack value := by
    cases value with
    | balance | burn | pool | liquidity =>
      apply ReadsBack.variant rfl (fun _ => rfl)
      case hplain => simp
      case hbuild => simp

instance : LawfulForm LeafWrite where
  readsBack _ := by
    apply ReadsBack.record rfl (fun _ => rfl) rfl
    case hnodup => simp
    case hplain => simp
    case hbuild => simp

/-! ## Steps -/

instance : LawfulForm Sibling where
  readsBack _ := by
    apply ReadsBack.record rfl (fun _ => rfl) rfl
    case hnodup => simp
    case hplain => simp
    case hbuild => simp

instance : LawfulForm Witness where
  readsBack _ := by
    apply ReadsBack.record rfl (fun _ => rfl) rfl
    case hnodup => simp
    case hplain => simp
    case hbuild => simp

instance : LawfulForm DoubleWitness where
  readsBack _ := by
    apply ReadsBack.record rfl (fun _ => rfl) rfl
    case hnodup => simp
    case hplain => simp
    case hbuild => simp

instance : LawfulForm Ed25519.Signature where
  readsBack _ := by
    apply ReadsBack.record rfl (fun _ => rfl) rfl
    case hnodup => simp
    case hplain => simp
    case hbuild => simp

instance : LawfulForm DepositArgs where
  readsBack _ := by
    apply ReadsBack.record rfl (fun _ => rfl) rfl
    case hnodup => simp
    case hplain => simp
    case hbuild => simp

instance : LawfulForm BurnArgs where
  readsBack _ := by
    apply ReadsBack.record rfl (fun _ => rfl) rfl
    case hnodup => simp
    case hplain => simp
    case hbuild => simp

instance : LawfulForm CreatePoolArgs where
  readsBack _ := by
    apply ReadsBack.record rfl (fun _ => rfl) rfl
    case hnodup => simp
    case hplain => simp
    case hbuild => simp

instance : LawfulForm ProvideArgs where
  readsBack _ := by
    apply ReadsBack.record rfl (fun _ => rfl) rfl
    case hnodup => simp
    case hplain => simp
    case hbuild => simp

instance : LawfulForm RemoveArgs where
  readsBack _ := by
    apply ReadsBack.record rfl (fun _ => rfl) rfl
    case hnodup => simp
    case hplain => simp
    case hbuild => simp

instance : LawfulForm SwapArgs where
  readsBack _ := by
    apply ReadsBack.record rfl (fun _ => rfl) rfl
    case hnodup => simp
    case hplain => simp
    case hbuild => simp

instance : LawfulForm Transition where
  readsBack t := by
    cases t with
    | genesis => exact ⟨rfl, rfl⟩
    | deposit | burn | createPool | provideLiquidity | removeLiquidity | buy | sell =>
      apply ReadsBack.variant rfl (fun _ => rfl)
      case hplain => simp
      case hbuild => simp

/-! ## Bridge and settings -/

instance : LawfulForm BridgeEvent where
  readsBack event := by
    cases event with
    | depositRecorded | depositsApplied | withdrawn =>
      -- what the event says is a record of its own
      apply ReadsBack.variant rfl (fun _ => rfl)
      case hplain => exact plain_record (by simp)
      case hbuild => simp [fields?_record]

instance : LawfulForm WithdrawRequest where
  readsBack _ := by
    apply ReadsBack.record rfl (fun _ => rfl) rfl
    case hnodup => simp
    case hplain => simp
    case hbuild => simp

instance : LawfulForm ProverMode where
  readsBack mode := by
    cases mode <;> exact ⟨rfl, rfl⟩

instance : LawfulForm ProverConfig where
  readsBack _ := by
    apply ReadsBack.record rfl (fun _ => rfl) rfl
    case hnodup => simp
    case hplain => simp
    case hbuild => simp

instance : LawfulForm Config where
  readsBack _ := by
    apply ReadsBack.record rfl (fun _ => rfl) rfl
    case hnodup => simp
    case hplain => simp
    case hbuild => simp

/-! ## Texts on one line

What is written on one line is read as the value.  An address is stricter than the form of a
text: it is read from its own text only.
-/

/-- Whether every value of a type is read back from its text on one line. -/
def Json.RoundTrips (α : Type) [JsonForm α] : Prop :=
  ∀ a : α, read? (compactBytes a) = some a

/-- Every value of a lawful type is read back from its text on one line. -/
theorem Json.roundTrips (α : Type) [JsonForm α] [LawfulForm α] : RoundTrips α := fun a =>
  (LawfulForm.readsBack a).read?_render _

/-- A text in quotes is read as the address that it is. -/
theorem Address.read?_compactBytes (s : String) :
    read? (compactBytes s) = (Address.parse s).toOption := by
  rw [read?, compactBytes, parse?_render _ (plain_toJson s), Option.bind_some]
  rfl

/-- A balance is read back from its text on one line. -/
theorem balanceOfJson?_render (r : AccountRecord) :
    (parse? (render .compact (balanceToJson r))).bind balanceOfJson? = some r := by
  have hplain : (balanceToJson r).Plain := plain_accountToJson "owner" r
  rw [parse?_render _ hplain, Option.bind_some]
  exact accountOfJson?_accountToJson (by simp) r

/-- **Round trips.**  Every value is read back from its text on one line.  The texts that are
read as addresses are those of 55 bytes that are `B62` and 52 lowercase hexadecimal digits,
and an address that is read is written as the text it was read from. -/
theorem forms_round_trip :
    (RoundTrips Address ∧
      (∀ r : AccountRecord,
        (parse? (render .compact (balanceToJson r))).bind balanceOfJson? = some r) ∧
      RoundTrips Pool ∧ RoundTrips Liquidity ∧ RoundTrips StateRoots ∧ RoundTrips Proof ∧
      RoundTrips LeafWrite ∧ RoundTrips Transition ∧ RoundTrips Settlement ∧
      RoundTrips BridgeEvent ∧ RoundTrips WithdrawRequest ∧ RoundTrips Config) ∧
    (∀ s : String, (∃ a, Address.parse s = .ok a) ↔ Address.Spelled s) ∧
    (∀ (s : String) (a : Address), Address.parse s = .ok a ↔ s = a.text) ∧
    ∀ s : String, read? (compactBytes s) = (Address.parse s).toOption :=
  ⟨⟨roundTrips _, balanceOfJson?_render, roundTrips _, roundTrips _, roundTrips _, roundTrips _,
      roundTrips _, roundTrips _, roundTrips _, roundTrips _, roundTrips _, roundTrips _⟩,
    fun _ => Address.exists_parse_iff, fun _ _ => Address.parse_eq_ok_iff,
    Address.read?_compactBytes⟩

end AmmRollup
