import AmmRollup.Bridge
import AmmRollup.Config
import AmmRollup.Json.Parser
import AmmRollup.Settlement
import AmmRollup.Transition.Basic

/-!
# AmmRollup.Json.Form

The JSON forms of the library's types.  A record is an object of its fields in order,
or an array of them; fields it does not know are passed over, and an optional field
may be missing or `null`.  A choice is the name of its variant, or an object whose
only field is that name with the variant's contents.  Byte strings are arrays of
numbers, and amounts, points and counts are whole numbers within their width.
-/

namespace AmmRollup

/-- A type with a JSON form. -/
class JsonForm (α : Type) where
  toJson : α → Json
  ofJson? : Json → Option α

export JsonForm (toJson ofJson?)

namespace Json

/-! ## Records -/

/-- The fields of a record by their names.  All names in an object must be readable, and
none of those asked for may be written twice; an array must have all fields. -/
def fields? (names : List String) : Json → Option (List (Option Json))
  | .array items => if items.length = names.length then some (items.map some) else none
  | .object fields =>
      if fields.all (fun f => f.1.isSome) ∧
          names.all (fun n => (fields.filter fun f => f.1 = some n).length ≤ 1) then
        some (names.map fun n => fields.lookup (some n))
      else none
  | _ => none

/-- A field that must be there. -/
def required? {α : Type} [JsonForm α] (field : Option Json) : Option α :=
  field.bind ofJson?

/-- A field that may be missing or `null`. -/
def optional? {α : Type} [JsonForm α] : Option Json → Option (Option α)
  | none | some .null => some none
  | some v => (ofJson? v).map some

/-! ## Choices -/

/-- The variant of a choice, and its contents if there are any. -/
def variant? : Json → Option (String × Option Json)
  | .string (some name) => some (name, none)
  | .object [(some name, contents)] => some (name, some contents)
  | _ => none

/-- A variant with contents. -/
def tagged {α : Type} [JsonForm α] (name : String) (contents : α) : Json :=
  .record [(name, toJson contents)]

/-- The contents of a variant that has none: nothing, or `null`. -/
def noContents? : Option Json → Option Unit
  | none | some .null => some ()
  | _ => none

end Json

open Json

/-! ## Plain values -/

/-- A whole number below a bound. -/
def Json.nat? (bound : Nat) : Json → Option Nat
  | .number n => if n < bound then some n else none
  | _ => none

instance : JsonForm Bool where
  toJson := .bool
  ofJson?
    | .bool b => some b
    | _ => none

instance : JsonForm String where
  toJson := .text
  ofJson?
    | .string s => s
    | _ => none

instance : JsonForm UInt8 where
  toJson b := .number b.toNat
  ofJson? j := (j.nat? (1 <<< 8)).map UInt8.ofNat

instance : JsonForm UInt64 where
  toJson n := .number n.toNat
  ofJson? j := (j.nat? (1 <<< 64)).map UInt64.ofNat

instance : JsonForm Points where
  toJson n := .number n.toNat
  ofJson? j := (j.nat? (1 <<< 128)).map (BitVec.ofNat 128)

instance {α : Type} [JsonForm α] : JsonForm (List α) where
  toJson xs := .array (xs.map toJson)
  ofJson?
    | .array items => items.mapM ofJson?
    | _ => none

instance {α : Type} [JsonForm α] : JsonForm (Option α) where
  toJson
    | none => .null
    | some a => toJson a
  ofJson? j := optional? (some j)

instance : JsonForm Bytes32 where
  toJson x := toJson x.toBytes
  ofJson? j := do Bytes32.ofBytes? (← ofJson? j)

instance : JsonForm Address where
  toJson a := .text a.text
  ofJson? j := do (Address.parse (← ofJson? j)).toOption

/-! ## Records and roots -/

/-- The form of an account record whose account goes by `name`. -/
def accountToJson (name : String) (r : AccountRecord) : Json :=
  .record [(name, toJson r.account), ("token", toJson r.token), ("amount", toJson r.amount)]

/-- Reads an account record whose account goes by `name`. -/
def accountOfJson? (name : String) (j : Json) : Option AccountRecord := do
  let [account, token, amount] ← fields? [name, "token", "amount"] j | none
  return ⟨← required? account, ← required? token, ← required? amount⟩

/-- Writes a balance. -/
def balanceToJson : AccountRecord → Json := accountToJson "owner"

/-- Reads a balance. -/
def balanceOfJson? : Json → Option AccountRecord := accountOfJson? "owner"

instance : JsonForm Pool where
  toJson p :=
    .record [("base", toJson p.base), ("quote", toJson p.quote),
      ("base_amount", toJson p.baseAmount), ("quote_amount", toJson p.quoteAmount),
      ("total_points", toJson p.totalPoints)]
  ofJson? j := do
    let [base, quote, baseAmount, quoteAmount, totalPoints] ←
      fields? ["base", "quote", "base_amount", "quote_amount", "total_points"] j | none
    return ⟨← required? base, ← required? quote, ← required? baseAmount,
      ← required? quoteAmount, ← required? totalPoints⟩

instance : JsonForm Liquidity where
  toJson l :=
    .record [("provider", toJson l.provider), ("base", toJson l.base), ("quote", toJson l.quote),
      ("points", toJson l.points)]
  ofJson? j := do
    let [provider, base, quote, points] ← fields? ["provider", "base", "quote", "points"] j | none
    return ⟨← required? provider, ← required? base, ← required? quote, ← required? points⟩

instance : JsonForm StateRoots where
  toJson r :=
    .record [("balances", toJson r.balances), ("liquidities", toJson r.liquidities),
      ("pools", toJson r.pools), ("burns", toJson r.burns)]
  ofJson? j := do
    let [balances, liquidities, pools, burns] ←
      fields? ["balances", "liquidities", "pools", "burns"] j | none
    return ⟨← required? balances, ← required? liquidities, ← required? pools, ← required? burns⟩

/-- The name of a method in JSON forms. -/
def Method.variant : Method → String
  | .genesis => "Genesis"
  | .deposit => "Deposit"
  | .burn => "Burn"
  | .createPool => "CreatePool"
  | .provideLiquidity => "ProvideLiquidity"
  | .removeLiquidity => "RemoveLiquidity"
  | .buy => "Buy"
  | .sell => "Sell"
  | .merge => "Merge"

instance : JsonForm Method where
  toJson m := .text m.variant
  ofJson? j := do
    let (name, contents) ← variant? j
    noContents? contents
    Method.all.find? fun m => m.variant = name

instance : JsonForm Proof where
  toJson p :=
    .record [("method", toJson p.method), ("public_input", toJson p.input),
      ("public_output", toJson p.output), ("payload", toJson p.payload)]
  ofJson? j := do
    let [method, input, output, payload] ←
      fields? ["method", "public_input", "public_output", "payload"] j | none
    return ⟨← required? method, ← required? input, ← required? output, ← required? payload⟩

instance : JsonForm Settlement where
  toJson s := .record [("roots", toJson s.roots), ("settlements", toJson s.settlements)]
  ofJson? j := do
    let [roots, settlements] ← fields? ["roots", "settlements"] j | none
    return ⟨← required? roots, ← required? settlements⟩

/-! ## Leaf writes -/

instance : JsonForm LeafValue where
  toJson
    | .balance r => .record [("Balance", accountToJson "owner" r)]
    | .burn r => .record [("Burn", accountToJson "burner" r)]
    | .pool p => tagged "Pool" p
    | .liquidity l => tagged "Liquidity" l
  ofJson? j := do
    let (name, some contents) ← variant? j | none
    match name with
    | "Balance" => (accountOfJson? "owner" contents).map .balance
    | "Burn" => (accountOfJson? "burner" contents).map .burn
    | "Pool" => (ofJson? contents).map .pool
    | "Liquidity" => (ofJson? contents).map .liquidity
    | _ => none

instance : JsonForm LeafWrite where
  toJson w := .record [("index", toJson w.index), ("leaf", toJson w.leaf)]
  ofJson? j := do
    let [index, leaf] ← fields? ["index", "leaf"] j | none
    return ⟨← required? index, ← required? leaf⟩

/-! ## Witnesses and signatures -/

instance : JsonForm Sibling where
  toJson s := .record [("value", toJson s.value), ("is_left", toJson s.isLeft)]
  ofJson? j := do
    let [value, isLeft] ← fields? ["value", "is_left"] j | none
    return ⟨← required? value, ← required? isLeft⟩

instance : JsonForm Witness where
  toJson w := .record [("siblings", toJson w.siblings)]
  ofJson? j := do
    let [siblings] ← fields? ["siblings"] j | none
    return ⟨← required? siblings⟩

instance : JsonForm DoubleWitness where
  toJson w :=
    .record [("siblings_x1", toJson w.first), ("siblings_x2", toJson w.second),
      ("siblings_at", toJson w.meets)]
  ofJson? j := do
    let [first, second, meets] ← fields? ["siblings_x1", "siblings_x2", "siblings_at"] j | none
    return ⟨← required? first, ← required? second, ← required? meets⟩

instance : JsonForm Ed25519.Signature where
  toJson s := .record [("r", toJson s.r), ("s", toJson s.s)]
  ofJson? j := do
    let [r, s] ← fields? ["r", "s"] j | none
    return ⟨← required? r, ← required? s⟩

/-! ## Transitions -/

instance : JsonForm DepositArgs where
  toJson a :=
    .record [("witness", toJson a.witness), ("deposit", accountToJson "depositor" a.deposit),
      ("prior_balance", toJson a.priorBalance), ("current_deposit_head", toJson a.currentHead),
      ("expected_deposit_head", toJson a.expectedHead)]
  ofJson? j := do
    let [witness, deposit, priorBalance, currentHead, expectedHead] ←
      fields? ["witness", "deposit", "prior_balance", "current_deposit_head",
        "expected_deposit_head"] j | none
    return ⟨← required? witness, ← accountOfJson? "depositor" (← deposit),
      ← optional? priorBalance, ← required? currentHead, ← required? expectedHead⟩

instance : JsonForm BurnArgs where
  toJson a :=
    .record [("balance_witness", toJson a.balanceWitness), ("burn_witness", toJson a.burnWitness),
      ("owner", toJson a.owner), ("token", toJson a.token), ("amount", toJson a.amount),
      ("prior_balance", toJson a.priorBalance), ("prior_burned", toJson a.priorBurned),
      ("signature", toJson a.signature)]
  ofJson? j := do
    let [balanceWitness, burnWitness, owner, token, amount, priorBalance, priorBurned,
        signature] ←
      fields? ["balance_witness", "burn_witness", "owner", "token", "amount", "prior_balance",
        "prior_burned", "signature"] j | none
    return ⟨← required? balanceWitness, ← required? burnWitness, ← required? owner,
      ← required? token, ← required? amount, ← optional? priorBalance, ← optional? priorBurned,
      ← required? signature⟩

instance : JsonForm CreatePoolArgs where
  toJson a :=
    .record [("pool_witness", toJson a.poolWitness),
      ("liquidity_witness", toJson a.liquidityWitness),
      ("balance_witness", toJson a.balanceWitness), ("provider", toJson a.provider),
      ("base", toJson a.base), ("quote", toJson a.quote), ("base_amount", toJson a.baseAmount),
      ("quote_amount", toJson a.quoteAmount), ("base_balance", toJson a.balances.base),
      ("quote_balance", toJson a.balances.quote), ("signature", toJson a.signature)]
  ofJson? j := do
    let [poolWitness, liquidityWitness, balanceWitness, provider, base, quote, baseAmount,
        quoteAmount, baseBalance, quoteBalance, signature] ←
      fields? ["pool_witness", "liquidity_witness", "balance_witness", "provider", "base", "quote",
        "base_amount", "quote_amount", "base_balance", "quote_balance", "signature"] j | none
    return ⟨← required? poolWitness, ← required? liquidityWitness, ← required? balanceWitness,
      ← required? provider, ← required? base, ← required? quote, ← required? baseAmount,
      ← required? quoteAmount, ⟨← optional? baseBalance, ← optional? quoteBalance⟩,
      ← required? signature⟩

instance : JsonForm ProvideArgs where
  toJson a :=
    .record [("pool_witness", toJson a.claim.poolWitness),
      ("liquidity_witness", toJson a.points.witness),
      ("balance_witness", toJson a.claim.balanceWitness), ("provider", toJson a.claim.account),
      ("pool", toJson a.claim.pool), ("prior_points", toJson a.points.prior),
      ("base_balance", toJson a.claim.balances.base),
      ("quote_balance", toJson a.claim.balances.quote), ("base_in", toJson a.baseIn),
      ("quote_limit", toJson a.quoteLimit), ("signature", toJson a.signature)]
  ofJson? j := do
    let [poolWitness, liquidityWitness, balanceWitness, provider, pool, priorPoints, baseBalance,
        quoteBalance, baseIn, quoteLimit, signature] ←
      fields? ["pool_witness", "liquidity_witness", "balance_witness", "provider", "pool",
        "prior_points", "base_balance", "quote_balance", "base_in", "quote_limit",
        "signature"] j | none
    return ⟨⟨← required? poolWitness, ← required? balanceWitness, ← required? provider,
        ← required? pool, ⟨← optional? baseBalance, ← optional? quoteBalance⟩⟩,
      ⟨← required? liquidityWitness, ← optional? priorPoints⟩,
      ← required? baseIn, ← required? quoteLimit, ← required? signature⟩

instance : JsonForm RemoveArgs where
  toJson a :=
    .record [("pool_witness", toJson a.claim.poolWitness),
      ("liquidity_witness", toJson a.points.witness),
      ("balance_witness", toJson a.claim.balanceWitness), ("provider", toJson a.claim.account),
      ("pool", toJson a.claim.pool), ("prior_points", toJson a.points.prior),
      ("base_balance", toJson a.claim.balances.base),
      ("quote_balance", toJson a.claim.balances.quote), ("points", toJson a.redeemed),
      ("base_limit", toJson a.baseLimit), ("quote_limit", toJson a.quoteLimit),
      ("signature", toJson a.signature)]
  ofJson? j := do
    let [poolWitness, liquidityWitness, balanceWitness, provider, pool, priorPoints, baseBalance,
        quoteBalance, redeemed, baseLimit, quoteLimit, signature] ←
      fields? ["pool_witness", "liquidity_witness", "balance_witness", "provider", "pool",
        "prior_points", "base_balance", "quote_balance", "points", "base_limit", "quote_limit",
        "signature"] j | none
    return ⟨⟨← required? poolWitness, ← required? balanceWitness, ← required? provider,
        ← required? pool, ⟨← optional? baseBalance, ← optional? quoteBalance⟩⟩,
      ⟨← required? liquidityWitness, ← optional? priorPoints⟩,
      ← required? redeemed, ← required? baseLimit, ← required? quoteLimit, ← required? signature⟩

instance : JsonForm SwapArgs where
  toJson a :=
    .record [("pool_witness", toJson a.claim.poolWitness),
      ("balance_witness", toJson a.claim.balanceWitness), ("trader", toJson a.claim.account),
      ("pool", toJson a.claim.pool), ("base_balance", toJson a.claim.balances.base),
      ("quote_balance", toJson a.claim.balances.quote), ("amount", toJson a.amount),
      ("limit", toJson a.limit), ("signature", toJson a.signature)]
  ofJson? j := do
    let [poolWitness, balanceWitness, trader, pool, baseBalance, quoteBalance, amount, limit,
        signature] ←
      fields? ["pool_witness", "balance_witness", "trader", "pool", "base_balance",
        "quote_balance", "amount", "limit", "signature"] j | none
    return ⟨⟨← required? poolWitness, ← required? balanceWitness, ← required? trader,
        ← required? pool, ⟨← optional? baseBalance, ← optional? quoteBalance⟩⟩,
      ← required? amount, ← required? limit, ← required? signature⟩

instance : JsonForm Transition where
  toJson
    | .genesis => .text "Genesis"
    | .deposit a => tagged "Deposit" a
    | .burn a => tagged "Burn" a
    | .createPool a => tagged "CreatePool" a
    | .provideLiquidity a => tagged "ProvideLiquidity" a
    | .removeLiquidity a => tagged "RemoveLiquidity" a
    | .buy a => tagged "Buy" a
    | .sell a => tagged "Sell" a
  ofJson? j := do
    let (name, contents) ← variant? j
    match name with
    | "Genesis" => (noContents? contents).map fun _ => .genesis
    | "Deposit" => (required? contents).map .deposit
    | "Burn" => (required? contents).map .burn
    | "CreatePool" => (required? contents).map .createPool
    | "ProvideLiquidity" => (required? contents).map .provideLiquidity
    | "RemoveLiquidity" => (required? contents).map .removeLiquidity
    | "Buy" => (required? contents).map .buy
    | "Sell" => (required? contents).map .sell
    | _ => none

/-! ## Bridge -/

instance : JsonForm BridgeEvent where
  toJson
    | .depositRecorded deposit head =>
        .record [("DepositRecorded",
          .record [("deposit", accountToJson "depositor" deposit), ("head", toJson head)])]
    | .depositsApplied count head =>
        .record [("DepositsApplied", .record [("count", toJson count), ("head", toJson head)])]
    | .withdrawn withdrawer token amount total =>
        .record [("Withdrawn",
          .record [("withdrawer", toJson withdrawer), ("token", toJson token),
            ("amount", toJson amount), ("total", toJson total)])]
  ofJson? j := do
    let (name, some contents) ← variant? j | none
    match name with
    | "DepositRecorded" =>
        let [deposit, head] ← fields? ["deposit", "head"] contents | none
        return .depositRecorded (← accountOfJson? "depositor" (← deposit)) (← required? head)
    | "DepositsApplied" =>
        let [count, head] ← fields? ["count", "head"] contents | none
        return .depositsApplied (← required? count) (← required? head)
    | "Withdrawn" =>
        let [withdrawer, token, amount, total] ←
          fields? ["withdrawer", "token", "amount", "total"] contents | none
        return .withdrawn (← required? withdrawer) (← required? token) (← required? amount)
          (← required? total)
    | _ => none

instance : JsonForm WithdrawRequest where
  toJson r :=
    .record [("withdrawer", toJson r.withdrawer), ("token", toJson r.token),
      ("burn_witness", toJson r.burnWitness), ("withdrawal_witness", toJson r.withdrawalWitness),
      ("total_withdrawn", toJson r.totalWithdrawn), ("total_burned", toJson r.totalBurned)]
  ofJson? j := do
    let [withdrawer, token, burnWitness, withdrawalWitness, totalWithdrawn, totalBurned] ←
      fields? ["withdrawer", "token", "burn_witness", "withdrawal_witness", "total_withdrawn",
        "total_burned"] j | none
    return ⟨← required? withdrawer, ← required? token, ← required? burnWitness,
      ← required? withdrawalWitness, ← optional? totalWithdrawn, ← required? totalBurned⟩

/-! ## Settings -/

instance : JsonForm ProverMode where
  toJson
    | .attest => .text "Attest"
    | .mock => .text "Mock"
  ofJson? j := do
    let (name, contents) ← variant? j
    noContents? contents
    match name with
    | "Attest" => return .attest
    | "Mock" => return .mock
    | _ => none

instance : JsonForm ProverConfig where
  toJson c := .record [("mode", toJson c.mode), ("key", toJson c.key)]
  ofJson? j := do
    let [mode, key] ← fields? ["mode", "key"] j | none
    return ⟨← required? mode, ← optional? key⟩

instance : JsonForm Config where
  toJson c :=
    .record [("data_dir", toJson c.dataDir), ("prover", toJson c.prover),
      ("merge_parallelism", toJson c.mergeParallelism),
      ("settlement_state", toJson c.settlementState)]
  ofJson? j := do
    let [dataDir, prover, mergeParallelism, settlementState] ←
      fields? ["data_dir", "prover", "merge_parallelism", "settlement_state"] j | none
    return ⟨← required? dataDir, ← required? prover, ← required? mergeParallelism,
      ← required? settlementState⟩

/-! ## Texts -/

/-- The bytes of a value's form on one line. -/
def Json.compactBytes {α : Type} [JsonForm α] (a : α) : Bytes :=
  render .compact (toJson a)

/-- The bytes of a value's form on several lines. -/
def Json.prettyBytes {α : Type} [JsonForm α] (a : α) : Bytes :=
  render (.indented 0) (toJson a)

/-- Reads a value from the bytes of its form. -/
def Json.read? {α : Type} [JsonForm α] (text : Bytes) : Option α :=
  (parse? text).bind ofJson?

end AmmRollup
