import AmmRollup.Address
import AmmRollup.Merkle.Node

/-!
# AmmRollup.Record

The records behind the leaves of the state trees and the links of the deposit
chain.  A record is hashed through its fields, values of 32 bytes each, and has a
packed byte form beside them.  Balances, burn totals, withdrawal totals and
deposits have one shape: an account, a token and an amount.
-/

namespace AmmRollup

/-- A token identifier. -/
abbrev Token := Bytes32

/-- A token amount. -/
abbrev Amount := UInt64

/-- Liquidity points; the product of two amounts always fits. -/
abbrev Points := BitVec 128

/-! ## Shapes -/

/-- An amount of a token on an account: a balance, a total burned, a total withdrawn or a
deposit. -/
structure AccountRecord where
  account : Address
  token : Token
  amount : Amount
deriving DecidableEq

/-- The reserves of a trading pair, and the points issued for them. -/
structure Pool where
  base : Token
  quote : Token
  baseAmount : Amount
  quoteAmount : Amount
  totalPoints : Points
deriving DecidableEq

/-- The points of one provider in one pool. -/
structure Liquidity where
  provider : Address
  base : Token
  quote : Token
  points : Points
deriving DecidableEq

/-! ## Fields, bytes and digests -/

/-- What can be committed to as a leaf: by fields for hashing, and in a packed byte form. -/
class Record (ρ : Type) where
  fields : ρ → List Bytes32
  packed : ρ → Bytes

/-- The digest of the fields of a value. -/
def hashFields (fields : List Bytes32) : Bytes32 :=
  keccak256 (Bytes32.concat fields)

/-- The leaf of a record. -/
def Record.leaf {ρ : Type} [Record ρ] (r : ρ) : Bytes32 :=
  hashFields (Record.fields r)

/-- The leaf of a slot that may not have been written. -/
def Record.leafOrEmpty {ρ : Type} [Record ρ] : Option ρ → Bytes32
  | none => emptyLeaf
  | some r => Record.leaf r

instance : Record AccountRecord where
  fields r := r.account.fields ++ [r.token, .ofWord r.amount]
  packed r := r.account.toBytes ++ r.token.toBytes ++ Bytes.ofWord 8 r.amount

instance : Record Pool where
  fields p :=
    [p.base, p.quote, .ofWord p.baseAmount, .ofWord p.quoteAmount, .ofBits128 p.totalPoints]
  packed p :=
    p.base.toBytes ++ p.quote.toBytes ++ Bytes.ofWord 8 p.baseAmount ++
      Bytes.ofWord 8 p.quoteAmount ++ Bytes.ofNat 16 p.totalPoints.toNat

instance : Record Liquidity where
  fields l := l.provider.fields ++ [l.base, l.quote, .ofBits128 l.points]
  packed l :=
    l.provider.toBytes ++ l.base.toBytes ++ l.quote.toBytes ++ Bytes.ofNat 16 l.points.toNat

/-! ## Deposit chain -/

/-- The head of the deposit chain after one more deposit. -/
def nextDepositHead (head : Bytes32) (deposit : AccountRecord) : Bytes32 :=
  hashPair head (Record.leaf deposit)

/-! ## Lengths -/

@[simp] theorem length_packed_accountRecord (r : AccountRecord) :
    (Record.packed r).length = 95 := by
  simp [Record.packed]

@[simp] theorem length_packed_pool (p : Pool) : (Record.packed p).length = 96 := by
  simp [Record.packed]

@[simp] theorem length_packed_liquidity (l : Liquidity) : (Record.packed l).length = 135 := by
  simp [Record.packed]

end AmmRollup
