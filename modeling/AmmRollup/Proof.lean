import AmmRollup.Roots

/-!
# AmmRollup.Proof

Certificates that one step, or a run of steps, leads from some roots to others.
The payload belongs to the prover that issued the certificate; nothing else looks
into it.
-/

namespace AmmRollup

/-- The method that a proof attests to. -/
inductive Method where
  | genesis
  | deposit
  | burn
  | createPool
  | provideLiquidity
  | removeLiquidity
  | buy
  | sell
  | merge
deriving DecidableEq

namespace Method

/-- The methods in the order of their tags. -/
def all : List Method :=
  [.genesis, .deposit, .burn, .createPool, .provideLiquidity, .removeLiquidity, .buy, .sell, .merge]

/-- The word for a method in messages. -/
def name : Method → String
  | .genesis => "genesis"
  | .deposit => "deposit"
  | .burn => "burn"
  | .createPool => "create_pool"
  | .provideLiquidity => "provide_liquidity"
  | .removeLiquidity => "remove_liquidity"
  | .buy => "buy"
  | .sell => "sell"
  | .merge => "merge"

/-- The number that stands for a method in attestations and files. -/
def tag : Method → UInt8
  | .genesis => 0
  | .deposit => 1
  | .burn => 2
  | .createPool => 3
  | .provideLiquidity => 4
  | .removeLiquidity => 5
  | .buy => 6
  | .sell => 7
  | .merge => 8

/-- The method that a number stands for. -/
def ofTag? (n : Nat) : Option Method := all[n]?

@[simp] theorem ofTag?_tag (m : Method) : ofTag? m.tag.toNat = some m := by
  cases m <;> rfl

end Method

/-- A certificate that a method leads from the input roots to the output roots. -/
structure Proof where
  method : Method
  input : StateRoots
  output : StateRoots
  payload : Bytes
deriving DecidableEq

end AmmRollup
