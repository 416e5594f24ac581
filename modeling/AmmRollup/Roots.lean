import AmmRollup.Record

/-!
# AmmRollup.Roots

The roots of the four state trees, which together summarise the whole state.
-/

namespace AmmRollup

/-- What a commitment covers: one of the state trees, the payouts of the bridge, or its deposit
chain. -/
inductive StateTree where
  | balances
  | liquidities
  | pools
  | burns
  | withdrawals
  | deposits
deriving DecidableEq

/-- Everything that a commitment can cover. -/
def StateTree.all : List StateTree :=
  [.balances, .liquidities, .pools, .burns, .withdrawals, .deposits]

/-- The word for a tree in messages. -/
def StateTree.name : StateTree → String
  | .balances => "balances"
  | .liquidities => "liquidities"
  | .pools => "pools"
  | .burns => "burns"
  | .withdrawals => "withdrawals"
  | .deposits => "deposits"

/-! ## Heights -/

/-- The levels of the balances tree. -/
def balancesHeight : Nat := 23

/-- The levels of the liquidities tree. -/
def liquiditiesHeight : Nat := 22

/-- The levels of the pools tree. -/
def poolsHeight : Nat := 21

/-- The levels of the burns tree. -/
def burnsHeight : Nat := 20

/-- The levels of the withdrawals tree, whose leaves stand at the indexes of the burns tree. -/
def withdrawalsHeight : Nat := 20

/-! ## Roots -/

/-- The roots of the four state trees. -/
structure StateRoots where
  balances : Bytes32
  liquidities : Bytes32
  pools : Bytes32
  burns : Bytes32
deriving DecidableEq

namespace StateRoots

/-- The roots of four unwritten trees. -/
def empty : StateRoots where
  balances := emptyRoot balancesHeight
  liquidities := emptyRoot liquiditiesHeight
  pools := emptyRoot poolsHeight
  burns := emptyRoot burnsHeight

/-- The four roots in order, 128 bytes. -/
def toBytes (r : StateRoots) : Bytes :=
  Bytes32.concat [r.balances, r.liquidities, r.pools, r.burns]

/-- The roots at the front of a byte string, zeros standing for bytes that it lacks. -/
def ofBytes (bs : Bytes) : StateRoots where
  balances := .ofBytes bs
  liquidities := .ofBytes (bs.drop 32)
  pools := .ofBytes (bs.drop 64)
  burns := .ofBytes (bs.drop 96)

/-- One digest over all four roots. -/
def hash (r : StateRoots) : Bytes32 := keccak256 r.toBytes

/-- The start of that digest, for messages. -/
def short (r : StateRoots) : String := r.hash.shortHex

@[simp] theorem length_toBytes (r : StateRoots) : r.toBytes.length = 128 := by
  simp [toBytes, Bytes32.concat]

/-- Roots read back from their bytes. -/
@[simp] theorem ofBytes_toBytes (r : StateRoots) : ofBytes r.toBytes = r := by
  have drop_cons (x : Bytes32) (rest : Bytes) (n : Nat) :
      (x.toBytes ++ rest).drop (32 + n) = rest.drop n := by
    rw [List.drop_append, List.drop_of_length_le (by simp), List.nil_append,
      Bytes32.length_toBytes, Nat.add_sub_cancel_left]
  simp only [ofBytes, toBytes, Bytes32.concat, List.flatMap_cons, List.flatMap_nil]
  rw [show 96 = 32 + (32 + (32 + 0)) from rfl, show 64 = 32 + (32 + 0) from rfl]
  simp only [drop_cons, Nat.add_zero, Bytes32.ofBytes_toBytes_append]
  rw [show 32 = 32 + 0 from rfl]
  simp only [drop_cons, List.drop_zero, Bytes32.ofBytes_toBytes_append]

/-- Equal bytes mean equal roots. -/
theorem toBytes_injective {r s : StateRoots} (h : r.toBytes = s.toBytes) : r = s := by
  rw [← ofBytes_toBytes r, h, ofBytes_toBytes]

end StateRoots

end AmmRollup
