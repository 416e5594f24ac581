import AmmRollup.Rollup.Table
import AmmRollup.Transition.Basic

/-!
# AmmRollup.Rollup.State

The whole state of the rollup: a table for every tree, and how far the deposits of
the bridge were replayed.  Committing the outcome of a step writes its leaves and
compares the roots; if a write is refused or the roots differ, the records and leaves
written so far are put back, latest first.
-/

namespace AmmRollup

/-- The state of the rollup.  The withdrawals table is bound leaf by leaf like the burns table. -/
structure RollupState where
  balances : Table (balancesHeight - 1) (Address × Token) AccountRecord
  liquidities : Table (liquiditiesHeight - 1) (Address × Token × Token) Liquidity
  pools : Table (poolsHeight - 1) (Token × Token) Pool
  burns : Table (burnsHeight - 1) (Address × Token) AccountRecord
  withdrawals : Table (withdrawalsHeight - 1) (Address × Token) AccountRecord
  /-- The head of the deposit chain after the last replayed deposit. -/
  depositHead : Bytes32
  /-- The number of replayed deposits. -/
  depositsConsumed : Nat

namespace RollupState

/-- The state before any step. -/
def initial : RollupState where
  balances := .empty .balances _
  liquidities := .empty .liquidities _
  pools := .empty .pools _
  burns := .empty .burns _
  withdrawals := .empty .withdrawals _
  depositHead := emptyLeaf
  depositsConsumed := 0

/-! ## Reading -/

/-- The roots of the four state trees. -/
def roots (s : RollupState) : StateRoots where
  balances := s.balances.root
  liquidities := s.liquidities.root
  pools := s.pools.root
  burns := s.burns.root

/-- The balance of an account, if it was ever credited. -/
def balance (s : RollupState) (owner : Address) (token : Token) : Option Amount :=
  (s.balances.get? (owner, token)).map AccountRecord.amount

/-- The pool of a pair. -/
def pool (s : RollupState) (base quote : Token) : Option Pool :=
  s.pools.get? (base, quote)

/-- The points of a provider in the pool of a pair. -/
def liquidity (s : RollupState) (provider : Address) (base quote : Token) : Option Points :=
  (s.liquidities.get? (provider, base, quote)).map Liquidity.points

/-- What an account has burned so far. -/
def burned (s : RollupState) (owner : Address) (token : Token) : Option Amount :=
  (s.burns.get? (owner, token)).map AccountRecord.amount

/-- What an account was paid out so far. -/
def withdrawn (s : RollupState) (owner : Address) (token : Token) : Option Amount :=
  (s.withdrawals.get? (owner, token)).map AccountRecord.amount

/-! ## Writing leaves -/

/-- A leaf that was written, with the record that stood there. -/
inductive Undo where
  | balance (index : Nat) (prior : Option AccountRecord)
  | burn (index : Nat) (prior : Option AccountRecord)
  | pool (index : Nat) (prior : Option Pool)
  | liquidity (index : Nat) (prior : Option Liquidity)

/-- Writes one leaf into its table. -/
def write (s : RollupState) (w : LeafWrite) : Except StateError (RollupState × Undo) :=
  let index := w.index.toNat
  match w.leaf with
  | .balance r => do
      let (balances, prior) ← s.balances.write (r.account, r.token) index r
      return ({ s with balances }, .balance index prior)
  | .burn r => do
      let (burns, prior) ← s.burns.write (r.account, r.token) index r
      return ({ s with burns }, .burn index prior)
  | .pool p => do
      let (pools, prior) ← s.pools.write (p.base, p.quote) index p
      return ({ s with pools }, .pool index prior)
  | .liquidity l => do
      let (liquidities, prior) ← s.liquidities.write (l.provider, l.base, l.quote) index l
      return ({ s with liquidities }, .liquidity index prior)

/-- Puts back what one write replaced. -/
def undo (s : RollupState) : Undo → RollupState
  | .balance index prior => { s with balances := s.balances.restore index prior }
  | .burn index prior => { s with burns := s.burns.restore index prior }
  | .pool index prior => { s with pools := s.pools.restore index prior }
  | .liquidity index prior => { s with liquidities := s.liquidities.restore index prior }

/-- Puts back what several writes replaced, in the order given. -/
def rollback (s : RollupState) (undos : List Undo) : RollupState :=
  undos.foldl undo s

/-- Writes leaves in order up to the first that is refused; `undos` are the writes before
them, latest first. -/
def writeAll (s : RollupState) (undos : List Undo) :
    List LeafWrite → Except StateError Unit × RollupState × List Undo
  | [] => (.ok (), s, undos)
  | w :: ws =>
      match s.write w with
      | .ok (s, u) => s.writeAll (u :: undos) ws
      | .error e => (.error e, s, undos)

/-! ## Steps -/

/-- Writes the leaves of an outcome, and keeps them if they lead to its roots. -/
def commit (s : RollupState) (outcome : Outcome) : Except StateError Unit × RollupState :=
  match s.writeAll [] outcome.writes with
  | (.error e, written, undos) => (.error e, written.rollback undos)
  | (.ok (), written, undos) =>
      if written.roots = outcome.roots then (.ok (), written)
      else (.error (.diverged outcome.roots written.roots), written.rollback undos)

/-- Counts one more replayed deposit, after which the chain ends at `head`. -/
def consumeDeposit (s : RollupState) (head : Bytes32) : RollupState :=
  { s with depositHead := head, depositsConsumed := s.depositsConsumed + 1 }

/-- Writes what the bridge has paid an account so far, at the leaf of its burns. -/
def recordWithdrawal (s : RollupState) (owner : Address) (token : Token) (total : Amount) :
    Except StateError Unit × RollupState :=
  match s.burns.index (owner, token) with
  | (.error e, burns) => (.error e, { s with burns })
  | (.ok index, burns) =>
      match s.withdrawals.write (owner, token) index ⟨owner, token, total⟩ with
      | .error e => (.error e, { s with burns })
      | .ok (withdrawals, _) => (.ok (), { s with burns, withdrawals })

end RollupState

end AmmRollup
