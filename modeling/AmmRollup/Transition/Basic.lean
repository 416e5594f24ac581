import AmmRollup.Keys
import AmmRollup.Merkle.Witness
import AmmRollup.Pool.Exchange
import AmmRollup.Proof

/-!
# AmmRollup.Transition.Basic

Steps of the rollup.  A step carries everything it is checked against: the witnesses
of the leaves it touches, the values it claims for them, and the signature of the
account that pays.  Leaves that were never written are claimed as `none`.
-/

namespace AmmRollup

/-! ## Errors -/

/-- Why a step or a merge is refused. -/
inductive TransitionError where
  /-- The earlier proof is missing or ends at other roots. -/
  | chainMismatch
  /-- The earlier proof does not verify. -/
  | proofInvalid
  /-- A witness does not fit its tree. -/
  | invalidWitness (cause : MerkleError)
  /-- Two witnesses stand at the same leaf. -/
  | indexMismatch
  /-- The signature is not the signer's. -/
  | signatureInvalid
  /-- A claimed leaf and its witness do not fold to the root. -/
  | stateMismatch (tree : StateTree)
  /-- An amount cannot be computed or is not accepted. -/
  | amount (cause : AmountError)
deriving DecidableEq

/-- The wording of an error. -/
def TransitionError.message : TransitionError → String
  | .chainMismatch => "earlier proof does not chain onto the asserted roots"
  | .proofInvalid => "earlier proof failed verification"
  | .invalidWitness cause => s!"invalid witness: {cause.message}"
  | .indexMismatch => "witnesses disagree on leaf position"
  | .signatureInvalid => "signature does not verify"
  | .stateMismatch tree => s!"{tree.name} root does not match the supplied witness"
  | .amount cause => cause.message

/-! ## Claims and arguments -/

/-- The arguments of a deposit: the record, and the deposit chain before and after it. -/
structure DepositArgs where
  witness : Witness
  deposit : AccountRecord
  priorBalance : Option Amount
  currentHead : Bytes32
  expectedHead : Bytes32
deriving DecidableEq

/-- The arguments of a burn, which a later withdrawal pays out. -/
structure BurnArgs where
  balanceWitness : Witness
  burnWitness : Witness
  owner : Address
  token : Token
  amount : Amount
  priorBalance : Option Amount
  priorBurned : Option Amount
  signature : Ed25519.Signature
deriving DecidableEq

/-- The arguments that open a pool; its slot and the provider's must be unwritten. -/
structure CreatePoolArgs where
  poolWitness : Witness
  liquidityWitness : Witness
  balanceWitness : DoubleWitness
  provider : Address
  base : Token
  quote : Token
  baseAmount : Amount
  quoteAmount : Amount
  balances : PairBalances
  signature : Ed25519.Signature
deriving DecidableEq

/-- What a step claims about a pool and an account's balances in its pair. -/
structure PoolClaim where
  poolWitness : Witness
  balanceWitness : DoubleWitness
  account : Address
  pool : Pool
  balances : PairBalances
deriving DecidableEq

/-- What a step claims about an account's points in a pool. -/
structure PointsClaim where
  witness : Witness
  prior : Option Points
deriving DecidableEq

/-- The arguments that add to a pool. -/
structure ProvideArgs where
  claim : PoolClaim
  points : PointsClaim
  baseIn : Amount
  quoteLimit : Amount
  signature : Ed25519.Signature
deriving DecidableEq

/-- The arguments that redeem points of a pool. -/
structure RemoveArgs where
  claim : PoolClaim
  points : PointsClaim
  redeemed : Points
  baseLimit : Amount
  quoteLimit : Amount
  signature : Ed25519.Signature
deriving DecidableEq

/-- The arguments of a trade: the amount received, and the most that is paid for it. -/
structure SwapArgs where
  claim : PoolClaim
  amount : Amount
  limit : Amount
  signature : Ed25519.Signature
deriving DecidableEq

/-- One step. -/
inductive Transition where
  /-- The step that changes nothing, at the start of a chain. -/
  | genesis
  /-- Credits a deposit of the bridge. -/
  | deposit (args : DepositArgs)
  /-- Burns tokens for a later withdrawal. -/
  | burn (args : BurnArgs)
  /-- Opens a pool. -/
  | createPool (args : CreatePoolArgs)
  /-- Adds to a pool for points. -/
  | provideLiquidity (args : ProvideArgs)
  /-- Redeems points for reserves. -/
  | removeLiquidity (args : RemoveArgs)
  /-- Receives base for quote. -/
  | buy (args : SwapArgs)
  /-- Receives quote for base. -/
  | sell (args : SwapArgs)
deriving DecidableEq

/-- The method of a step. -/
def Transition.method : Transition → Method
  | .genesis => .genesis
  | .deposit _ => .deposit
  | .burn _ => .burn
  | .createPool _ => .createPool
  | .provideLiquidity _ => .provideLiquidity
  | .removeLiquidity _ => .removeLiquidity
  | .buy _ => .buy
  | .sell _ => .sell

/-! ## Signed messages -/

/-- What the owner of a burn signs. -/
def burnMessage (token : Token) (amount : Amount) : List Bytes32 :=
  [token, .ofWord amount]

/-- What is signed to open a pool, to add to it, to buy and to sell: the pair and two amounts. -/
def pairMessage (base quote : Token) (first second : Amount) : List Bytes32 :=
  [base, quote, .ofWord first, .ofWord second]

/-- What a provider signs to redeem points. -/
def removeMessage (base quote : Token) (baseLimit quoteLimit : Amount) (points : Points) :
    List Bytes32 :=
  [base, quote, .ofWord baseLimit, .ofWord quoteLimit, .ofBits128 points]

/-- A message with its signer and signature. -/
structure Signed where
  signer : Address
  message : List Bytes32
  signature : Ed25519.Signature
deriving DecidableEq

/-- What a step must be signed for; genesis and deposits need no signature. -/
def Transition.signed? : Transition → Option Signed
  | .genesis => none
  | .deposit _ => none
  | .burn a => some ⟨a.owner, burnMessage a.token a.amount, a.signature⟩
  | .createPool a =>
      some ⟨a.provider, pairMessage a.base a.quote a.baseAmount a.quoteAmount, a.signature⟩
  | .provideLiquidity a =>
      some ⟨a.claim.account,
        pairMessage a.claim.pool.base a.claim.pool.quote a.baseIn a.quoteLimit, a.signature⟩
  | .removeLiquidity a =>
      some ⟨a.claim.account,
        removeMessage a.claim.pool.base a.claim.pool.quote a.baseLimit a.quoteLimit a.redeemed,
        a.signature⟩
  | .buy a | .sell a =>
      some ⟨a.claim.account,
        pairMessage a.claim.pool.base a.claim.pool.quote a.amount a.limit, a.signature⟩

/-! ## Results -/

/-- The new value of a leaf, with the tree it belongs to. -/
inductive LeafValue where
  | balance (record : AccountRecord)
  | burn (record : AccountRecord)
  | pool (record : Pool)
  | liquidity (record : Liquidity)
deriving DecidableEq

/-- The tree of a leaf. -/
def LeafValue.tree : LeafValue → StateTree
  | .balance _ => .balances
  | .burn _ => .burns
  | .pool _ => .pools
  | .liquidity _ => .liquidities

/-- The digest that stands in the tree. -/
def LeafValue.leaf : LeafValue → Bytes32
  | .balance r | .burn r => Record.leaf r
  | .pool r => Record.leaf r
  | .liquidity r => Record.leaf r

/-- A leaf and the index it is written at. -/
structure LeafWrite where
  index : UInt64
  leaf : LeafValue
deriving DecidableEq

/-- What an accepted step leaves: the roots after it, and the leaves written, in order. -/
structure Outcome where
  roots : StateRoots
  writes : List LeafWrite
deriving DecidableEq

/-- The checks that a step leaves to others: of earlier proofs and of signatures. -/
structure Verifiers where
  proofs : Proof → Bool
  signatures : SignatureChecker

end AmmRollup
