import AmmRollup.Address
import AmmRollup.FinMap

/-!
# AmmRollup.Keys

Who may sign for an address.  A message is a list of 32-byte values, signed as the
concatenation of their bytes.  Messages carry no counter, so a signature stays
valid for as long as the signer's balances allow the same step again.
-/

namespace AmmRollup

/-- A judgement whether an account has signed a message. -/
abbrev SignatureChecker := Address → List Bytes32 → Ed25519.Signature → Bool

/-- The public keys known so far, by the addresses they own. -/
structure KeyRegistry where
  keys : FinMap Address Ed25519.PublicKey

namespace KeyRegistry

/-- The registry without keys. -/
def empty : KeyRegistry := ⟨∅⟩

/-- Adds a key under the address it owns. -/
def register (r : KeyRegistry) (key : Ed25519.PublicKey) : KeyRegistry :=
  ⟨r.keys.insert (Address.ofKey key) key⟩

/-- The key of an address. -/
def get? (r : KeyRegistry) (a : Address) : Option Ed25519.PublicKey := r.keys.get? a

/-- The number of addresses with a key. -/
def size (r : KeyRegistry) : Nat := r.keys.size

/-- Whether the key of `signer` signed the message; an unknown signer signed nothing. -/
def verify (r : KeyRegistry) : SignatureChecker := fun signer message signature =>
  match r.get? signer with
  | none => false
  | some key => Ed25519.verify key (Bytes32.concat message) signature

end KeyRegistry

/-- The signature of a seed's owner over a message. -/
def signFields (seed : Bytes32) (message : List Bytes32) : Ed25519.Signature :=
  Ed25519.sign seed (Bytes32.concat message)

end AmmRollup
