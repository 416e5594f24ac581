import AmmRollup.Config
import AmmRollup.Transition.Execute

/-!
# AmmRollup.Prover

The prover of a node.  It executes a step with all its checks, or joins two proofs, and
certifies the roots before and after.  In attest mode the certificate is a keyed digest
of method and roots, which verification computes again; in mock mode it is empty and
every proof verifies.  The signatures of steps are for a checker to judge that the prover is
made with: the keys of a registry, or any other.
-/

namespace AmmRollup

/-- A prover, with what the signatures of steps are checked by. -/
structure Prover where
  mode : ProverMode
  key : Bytes32
  signatures : SignatureChecker

namespace Prover

/-! ## Keys -/

/-- What follows the marks `0x` at the front of a text. -/
def dropHexMarks : List Char → List Char
  | '0' :: 'x' :: cs => dropHexMarks cs
  | cs => cs

/-- Reads an attestation key: 64 hexadecimal digits. -/
def key? (text : String) : Option Bytes32 := do
  Bytes32.ofBytes? (← Bytes.ofHexChars? (dropHexMarks text.toList))

/-- The prover that attests with a key. -/
def attesting (key : Bytes32) (signatures : SignatureChecker) : Prover :=
  ⟨.attest, key, signatures⟩

/-- The prover whose proofs always verify. -/
def mock (signatures : SignatureChecker) : Prover := ⟨.mock, .zero, signatures⟩

/-- The prover of some settings; without a usable key there is nothing to attest with. -/
def ofConfig (c : ProverConfig) (signatures : SignatureChecker) : Prover :=
  match c.mode, c.key.bind key? with
  | .attest, some key => attesting key signatures
  | _, _ => mock signatures

/-! ## Certificates -/

/-- What the attestation of a method between two roots covers. -/
def preimage (p : Prover) (method : Method) (input output : StateRoots) : Bytes :=
  p.key.toBytes ++ method.tag :: (input.toBytes ++ output.toBytes)

/-- The attestation of a method between two roots. -/
def digest (p : Prover) (method : Method) (input output : StateRoots) : Bytes32 :=
  keccak256 (p.preimage method input output)

/-- The proof of a method between two roots. -/
def certify (p : Prover) (method : Method) (input output : StateRoots) : Proof where
  method
  input
  output
  payload :=
    match p.mode with
    | .attest => (p.digest method input output).toBytes
    | .mock => []

/-- Whether a proof is one that this prover could have issued. -/
def verify (p : Prover) (proof : Proof) : Bool :=
  match p.mode with
  | .attest => proof.payload = (p.digest proof.method proof.input proof.output).toBytes
  | .mock => true

/-- The checks that steps leave to a prover. -/
def verifiers (p : Prover) : Verifiers := ⟨p.verify, p.signatures⟩

/-! ## Proving -/

/-- Executes a step on the roots and certifies what it leads to. -/
def prove (p : Prover) (roots : StateRoots) (earlier : Option Proof) (t : Transition) :
    Except TransitionError Proof := do
  let outcome ← t.execute p.verifiers roots earlier
  return p.certify t.method roots outcome.roots

/-- Certifies that two proofs, one after the other, lead from `common` to the end of the second. -/
def merge (p : Prover) (common : StateRoots) (first second : Proof) :
    Except TransitionError Proof := do
  let (input, output) ← mergedRoots p.verify common first second
  return p.certify .merge input output

/-! ## Laws -/

/-- What a prover certifies it also verifies. -/
@[simp] theorem verify_certify (p : Prover) (method : Method) (input output : StateRoots) :
    p.verify (p.certify method input output) = true := by
  unfold verify certify
  cases p.mode <;> simp

end Prover

end AmmRollup
