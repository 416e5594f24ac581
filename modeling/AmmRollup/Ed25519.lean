import AmmRollup.Bytes32
import AmmRollup.Hash.Sha512

/-!
# AmmRollup.Ed25519

Ed25519 signatures over the twisted Edwards curve `-x² + y² = 1 + d x² y²` modulo
`2^255 - 19`.  Points are held in extended coordinates, field elements as
residues below the modulus.

Verification is without cofactor: the point `[s]B - [k]A` is compressed and
compared with the bytes of `R` as they were given.  A key's `y` is read modulo the
field, so its bytes need not be canonical; `s` must be below the group order.
-/

namespace AmmRollup

namespace Ed25519

/-! ## Field -/

/-- The field modulus. -/
def modulus : Nat := 1 <<< 255 - 19

/-- The order of the base point. -/
def order : Nat := 1 <<< 252 + 27742317777372353535851937790883648493

/-- The curve constant `d = -121665 / 121666`. -/
def curveD : Nat := 37095705934669439343138083508754565189542113879843219016388785533085940283555

/-- A square root of `-1`. -/
def sqrtMinusOne : Nat :=
  19681161376707505956807079304988542015446066515923890162744021073123829784752

/-- Sum of two residues. -/
def add (a b : Nat) : Nat := (a + b) % modulus

/-- Difference of two residues. -/
def sub (a b : Nat) : Nat := (a + modulus - b) % modulus

/-- Product of two residues. -/
def mul (a b : Nat) : Nat := a * b % modulus

/-- Power of a residue to an exponent of at most `bits` binary digits. -/
def pow (a : Nat) : Nat → Nat → Nat
  | 0, _ => 1
  | bits + 1, e =>
      let half := pow a bits (e / 2)
      let square := mul half half
      if e % 2 = 1 then mul square a else square

/-- Inverse of a residue; zero for zero. -/
def inv (a : Nat) : Nat := pow a 255 (modulus - 2)

/-! ## Points -/

/-- A point in extended coordinates: `x = X / Z`, `y = Y / Z`, `x y = T / Z`. -/
structure Point where
  X : Nat
  Y : Nat
  Z : Nat
  T : Nat
deriving DecidableEq

namespace Point

/-- The neutral element. -/
def zero : Point := ⟨0, 1, 1, 0⟩

/-- The base point. -/
def base : Point :=
  ⟨15112221349535400772501151409588531511454012693041857206046113283949847762202,
    46316835694926478169428394003475163141307993866256225615783033603165251855960, 1,
    46827403850823179245072216630277197565144205554125654976674165829533817101731⟩

/-- Sum of two points, by the formula that is complete on this curve. -/
def add (p q : Point) : Point :=
  let a := mul (sub p.Y p.X) (sub q.Y q.X)
  let b := mul (Ed25519.add p.Y p.X) (Ed25519.add q.Y q.X)
  let c := mul (mul (2 * p.T) q.T) curveD
  let d := mul (2 * p.Z) q.Z
  let e := sub b a
  let f := sub d c
  let g := Ed25519.add d c
  let h := Ed25519.add b a
  ⟨mul e f, mul g h, mul f g, mul e h⟩

/-- Sum of a point with itself. -/
def double (p : Point) : Point :=
  let a := mul p.X p.X
  let b := mul p.Y p.Y
  let c := mul (2 * p.Z) p.Z
  let h := Ed25519.add a b
  let xy := Ed25519.add p.X p.Y
  let e := sub h (mul xy xy)
  let g := sub a b
  let f := Ed25519.add c g
  ⟨mul e f, mul g h, mul f g, mul e h⟩

/-- The opposite point. -/
def neg (p : Point) : Point := ⟨sub 0 p.X, p.Y, p.Z, sub 0 p.T⟩

/-- Multiple of a point by a number of at most `bits` binary digits. -/
def smul (p : Point) : Nat → Nat → Point
  | 0, _ => zero
  | bits + 1, k =>
      let twice := (smul p bits (k / 2)).double
      if k % 2 = 1 then twice.add p else twice

/-- The 32 bytes of a point: `y`, and the parity of `x` in the top bit. -/
def compress (p : Point) : Bytes32 :=
  let z := inv p.Z
  let x := mul p.X z
  let y := mul p.Y z
  Bytes32.ofNat (y + 1 <<< 255 * (x % 2))

/-- A number `x` with `v x² = u`, when there is one. -/
def sqrtRatio? (u v : Nat) : Option Nat :=
  let v3 := mul (mul v v) v
  let v7 := mul (mul v3 v3) v
  let x := mul (mul u v3) (pow (mul u v7) 252 ((modulus - 5) / 8))
  let check := mul v (mul x x)
  if check = u then some x
  else if check = sub 0 u then some (mul x sqrtMinusOne)
  else none

/-- The point that 32 bytes stand for: `y` is the low 255 bits modulo the field,
and of the two square roots the top bit chooses the odd or the even one. -/
def decompress? (bytes : Bytes32) : Option Point :=
  let n := bytes.toNat
  let y := n % (1 <<< 255) % modulus
  let y2 := mul y y
  match sqrtRatio? (sub y2 1) (Ed25519.add (mul curveD y2) 1) with
  | none => none
  | some root =>
      let even := if root % 2 = 1 then modulus - root else root
      let x := if n / (1 <<< 255) = 1 then sub 0 even else even
      some ⟨x, y, 1, mul x y⟩

end Point

/-! ## Keys and signatures -/

/-- A public key: 32 bytes, and the point they stand for. -/
structure PublicKey where
  bytes : Bytes32
  point : Point
  decompresses : Point.decompress? bytes = some point
deriving DecidableEq

/-- Reads a public key from its bytes, refusing those that stand for no point. -/
def PublicKey.ofBytes? (bytes : Bytes32) : Option PublicKey :=
  match h : Point.decompress? bytes with
  | none => none
  | some point => some ⟨bytes, point, h⟩

/-- A signature: the commitment and the response. -/
structure Signature where
  r : Bytes32
  s : Bytes32
deriving DecidableEq

/-- The 64 bytes of a signature. -/
def Signature.toBytes (sig : Signature) : Bytes := sig.r.toBytes ++ sig.s.toBytes

/-- The number whose little-endian bytes a digest is, modulo the group order. -/
def scalarOfDigest (digest : Bytes) : Nat :=
  Bytes.toNat digest % order

/-- The number that ties commitment, key and message together. -/
def challenge (r key : Bytes32) (message : Bytes) : Nat :=
  scalarOfDigest (sha512 (r.toBytes ++ key.toBytes ++ message))

/-- Whether a signature is the key's over the message. -/
def verify (key : PublicKey) (message : Bytes) (sig : Signature) : Bool :=
  let s := sig.s.toNat
  if s < order then
    let k := challenge sig.r key.bytes message
    let r := (Point.base.smul 253 s).add (key.point.neg.smul 253 k)
    r.compress = sig.r
  else
    false

/-! ## Secret seeds -/

/-- The secret number of a seed: the low half of its digest, with the three low bits
cleared, the top bit cleared and the next one set. -/
def secretScalar (seed : Bytes32) : Nat :=
  let n := Bytes.toNat ((sha512 seed.toBytes).take 32)
  1 <<< 254 + n % (1 <<< 254) / 8 * 8

/-- The public key of a seed, as bytes. -/
def publicBytes (seed : Bytes32) : Bytes32 :=
  (Point.base.smul 255 (secretScalar seed)).compress

/-- The signature of a seed's owner over a message. -/
def sign (seed : Bytes32) (message : Bytes) : Signature :=
  let nonce := scalarOfDigest (sha512 ((sha512 seed.toBytes).drop 32 ++ message))
  let r := (Point.base.smul 253 nonce).compress
  let k := challenge r (publicBytes seed) message
  ⟨r, Bytes32.ofNat ((nonce + k * secretScalar seed) % order)⟩

end Ed25519

end AmmRollup
