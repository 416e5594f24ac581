import AmmRollup.Ed25519
import AmmRollup.Hash.Keccak

/-!
# AmmRollup.Address

Account addresses.  An address is 26 bytes of the digest of its owner's public key.
It is written as `B62` and their 52 lowercase hexadecimal digits, 55 characters in
all, and that text is what records hash.
-/

namespace AmmRollup

/-- The 26 bytes of an address. -/
structure Address where
  body : Bytes
  length_body : body.length = 26
deriving DecidableEq

/-- Why a text is no address. -/
inductive AddressError where
  /-- The text has the wrong number of bytes. -/
  | length (bytes : Nat)
  /-- The text starts otherwise than with `B62`. -/
  | start
  /-- The rest of the text is not lowercase hexadecimal. -/
  | encoding
deriving DecidableEq

/-- The wording of an error. -/
def AddressError.message : AddressError → String
  | .length bytes => s!"address must be 55 bytes, got {bytes}"
  | .start => "address must start with B62"
  | .encoding => "address body must be lowercase hex"

namespace Address

/-! ## Text -/

/-- The characters of an address. -/
def chars (a : Address) : List Char := 'B' :: '6' :: '2' :: Bytes.hexChars a.body

/-- The text of an address. -/
def text (a : Address) : String := String.ofList a.chars

/-- The bytes of the text, all of them ASCII. -/
def toBytes (a : Address) : Bytes := a.chars.map fun c => UInt8.ofNat c.toNat

/-- Whether a character is a digit or one of the letters `a` to `f`. -/
def isLowerHex (c : Char) : Bool :=
  ('0' ≤ c ∧ c ≤ '9') ∨ ('a' ≤ c ∧ c ≤ 'f')

/-- The address of a body's digits. -/
def ofDigits (digits : List Char) : Except AddressError Address :=
  if digits.all isLowerHex then
    match Bytes.ofHexChars? digits with
    | some body => if h : body.length = 26 then .ok ⟨body, h⟩ else .error .encoding
    | none => .error .encoding
  else .error .encoding

/-- Reads an address: the length is looked at first, then the start, then the digits. -/
def parse (s : String) : Except AddressError Address :=
  if s.utf8ByteSize ≠ 55 then .error (.length s.utf8ByteSize)
  else
    match s.toList with
    | 'B' :: '6' :: '2' :: digits => ofDigits digits
    | _ => .error .start

/-! ## Keys and records -/

/-- The address of a public key. -/
def ofKey (key : Ed25519.PublicKey) : Address where
  body := (keccak256 key.bytes.toBytes).toBytes.take 26
  length_body := by simp

/-- The two values that an address occupies in a record: its first 32 bytes, and the
other 23 followed by zeros. -/
def fields (a : Address) : List Bytes32 :=
  [Bytes32.ofBytes a.toBytes, Bytes32.ofBytes (a.toBytes.drop 32)]

@[simp] theorem length_chars (a : Address) : a.chars.length = 55 := by
  simp [chars, a.length_body]

@[simp] theorem length_toBytes (a : Address) : a.toBytes.length = 55 := by
  simp [toBytes]

end Address

end AmmRollup
