import AmmRollup.Bytes

/-!
# AmmRollup.Bytes32

Values of 32 bytes.  Digests, token identifiers, keys and the fields of every
record all have this width.  A value is held as four little-endian words, so
amounts and points embed by their words and equality is decided word by word.
-/

namespace AmmRollup

/-- A value of 32 bytes, as four words from the lowest bytes to the highest. -/
structure Bytes32 where
  w0 : UInt64
  w1 : UInt64
  w2 : UInt64
  w3 : UInt64
deriving DecidableEq

namespace Bytes32

/-- The value whose bytes are all zero. -/
def zero : Bytes32 := ⟨0, 0, 0, 0⟩

instance : Inhabited Bytes32 := ⟨zero⟩

/-! ## Bytes -/

/-- The 32 bytes in order. -/
def toBytes (x : Bytes32) : Bytes :=
  Bytes.ofWord 8 x.w0 ++ Bytes.ofWord 8 x.w1 ++ Bytes.ofWord 8 x.w2 ++ Bytes.ofWord 8 x.w3

/-- The first 32 bytes of a string, zeros standing for those it lacks. -/
def ofBytes (bs : Bytes) : Bytes32 where
  w0 := Bytes.toWord (bs.take 8)
  w1 := Bytes.toWord ((bs.drop 8).take 8)
  w2 := Bytes.toWord ((bs.drop 16).take 8)
  w3 := Bytes.toWord ((bs.drop 24).take 8)

/-- Reads exactly 32 bytes. -/
def ofBytes? (bs : Bytes) : Option Bytes32 :=
  if bs.length = 32 then some (ofBytes bs) else none

/-- The bytes of several values, one after another. -/
def concat (xs : List Bytes32) : Bytes :=
  xs.flatMap toBytes

@[simp] theorem length_toBytes (x : Bytes32) : x.toBytes.length = 32 := by
  simp [toBytes]

/-- A value reads back from the front of its bytes. -/
theorem ofBytes_toBytes_append (x : Bytes32) (rest : Bytes) : ofBytes (x.toBytes ++ rest) = x := by
  simp [ofBytes, toBytes, List.drop_append, List.drop_of_length_le]

@[simp] theorem ofBytes_toBytes (x : Bytes32) : ofBytes x.toBytes = x := by
  simpa using ofBytes_toBytes_append x []

@[simp] theorem ofBytes?_toBytes (x : Bytes32) : ofBytes? x.toBytes = some x := by
  simp [ofBytes?]

/-- Equal bytes mean equal values. -/
theorem toBytes_injective {x y : Bytes32} (h : x.toBytes = y.toBytes) : x = y := by
  rw [← ofBytes_toBytes x, h, ofBytes_toBytes]

/-! ## Embeddings -/

/-- A word in the low bytes, zeros above. -/
def ofWord (w : UInt64) : Bytes32 := ⟨w, 0, 0, 0⟩

/-- A 128-bit number in the low bytes, zeros above. -/
def ofBits128 (n : BitVec 128) : Bytes32 :=
  ⟨UInt64.ofNat n.toNat, UInt64.ofNat (n.toNat / (1 <<< 64)), 0, 0⟩

/-- The number whose little-endian bytes these are. -/
def toNat (x : Bytes32) : Nat :=
  x.w0.toNat + 1 <<< 64 * x.w1.toNat + 1 <<< 128 * x.w2.toNat + 1 <<< 192 * x.w3.toNat

/-- The 32 low little-endian bytes of a number. -/
def ofNat (n : Nat) : Bytes32 :=
  ⟨UInt64.ofNat n, UInt64.ofNat (n / (1 <<< 64)), UInt64.ofNat (n / (1 <<< 128)),
    UInt64.ofNat (n / (1 <<< 192))⟩

/-- The UTF-8 bytes of a text, cut to 32 or filled with zeros. -/
def ofText (s : String) : Bytes32 :=
  ofBytes (Bytes.ofText s)

/-- A number of 256 bits reads back from its bytes. -/
theorem toNat_ofNat {n : Nat} (h : n < 1 <<< 256) : (ofNat n).toNat = n := by
  simp only [toNat, ofNat, UInt64.toNat_ofNat', Nat.one_shiftLeft] at h ⊢
  omega

/-- Amounts embed without loss. -/
theorem ofWord_injective {v w : UInt64} (h : ofWord v = ofWord w) : v = w := by
  simpa [ofWord] using h

/-- Numbers of 128 bits embed without loss. -/
theorem ofBits128_injective {m n : BitVec 128} (h : ofBits128 m = ofBits128 n) : m = n := by
  have hm := m.isLt
  have hn := n.isLt
  simp only [ofBits128, mk.injEq, ← UInt64.toNat_inj, UInt64.toNat_ofNat',
    Nat.one_shiftLeft] at h
  apply BitVec.eq_of_toNat_eq
  omega

/-! ## Hexadecimal text -/

/-- The 64 lowercase digits of a value. -/
def hex (x : Bytes32) : String := Bytes.hex x.toBytes

/-- The digits of the first six bytes, enough to tell values apart in a message. -/
def shortHex (x : Bytes32) : String := Bytes.hex (x.toBytes.take 6)

end Bytes32

end AmmRollup
