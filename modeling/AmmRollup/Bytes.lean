/-!
# AmmRollup.Bytes

Byte strings and their written forms: machine words in little-endian order, and
lowercase hexadecimal text.  Both writers come with a reader, and each reader
takes back what its writer wrote.

This module depends only on the Lean 4 core library.
-/

namespace AmmRollup

/-- A byte string. -/
abbrev Bytes := List UInt8

namespace Bytes

/-! ## Words -/

/-- The `n` low bytes of a word, lowest first. -/
def ofWord : Nat → UInt64 → Bytes
  | 0, _ => []
  | n + 1, w => w.toUInt8 :: ofWord n (w >>> 8)

/-- The word whose low bytes these are, lowest first; bytes past the eighth fall off. -/
def toWord : Bytes → UInt64
  | [] => 0
  | b :: bs => b.toUInt64 + 256 * toWord bs

/-- The little-endian words of a byte string; a last word cut short is filled with zeros. -/
def words : Bytes → List UInt64
  | b0 :: b1 :: b2 :: b3 :: b4 :: b5 :: b6 :: b7 :: rest =>
      toWord [b0, b1, b2, b3, b4, b5, b6, b7] :: words rest
  | [] => []
  | bs => [toWord bs]

/-- The number whose base-256 digits these are, lowest first. -/
def toNat : Bytes → Nat
  | [] => 0
  | b :: bs => b.toNat + 256 * toNat bs

/-- The `n` low base-256 digits of a number, lowest first. -/
def ofNat : Nat → Nat → Bytes
  | 0, _ => []
  | n + 1, k => UInt8.ofNat k :: ofNat n (k / 256)

@[simp] theorem length_ofWord (n : Nat) (w : UInt64) : (ofWord n w).length = n := by
  induction n generalizing w with
  | zero => rfl
  | succ n ih => simp [ofWord, ih]

@[simp] theorem length_ofNat (n k : Nat) : (ofNat n k).length = n := by
  induction n generalizing k with
  | zero => rfl
  | succ n ih => simp [ofNat, ih]

/-- One more digit makes room for 256 times as many numbers. -/
theorem shiftLeft_digits_succ (n : Nat) : 1 <<< (8 * (n + 1)) = 256 * 1 <<< (8 * n) := by
  rw [Nat.one_shiftLeft, Nat.one_shiftLeft, Nat.mul_succ, Nat.pow_add, Nat.mul_comm]

/-- Digits read back as the number they were taken from, up to what they can hold. -/
theorem toNat_ofNat (n k : Nat) : toNat (ofNat n k) = k % 1 <<< (8 * n) := by
  induction n generalizing k with
  | zero => simp [ofNat, toNat, Nat.mod_one]
  | succ n ih =>
    rw [ofNat, toNat, ih, shiftLeft_digits_succ, Nat.mod_mul, UInt8.toNat_ofNat']

theorem toNat_ofWord (n : Nat) (w : UInt64) : toNat (ofWord n w) = w.toNat % 1 <<< (8 * n) := by
  induction n generalizing w with
  | zero => simp [ofWord, toNat, Nat.mod_one]
  | succ n ih =>
    rw [ofWord, toNat, ih, shiftLeft_digits_succ, Nat.mod_mul]
    simp [Nat.shiftRight_eq_div_pow]

theorem toNat_toWord (bs : Bytes) : (toWord bs).toNat = toNat bs % 1 <<< 64 := by
  induction bs with
  | nil => rfl
  | cons b bs ih =>
    rw [toWord, toNat, UInt64.toNat_add, UInt64.toNat_mul, ih]
    have : (256 : UInt64).toNat = 256 := rfl
    simp only [UInt8.toNat_toUInt64, this, Nat.one_shiftLeft]
    omega

/-- A word reads back from its eight bytes. -/
@[simp] theorem toWord_ofWord (w : UInt64) : toWord (ofWord 8 w) = w := by
  apply UInt64.toNat_inj.mp
  rw [toNat_toWord, toNat_ofWord, Nat.one_shiftLeft, Nat.mod_mod, Nat.mod_eq_of_lt w.toNat_lt]

/-! ## Pieces -/

/-- The first `n` bytes and the rest, if there are that many. -/
def split? (n : Nat) (bs : Bytes) : Option (Bytes × Bytes) :=
  if n ≤ bs.length then some (bs.take n, bs.drop n) else none

/-- What stands before a rest splits off by its length. -/
theorem split?_append {n : Nat} {bs : Bytes} (h : bs.length = n) (rest : Bytes) :
    split? n (bs ++ rest) = some (bs, rest) := by
  subst h
  simp [split?]

/-! ## Text -/

/-- The UTF-8 bytes of a text. -/
def ofText (s : String) : Bytes := s.toUTF8.data.toList

/-- The text whose UTF-8 bytes these are, if they are any text's. -/
def toText? (bs : Bytes) : Option String := String.fromUTF8? ⟨bs.toArray⟩

/-- A text reads back from its bytes. -/
@[simp] theorem toText?_ofText (s : String) : toText? (ofText s) = some s := by
  unfold toText? ofText String.fromUTF8?
  rw [String.toUTF8_eq_toByteArray, Array.toArray_toList, dif_pos s.isValidUTF8]
  rfl

/-! ## Hexadecimal text -/

/-- The lowercase digit of a number below sixteen. -/
def hexDigit (n : Nat) : Char :=
  if n < 10 then Char.ofNat (48 + n) else Char.ofNat (87 + n)

/-- The value of a hexadecimal digit of either case. -/
def hexValue? (c : Char) : Option Nat :=
  if '0' ≤ c ∧ c ≤ '9' then some (c.toNat - 48)
  else if 'a' ≤ c ∧ c ≤ 'f' then some (c.toNat - 87)
  else if 'A' ≤ c ∧ c ≤ 'F' then some (c.toNat - 55)
  else none

/-- Two lowercase digits a byte, high digit first. -/
def hexChars (bs : Bytes) : List Char :=
  bs.flatMap fun b => [hexDigit (b.toNat / 16), hexDigit (b.toNat % 16)]

/-- The lowercase hexadecimal text of a byte string. -/
def hex (bs : Bytes) : String :=
  String.ofList (hexChars bs)

/-- Reads pairs of hexadecimal digits of either case, refusing an odd digit out. -/
def ofHexChars? : List Char → Option Bytes
  | [] => some []
  | [_] => none
  | hi :: lo :: rest =>
      match hexValue? hi, hexValue? lo, ofHexChars? rest with
      | some h, some l, some bs => some (UInt8.ofNat (16 * h + l) :: bs)
      | _, _, _ => none

/-- Reads a hexadecimal text of either case. -/
def ofHex? (s : String) : Option Bytes :=
  ofHexChars? s.toList

@[simp] theorem length_hexChars (bs : Bytes) : (hexChars bs).length = 2 * bs.length := by
  induction bs with
  | nil => rfl
  | cons b bs ih =>
    rw [hexChars, List.flatMap_cons, ← hexChars, List.length_append, ih]
    simp only [List.length_cons, List.length_nil]
    omega

/-- A lowercase digit has the value it was written for. -/
theorem hexValue?_hexDigit : ∀ n < 16, hexValue? (hexDigit n) = some n := by
  decide

/-- Hexadecimal text reads back as the bytes it was written for. -/
theorem ofHexChars?_hexChars (bs : Bytes) : ofHexChars? (hexChars bs) = some bs := by
  induction bs with
  | nil => rfl
  | cons b bs ih =>
    have hb := b.toNat_lt
    rw [hexChars, List.flatMap_cons, ← hexChars]
    simp only [List.cons_append, List.nil_append, ofHexChars?, ih,
      hexValue?_hexDigit (b.toNat / 16) (by omega), hexValue?_hexDigit (b.toNat % 16) (by omega)]
    rw [Nat.div_add_mod, UInt8.ofNat_toNat]

end Bytes

end AmmRollup
