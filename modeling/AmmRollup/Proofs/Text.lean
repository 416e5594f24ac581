import AmmRollup.Address
import Mathlib.Data.String.Basic
import Mathlib.Tactic.IntervalCases

/-!
# AmmRollup.Proofs.Text

Which texts are addresses.  Their characters are ASCII, so a text has as many bytes as
characters.  Lowercase hexadecimal digits in pairs are the text of exactly one byte string,
so a text of the right size and start is the text of exactly one address.

* `Address.parse_eq_ok_iff` — an address is read from its own text and from no other;
* `Address.exists_parse_iff` — which texts those are (`Address.Spelled`).
-/

namespace AmmRollup

/-- A text of ASCII characters has one byte for each. -/
theorem utf8ByteSize_ofList_ascii {cs : List Char} (h : ∀ c ∈ cs, c.toNat < 128) :
    (String.ofList cs).utf8ByteSize = cs.length := by
  rw [String.utf8ByteSize_ofList]
  induction cs with
  | nil => rfl
  | cons c cs ih =>
    have hc : c.val.toNat < 128 := h c List.mem_cons_self
    have hone : c.utf8Size = 1 := by
      rw [Char.utf8Size_eq_one_iff, UInt32.le_iff_toNat_le]
      exact Nat.le_of_lt_succ hc
    rw [String.utf8Len_cons, ih fun d hd => h d (List.mem_cons_of_mem _ hd), hone,
      List.length_cons]

/-! ## Hexadecimal text

Reading digits accepts both cases; writing gives lowercase.  On lowercase digits the two are
inverse, which is what an address asks for.
-/

namespace Bytes

/-- The digits of lowercase hexadecimal text. -/
def lowerDigits : List Char :=
  ['0', '1', '2', '3', '4', '5', '6', '7', '8', '9', 'a', 'b', 'c', 'd', 'e', 'f']

/-- The lowercase digits are what the numbers below sixteen are written as. -/
theorem lowerDigits_eq : lowerDigits = (List.range 16).map hexDigit := rfl

/-- The lowercase digits are those of the numbers below sixteen. -/
theorem mem_lowerDigits {c : Char} : c ∈ lowerDigits ↔ ∃ n < 16, hexDigit n = c := by
  simp only [lowerDigits_eq, List.mem_map, List.mem_range]

theorem ascii_hexDigit : ∀ n < 16, (hexDigit n).toNat < 128 := by
  decide

theorem ascii_of_mem_lowerDigits {c : Char} (h : c ∈ lowerDigits) : c.toNat < 128 := by
  obtain ⟨n, hn, rfl⟩ := mem_lowerDigits.mp h
  exact ascii_hexDigit n hn

theorem hexChars_cons (b : UInt8) (bs : Bytes) :
    hexChars (b :: bs) = hexDigit (b.toNat / 16) :: hexDigit (b.toNat % 16) :: hexChars bs := rfl

/-- Hexadecimal text is written in lowercase. -/
theorem mem_lowerDigits_of_mem_hexChars {bs : Bytes} {c : Char} (h : c ∈ hexChars bs) :
    c ∈ lowerDigits := by
  obtain ⟨b, -, hc⟩ := List.mem_flatMap.mp h
  have hb := b.toNat_lt
  simp only [List.mem_cons, List.not_mem_nil, or_false] at hc
  rcases hc with rfl | rfl
  · exact mem_lowerDigits.mpr ⟨_, by omega, rfl⟩
  · exact mem_lowerDigits.mpr ⟨_, by omega, rfl⟩

/-- Two lowercase digits are the text of a byte. -/
theorem exists_byte {hi lo : Char} (hhi : hi ∈ lowerDigits) (hlo : lo ∈ lowerDigits) :
    ∃ b : UInt8, hexDigit (b.toNat / 16) = hi ∧ hexDigit (b.toNat % 16) = lo := by
  obtain ⟨h, hh, rfl⟩ := mem_lowerDigits.mp hhi
  obtain ⟨l, hl, rfl⟩ := mem_lowerDigits.mp hlo
  have hb : (UInt8.ofNat (16 * h + l)).toNat = 16 * h + l :=
    UInt8.toNat_ofNat_of_lt' (by simp only [UInt8.size]; omega)
  refine ⟨UInt8.ofNat (16 * h + l), ?_, ?_⟩
  · rw [hb, show (16 * h + l) / 16 = h by omega]
  · rw [hb, show (16 * h + l) % 16 = l by omega]

/-- An even number of lowercase digits is the text of a byte string. -/
theorem exists_hexChars {n : Nat} {digits : List Char} (hlength : digits.length = 2 * n)
    (hdigits : ∀ c ∈ digits, c ∈ lowerDigits) :
    ∃ bs : Bytes, bs.length = n ∧ hexChars bs = digits := by
  induction n generalizing digits with
  | zero => exact ⟨[], rfl, (List.length_eq_zero_iff.mp hlength).symm⟩
  | succ n ih =>
    match digits with
    | hi :: lo :: rest =>
      simp only [List.mem_cons, forall_eq_or_imp] at hdigits
      obtain ⟨hhi, hlo, hrest⟩ := hdigits
      obtain ⟨b, rfl, rfl⟩ := exists_byte hhi hlo
      obtain ⟨bs, hbs, rfl⟩ := ih (by simpa [Nat.mul_succ] using hlength) hrest
      exact ⟨b :: bs, by rw [List.length_cons, hbs], hexChars_cons b bs⟩

/-- Digits are read two to a byte. -/
theorem length_of_ofHexChars? {digits : List Char} {bs : Bytes}
    (h : ofHexChars? digits = some bs) : digits.length = 2 * bs.length := by
  fun_induction ofHexChars? digits generalizing bs with
  | case1 => cases h; rfl
  | case2 => cases h
  | case3 hi lo rest high low bytes hrest _ _ ih =>
    cases h
    have := ih hrest
    simp only [List.length_cons]
    omega
  | case4 => cases h

/-- Lowercase digits are read as the bytes that they are the text of. -/
theorem ofHexChars?_eq_some_iff {digits : List Char} (hdigits : ∀ c ∈ digits, c ∈ lowerDigits)
    {bs : Bytes} : ofHexChars? digits = some bs ↔ digits = hexChars bs := by
  refine ⟨fun h => ?_, fun h => h ▸ ofHexChars?_hexChars bs⟩
  obtain ⟨cs, -, rfl⟩ := exists_hexChars (length_of_ofHexChars? h) hdigits
  rw [ofHexChars?_hexChars] at h
  rw [Option.some.inj h]

end Bytes

/-! ## Addresses

An address is read from the text that it is written as and from no other: the prefix, the length
and the case of the digits are all checked, so a text that is accepted leaves nothing open.
-/

namespace Address

open Bytes

theorem isLowerHex_hexDigit : ∀ n < 16, isLowerHex (hexDigit n) = true := by
  decide

/-- The digits that an address is checked for are those that it is written with. -/
theorem isLowerHex_iff {c : Char} : isLowerHex c = true ↔ c ∈ lowerDigits := by
  constructor
  · intro h
    have hrange : (48 ≤ c.toNat ∧ c.toNat ≤ 57) ∨ (97 ≤ c.toNat ∧ c.toNat ≤ 102) := by
      simpa [isLowerHex, Char.le_def, UInt32.le_iff_toNat_le] using h
    rw [← Char.ofNat_toNat c]
    rcases hrange with ⟨hmin, hmax⟩ | ⟨hmin, hmax⟩
    · interval_cases c.toNat <;> decide
    · interval_cases c.toNat <;> decide
  · intro h
    obtain ⟨n, hn, rfl⟩ := mem_lowerDigits.mp h
    exact isLowerHex_hexDigit n hn

theorem ascii_of_mem_chars {a : Address} {c : Char} (h : c ∈ a.chars) : c.toNat < 128 := by
  simp only [chars, List.mem_cons] at h
  rcases h with rfl | rfl | rfl | h
  · decide
  · decide
  · decide
  · exact ascii_of_mem_lowerDigits (mem_lowerDigits_of_mem_hexChars h)

@[simp] theorem toList_text (a : Address) : a.text.toList = a.chars :=
  String.toList_ofList

@[simp] theorem utf8ByteSize_text (a : Address) : a.text.utf8ByteSize = 55 := by
  rw [text, utf8ByteSize_ofList_ascii fun _ => ascii_of_mem_chars, length_chars]

/-- Digits are read as the address whose body they spell. -/
theorem ofDigits_eq_ok_iff {digits : List Char} {a : Address} :
    ofDigits digits = .ok a ↔ digits = hexChars a.body := by
  constructor
  · intro h
    unfold ofDigits at h
    split at h
    -- digits that are accepted are lowercase, and such digits spell one list of bytes
    · next hlower =>
      have hdigits : ∀ c ∈ digits, c ∈ lowerDigits := fun c hc =>
        isLowerHex_iff.mp (List.all_eq_true.mp hlower c hc)
      split at h
      · next body hbody =>
        split at h
        · cases h
          exact (ofHexChars?_eq_some_iff hdigits).mp hbody
        · cases h
      · cases h
    · cases h
  · rintro rfl
    have hlower : (hexChars a.body).all isLowerHex := List.all_eq_true.mpr fun c hc =>
      isLowerHex_iff.mpr (mem_lowerDigits_of_mem_hexChars hc)
    simp [ofDigits, hlower, ofHexChars?_hexChars, a.length_body]

/-- **Reading an address.**  An address is read from its own text and from no other. -/
theorem parse_eq_ok_iff {s : String} {a : Address} : parse s = .ok a ↔ s = a.text := by
  constructor
  · intro h
    unfold parse at h
    split at h
    · cases h
    · split at h
      -- the text is the prefix and digits, and the digits are those of the address
      · next digits hs =>
        rw [ofDigits_eq_ok_iff.mp h] at hs
        exact String.toList_inj.mp (hs.trans a.toList_text.symm)
      · cases h
  · rintro rfl
    rw [parse, if_neg (by simp), toList_text]
    exact ofDigits_eq_ok_iff.mpr rfl

/-- Whether a text is 55 bytes: `B62` and 52 lowercase hexadecimal digits. -/
def Spelled (s : String) : Prop :=
  s.utf8ByteSize = 55 ∧ ∃ digits : List Char, s.toList = 'B' :: '6' :: '2' :: digits ∧
    digits.length = 52 ∧ ∀ c ∈ digits, c ∈ lowerDigits

theorem spelled_text (a : Address) : Spelled a.text :=
  ⟨a.utf8ByteSize_text, hexChars a.body, a.toList_text, by simp [a.length_body],
    fun _ => mem_lowerDigits_of_mem_hexChars⟩

/-- The texts that are read as addresses. -/
theorem exists_parse_iff {s : String} : (∃ a, parse s = .ok a) ↔ Spelled s := by
  constructor
  · rintro ⟨a, ha⟩
    rw [parse_eq_ok_iff.mp ha]
    exact a.spelled_text
  · rintro ⟨-, digits, hs, hlength, hdigits⟩
    obtain ⟨body, hbody, rfl⟩ := exists_hexChars (show _ = 2 * 26 from hlength) hdigits
    have htext : s.toList = (text ⟨body, hbody⟩).toList := by rw [hs, toList_text]; rfl
    exact ⟨⟨body, hbody⟩, parse_eq_ok_iff.mpr (String.toList_inj.mp htext)⟩

end Address

end AmmRollup
