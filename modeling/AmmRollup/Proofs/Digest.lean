import AmmRollup.Proofs.Text
import AmmRollup.Record
import Mathlib.Data.List.Nodup
import Mathlib.Data.Set.Function

/-!
# AmmRollup.Proofs.Digest

What a digest pins down.  No hash function is injective on all byte strings, so
every statement that rests on digests is about a set of strings that were hashed,
and assumes of that set alone that no two of its strings share a digest and that
no record among them has the digest of an unwritten leaf (`CollisionFree`).

Under that assumption a node determines its two children and a leaf determines
its record, written or not:

* `CollisionFree.pair_inj` — equal nodes have equal children;
* `CollisionFree.leafOrEmpty_inj` — equal leaves have equal records.

Both rest on the encodings being injective, which needs no assumption.
-/

namespace AmmRollup

/-! ## Encodings

What is hashed is made of words, addresses and digests, each of a fixed width.  Values of one
width are told apart by their bytes, and a list of digests by the bytes of all of them.
-/

namespace Bytes

/-- Byte strings of one length are told apart by the numbers they spell. -/
theorem toNat_injective {bs cs : Bytes} (hl : bs.length = cs.length) (h : toNat bs = toNat cs) :
    bs = cs := by
  -- the first byte is the remainder by 256, and the rest stand for the quotient
  induction bs generalizing cs with
  | nil => exact (List.length_eq_zero_iff.mp hl.symm).symm
  | cons b bs ih =>
      cases cs with
      | nil => contradiction
      | cons c cs =>
          simp only [toNat] at h
          have hb := b.toNat_lt
          have hc := c.toNat_lt
          have hbc : b = c := UInt8.toNat_inj.mp (by omega)
          have hrest : bs = cs := ih (by simpa using hl) (by omega)
          rw [hbc, hrest]

theorem toNat_lt (bs : Bytes) : toNat bs < 1 <<< (8 * bs.length) := by
  induction bs with
  | nil => simp [toNat]
  | cons b bs ih =>
      have hb := b.toNat_lt
      rw [toNat, List.length_cons, shiftLeft_digits_succ]
      omega

/-- Strings of at most eight bytes and one length are told apart by their words. -/
theorem toWord_injective {bs cs : Bytes} (hl : bs.length = cs.length) (h8 : bs.length ≤ 8)
    (h : toWord bs = toWord cs) : bs = cs := by
  have hlt {ds : Bytes} (hd : ds.length ≤ 8) : toNat ds < 1 <<< 64 := by
    have := toNat_lt ds
    rw [Nat.one_shiftLeft] at this ⊢
    exact Nat.lt_of_lt_of_le this (Nat.pow_le_pow_right (by decide) (by omega))
  apply toNat_injective hl
  have := congrArg UInt64.toNat h
  rwa [toNat_toWord, toNat_toWord, Nat.mod_eq_of_lt (hlt h8),
    Nat.mod_eq_of_lt (hlt (hl ▸ h8))] at this

end Bytes

namespace Bytes32

/-- Strings of one length that give one value agree in their first 32 bytes. -/
theorem take_eq_of_ofBytes_eq {bs cs : Bytes} (hl : bs.length = cs.length)
    (h : ofBytes bs = ofBytes cs) : bs.take 32 = cs.take 32 := by
  have hword (n : Nat) (hn : Bytes.toWord ((bs.drop n).take 8) =
      Bytes.toWord ((cs.drop n).take 8)) : (bs.drop n).take 8 = (cs.drop n).take 8 :=
    Bytes.toWord_injective (by simp [hl]) (by simp) hn
  have hsplit (ds : Bytes) : ds.take 32 = (ds.drop 0).take 8 ++ ((ds.drop 8).take 8 ++
      ((ds.drop 16).take 8 ++ (ds.drop 24).take 8)) := by
    rw [show 32 = 8 + (8 + (8 + 8)) from rfl]
    simp only [List.take_add, List.drop_drop, List.drop_zero]
  simp only [ofBytes, mk.injEq] at h
  rw [hsplit bs, hsplit cs, hword 0 h.1, hword 8 h.2.1, hword 16 h.2.2.1, hword 24 h.2.2.2]

/-- A list of values is told from any other by its bytes. -/
theorem concat_injective {xs ys : List Bytes32} (h : concat xs = concat ys) : xs = ys := by
  -- lists of different lengths have encodings of different lengths
  induction xs generalizing ys with
  | nil =>
      cases ys with
      | nil => rfl
      | cons y ys =>
          have := congrArg List.length h
          simp only [concat, List.flatMap_cons, List.length_append, length_toBytes,
            List.flatMap_nil, List.length_nil] at this
          omega
  | cons x xs ih =>
      cases ys with
      | nil =>
          have := congrArg List.length h
          simp only [concat, List.flatMap_cons, List.length_append, length_toBytes,
            List.flatMap_nil, List.length_nil] at this
          omega
      | cons y ys =>
          simp only [concat, List.flatMap_cons] at h
          have hxy := List.append_inj h (by simp)
          rw [toBytes_injective hxy.1, ih hxy.2]

end Bytes32

namespace Address

/-- ASCII characters are told apart by their bytes. -/
theorem eq_of_map_toBytes {cs ds : List Char} (hc : ∀ c ∈ cs, c.toNat < 128)
    (hd : ∀ d ∈ ds, d.toNat < 128)
    (h : cs.map (fun c => UInt8.ofNat c.toNat) = ds.map (fun d => UInt8.ofNat d.toNat)) :
    cs = ds := by
  induction cs generalizing ds with
  | nil => simpa using h.symm
  | cons c cs ih =>
      cases ds with
      | nil => simp at h
      | cons d ds =>
          simp only [List.map_cons, List.cons.injEq] at h
          -- a code below 128 is its byte, so the bytes tell the characters apart
          have hcd : c.toNat = d.toNat := by
            have := congrArg UInt8.toNat h.1
            simp only [UInt8.toNat_ofNat'] at this
            have h₁ := hc c List.mem_cons_self
            have h₂ := hd d List.mem_cons_self
            omega
          have hrest : cs = ds :=
            ih (fun c hm => hc c (List.mem_cons_of_mem _ hm))
              (fun d hm => hd d (List.mem_cons_of_mem _ hm)) h.2
          rw [Char.toNat_inj.mp hcd, hrest]

theorem toBytes_injective {a b : Address} (h : a.toBytes = b.toBytes) : a = b := by
  have hchars : a.chars = b.chars :=
    eq_of_map_toBytes (fun _ => ascii_of_mem_chars) (fun _ => ascii_of_mem_chars) h
  have hhex : Bytes.hexChars a.body = Bytes.hexChars b.body := by
    simpa [chars] using hchars
  have hbody : a.body = b.body := by
    have := congrArg Bytes.ofHexChars? hhex
    simpa [Bytes.ofHexChars?_hexChars] using this
  obtain ⟨a, ha⟩ := a
  obtain ⟨b, hb⟩ := b
  simpa using hbody

/-- The two values of an address in a record determine it. -/
theorem fields_injective {a b : Address} (h : a.fields = b.fields) : a = b := by
  simp only [fields, List.cons.injEq, and_true] at h
  obtain ⟨hfront, hback⟩ := h
  have hfront' := Bytes32.take_eq_of_ofBytes_eq (by simp) hfront
  have hback' := Bytes32.take_eq_of_ofBytes_eq (by simp) hback
  rw [List.take_of_length_le (by simp), List.take_of_length_le (by simp)] at hback'
  apply toBytes_injective
  rw [← List.take_append_drop 32 a.toBytes, hfront', hback', List.take_append_drop]

end Address

/-! ## Strings that are hashed

Leaves are hashed from the field elements of a record and nodes from two digests.  `LawfulRecord`
says of a shape of records that its fields determine the record; the three shapes have it, and
the lemmas about trees are stated for any shape that does.
-/

/-- The byte string whose digest is the leaf of a record. -/
def Record.preimage {ρ : Type} [Record ρ] (r : ρ) : Bytes := Bytes32.concat (Record.fields r)

/-- The byte string whose digest is the node above two children. -/
def pairBytes (left right : Bytes32) : Bytes := left.toBytes ++ right.toBytes

/-- A byte string that is hashed for a record. -/
inductive IsRecord : Bytes → Prop
  | account (r : AccountRecord) : IsRecord (Record.preimage r)
  | pool (p : Pool) : IsRecord (Record.preimage p)
  | liquidity (l : Liquidity) : IsRecord (Record.preimage l)

/-- A shape of records whose fields determine them. -/
class LawfulRecord (ρ : Type) [Record ρ] : Prop where
  fields_injective : ∀ {r s : ρ}, Record.fields r = Record.fields s → r = s
  isRecord : ∀ r : ρ, IsRecord (Record.preimage r)

instance : LawfulRecord AccountRecord where
  fields_injective {r s} h := by
    obtain ⟨account, token, amount⟩ := r
    obtain ⟨account', token', amount'⟩ := s
    simp only [Record.fields] at h
    obtain ⟨haccount, hrest⟩ := List.append_inj h (by simp [Address.fields])
    simp only [List.cons.injEq, and_true] at hrest
    rw [Address.fields_injective haccount, hrest.1, Bytes32.ofWord_injective hrest.2]
  isRecord := .account

instance : LawfulRecord Pool where
  fields_injective {p q} h := by
    obtain ⟨base, quote, baseAmount, quoteAmount, points⟩ := p
    obtain ⟨base', quote', baseAmount', quoteAmount', points'⟩ := q
    simp only [Record.fields, List.cons.injEq, and_true] at h
    obtain ⟨hbase, hquote, hbaseAmount, hquoteAmount, hpoints⟩ := h
    rw [hbase, hquote, Bytes32.ofWord_injective hbaseAmount,
      Bytes32.ofWord_injective hquoteAmount, Bytes32.ofBits128_injective hpoints]
  isRecord := .pool

instance : LawfulRecord Liquidity where
  fields_injective {l m} h := by
    obtain ⟨provider, base, quote, points⟩ := l
    obtain ⟨provider', base', quote', points'⟩ := m
    simp only [Record.fields] at h
    obtain ⟨hprovider, hrest⟩ := List.append_inj h (by simp [Address.fields])
    simp only [List.cons.injEq, and_true] at hrest
    rw [Address.fields_injective hprovider, hrest.1, hrest.2.1,
      Bytes32.ofBits128_injective hrest.2.2]
  isRecord := .liquidity

theorem preimage_injective {ρ : Type} [Record ρ] [LawfulRecord ρ] {r s : ρ}
    (h : Record.preimage r = Record.preimage s) : r = s :=
  LawfulRecord.fields_injective (Bytes32.concat_injective h)

theorem pairBytes_injective {a b c d : Bytes32} (h : pairBytes a b = pairBytes c d) :
    a = c ∧ b = d := by
  have := List.append_inj h (by simp)
  exact ⟨Bytes32.toBytes_injective this.1, Bytes32.toBytes_injective this.2⟩

/-! ## Digests

No hash function of fixed width is injective, so results about digests assume that there are no
collisions among the strings that were hashed, and name these strings.  A witness can then
discharge the assumption by computing the digests and comparing them.
-/

/-- Among the byte strings that were hashed no two share a digest, and no record has
the digest that stands for no record at all. -/
structure CollisionFree (hashed : Set Bytes) : Prop where
  injOn : Set.InjOn keccak256 hashed
  ne_empty : ∀ bytes ∈ hashed, IsRecord bytes → keccak256 bytes ≠ emptyLeaf

/-- What a record that may be missing is hashed from. -/
def leafPreimages {ρ : Type} [Record ρ] : Option ρ → Set Bytes
  | none => ∅
  | some r => {Record.preimage r}

namespace CollisionFree

variable {hashed : Set Bytes}

theorem mono {fewer : Set Bytes} (h : CollisionFree hashed) (hs : fewer ⊆ hashed) :
    CollisionFree fewer :=
  ⟨h.injOn.mono hs, fun bytes hb => h.ne_empty bytes (hs hb)⟩

/-- Strings whose digests were seen to differ, and from the unwritten leaf. -/
theorem of_nodup {strings : List Bytes} (hs : ∀ bytes ∈ hashed, bytes ∈ strings)
    (hn : (emptyLeaf :: strings.map keccak256).Nodup) : CollisionFree hashed := by
  rw [List.nodup_cons] at hn
  constructor
  · intro a ha b hb hab
    exact List.inj_on_of_nodup_map hn.2 (hs a ha) (hs b hb) hab
  · intro bytes hb _ he
    exact hn.1 (he ▸ List.mem_map_of_mem (hs bytes hb))

/-- Equal nodes have equal children. -/
theorem pair_inj (h : CollisionFree hashed) {a b c d : Bytes32}
    (hab : pairBytes a b ∈ hashed) (hcd : pairBytes c d ∈ hashed)
    (he : hashPair a b = hashPair c d) : a = c ∧ b = d :=
  pairBytes_injective (h.injOn hab hcd he)

variable {ρ : Type} [Record ρ] [LawfulRecord ρ]

/-- Equal leaves have equal records. -/
theorem leafOrEmpty_inj (h : CollisionFree hashed) {p q : Option ρ}
    (hp : leafPreimages p ⊆ hashed) (hq : leafPreimages q ⊆ hashed)
    (he : Record.leafOrEmpty p = Record.leafOrEmpty q) : p = q := by
  cases p with
  | none =>
      cases q with
      | none => rfl
      | some s => exact absurd he.symm (h.ne_empty _ (hq rfl) (LawfulRecord.isRecord s))
  | some r =>
      cases q with
      | none => exact absurd he (h.ne_empty _ (hp rfl) (LawfulRecord.isRecord r))
      | some s => rw [preimage_injective (h.injOn (hp rfl) (hq rfl) he)]

end CollisionFree

end AmmRollup
