import AmmRollup.Proof

/-!
# AmmRollup.Store.Encoding

The bytes of a proof in a file: the tag of its method in four bytes, the eight roots,
the length of the payload in eight bytes and the payload.  Numbers are little-endian.
What follows in a file is not looked at.
-/

namespace AmmRollup

namespace Proof

/-- The bytes of a proof. -/
def encode (p : Proof) : Bytes :=
  Bytes.ofWord 4 p.method.tag.toUInt64 ++ (p.input.toBytes ++ (p.output.toBytes ++
    (Bytes.ofNat 8 p.payload.length ++ p.payload)))

/-- The proof at the front of a byte string. -/
def decode? (bs : Bytes) : Option Proof := do
  let (tag, bs) ← Bytes.split? 4 bs
  let method ← Method.ofTag? (Bytes.toNat tag)
  let (input, bs) ← Bytes.split? 128 bs
  let (output, bs) ← Bytes.split? 128 bs
  let (size, bs) ← Bytes.split? 8 bs
  let (payload, _) ← Bytes.split? (Bytes.toNat size) bs
  return ⟨method, .ofBytes input, .ofBytes output, payload⟩

/-- A proof reads back from its bytes, whatever follows them. -/
theorem decode?_encode_append {p : Proof} (h : p.payload.length < 1 <<< 64) (rest : Bytes) :
    decode? (p.encode ++ rest) = some p := by
  have htag : Bytes.toNat (Bytes.ofWord 4 p.method.tag.toUInt64) = p.method.tag.toNat := by
    rw [Bytes.toNat_ofWord]
    cases p.method <;> rfl
  have hsize : Bytes.toNat (Bytes.ofNat 8 p.payload.length) = p.payload.length := by
    rw [Bytes.toNat_ofNat, Nat.mod_eq_of_lt h]
  simp only [encode, decode?, List.append_assoc, bind, Option.bind_some,
    Bytes.split?_append (Bytes.length_ofWord 4 _), htag, Method.ofTag?_tag,
    Bytes.split?_append (StateRoots.length_toBytes _), Bytes.split?_append (Bytes.length_ofNat 8 _),
    hsize, Bytes.split?_append rfl, StateRoots.ofBytes_toBytes, pure]

end Proof

end AmmRollup
