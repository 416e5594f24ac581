import AmmRollup.Proofs.Transition.Messages
import AmmRollup.Prover
import Mathlib.Data.List.TFAE
import Mathlib.Tactic.TFAE

/-!
# AmmRollup.Proofs.Encodings

Nothing is lost in what is hashed or signed.  Records of one shape are told apart by their
fields, by the bytes of these and by their packed bytes; roots by their bytes; attestations
by the bytes that they cover; and messages of steps by the bytes that are signed.

No two of the strings that were hashed sharing a digest, leaves then tell records apart, and
an attestation is good for nothing but the method, the roots and the key that it was issued
for.

* `encodings_faithful` — all of this in one statement.
-/

namespace AmmRollup

/-! ## Records

A record has three encodings: its fields, the bytes of these, which are hashed into its leaf, and
a packed form of fixed length.  Each is shown to determine the record by its own argument, and
the three together make the shape faithful.
-/

theorem Bytes.ofWord_injective {v w : UInt64} (h : ofWord 8 v = ofWord 8 w) : v = w := by
  rw [← toWord_ofWord v, h, toWord_ofWord]

/-- Points are told apart by their sixteen bytes. -/
theorem Bytes.ofNat_toNat_injective {m n : BitVec 128} (h : ofNat 16 m.toNat = ofNat 16 n.toNat) :
    m = n := by
  have hnat := congrArg Bytes.toNat h
  rw [toNat_ofNat, toNat_ofNat, Nat.one_shiftLeft, Nat.mod_eq_of_lt m.isLt,
    Nat.mod_eq_of_lt n.isLt] at hnat
  exact BitVec.eq_of_toNat_eq hnat

/-- A shape of records whose packed bytes determine them. -/
class LawfulPacking (ρ : Type) [Record ρ] : Prop where
  packed_injective : ∀ {r s : ρ}, Record.packed r = Record.packed s → r = s

instance : LawfulPacking AccountRecord where
  packed_injective {r s} h := by
    obtain ⟨account, token, amount⟩ := r
    obtain ⟨account', token', amount'⟩ := s
    simp only [Record.packed] at h
    obtain ⟨h, hamount⟩ := List.append_inj h (by simp)
    obtain ⟨haccount, htoken⟩ := List.append_inj h (by simp)
    rw [Address.toBytes_injective haccount, Bytes32.toBytes_injective htoken,
      Bytes.ofWord_injective hamount]

instance : LawfulPacking Pool where
  packed_injective {p q} h := by
    obtain ⟨base, quote, baseAmount, quoteAmount, points⟩ := p
    obtain ⟨base', quote', baseAmount', quoteAmount', points'⟩ := q
    simp only [Record.packed] at h
    obtain ⟨h, hpoints⟩ := List.append_inj h (by simp)
    obtain ⟨h, hquoteAmount⟩ := List.append_inj h (by simp)
    obtain ⟨h, hbaseAmount⟩ := List.append_inj h (by simp)
    obtain ⟨hbase, hquote⟩ := List.append_inj h (by simp)
    rw [Bytes32.toBytes_injective hbase, Bytes32.toBytes_injective hquote,
      Bytes.ofWord_injective hbaseAmount, Bytes.ofWord_injective hquoteAmount,
      Bytes.ofNat_toNat_injective hpoints]

instance : LawfulPacking Liquidity where
  packed_injective {l m} h := by
    obtain ⟨provider, base, quote, points⟩ := l
    obtain ⟨provider', base', quote', points'⟩ := m
    simp only [Record.packed] at h
    obtain ⟨h, hpoints⟩ := List.append_inj h (by simp)
    obtain ⟨h, hquote⟩ := List.append_inj h (by simp)
    obtain ⟨hprovider, hbase⟩ := List.append_inj h (by simp)
    rw [Address.toBytes_injective hprovider, Bytes32.toBytes_injective hbase,
      Bytes32.toBytes_injective hquote, Bytes.ofNat_toNat_injective hpoints]

/-- A shape of records that lose nothing as fields, as the bytes of these or as packed bytes,
of which there are `length`. -/
structure Record.Faithful (ρ : Type) [Record ρ] (length : Nat) : Prop where
  tfae : ∀ r s : ρ,
    [fields r = fields s, preimage r = preimage s, packed r = packed s, r = s].TFAE
  length_packed : ∀ r : ρ, (packed r).length = length

theorem Record.Faithful.of_lawful {ρ : Type} [Record ρ] [LawfulRecord ρ] [LawfulPacking ρ]
    {length : Nat} (hlength : ∀ r : ρ, (packed r).length = length) : Faithful ρ length where
  tfae r s := by
    tfae_have 1 → 2 := congrArg Bytes32.concat
    tfae_have 2 → 4 := preimage_injective
    tfae_have 3 → 4 := LawfulPacking.packed_injective
    tfae_have 4 → 1 := congrArg fields
    tfae_have 4 → 3 := congrArg packed
    tfae_finish
  length_packed := hlength

/-- Records are told apart by their leaves as far as no two of them share a digest. -/
theorem Record.leaf_injOn {ρ : Type} [Record ρ] [LawfulRecord ρ] {hashed : Set Bytes}
    (hfree : Set.InjOn keccak256 hashed) :
    Set.InjOn (leaf : ρ → Bytes32) {r | preimage r ∈ hashed} :=
  fun _ hr _ hs he => preimage_injective (hfree hr hs he)

/-! ## Attestations

A proof in attest mode is a digest of the key, the method and both roots.  It verifies when its
payload is that digest, so what is changed in it shows, as far as the two strings do not share a
digest.
-/

theorem Method.tag_injective {m n : Method} (h : m.tag = n.tag) : m = n := by
  have htag := ofTag?_tag m
  rw [h, ofTag?_tag] at htag
  exact (Option.some.inj htag).symm

namespace Prover

variable {p q : Prover} {a b : Proof}

/-- The bytes that an attestation covers determine the key, the method and the roots. -/
theorem preimage_eq_iff {m n : Method} {input output input' output' : StateRoots} :
    p.preimage m input output = q.preimage n input' output' ↔
      p.key = q.key ∧ m = n ∧ input = input' ∧ output = output' := by
  constructor
  · intro h
    obtain ⟨hkey, hrest⟩ := List.append_inj h (by simp)
    obtain ⟨hmethod, hroots⟩ := List.cons.inj hrest
    obtain ⟨hinput, houtput⟩ := List.append_inj hroots (by simp)
    exact ⟨Bytes32.toBytes_injective hkey, Method.tag_injective hmethod,
      StateRoots.toBytes_injective hinput, StateRoots.toBytes_injective houtput⟩
  · rintro ⟨hkey, rfl, rfl, rfl⟩
    rw [preimage, preimage, hkey]

/-- What the attestation of a proof covers. -/
def attested (p : Prover) (proof : Proof) : Bytes :=
  p.preimage proof.method proof.input proof.output

/-- What is attested names the key, the method and both roots, and nothing else. -/
theorem attested_eq_iff : q.attested b = p.attested a ↔
    q.key = p.key ∧ b.method = a.method ∧ b.input = a.input ∧ b.output = a.output :=
  preimage_eq_iff

/-- In attest mode a proof verifies when its payload is the digest of what is attested. -/
theorem verify_eq_true_iff (hp : p.mode = .attest) :
    p.verify a = true ↔ a.payload = (keccak256 (p.attested a)).toBytes := by
  rw [verify, hp]
  exact decide_eq_true_iff

/-- The proofs that verify in attest mode are those that the prover certifies. -/
theorem verify_iff_certify (hp : p.mode = .attest) :
    p.verify a = true ↔ a = p.certify a.method a.input a.output := by
  rw [verify_eq_true_iff hp]
  cases a
  simp only [certify, hp, Proof.mk.injEq, true_and]
  rfl

/-- A proof that verifies does so no more once its payload is changed, or what it attests to,
or the key.  With its payload and the rest both changed it is another proof, and verifies when
the prover certifies that one. -/
theorem verify_changed_iff {hashed : Set Bytes} (hfree : Set.InjOn keccak256 hashed)
    (hp : p.mode = .attest) (hq : q.mode = .attest) (hpa : p.attested a ∈ hashed)
    (hqb : q.attested b ∈ hashed) (ha : p.verify a = true)
    (hkept : b.payload = a.payload ∨ q.attested b = p.attested a) :
    q.verify b = true ↔ b = a ∧ q.key = p.key := by
  rw [verify_eq_true_iff hp] at ha
  rw [verify_eq_true_iff hq]
  constructor
  · intro hb
    -- an unchanged payload is the digest of one string only, and an unchanged string has one digest
    have hboth : b.payload = a.payload ∧ q.attested b = p.attested a := by
      rcases hkept with hpayload | hattested
      · have hdigest : keccak256 (q.attested b) = keccak256 (p.attested a) :=
          Bytes32.toBytes_injective (by rw [← hb, hpayload, ha])
        exact ⟨hpayload, hfree hqb hpa hdigest⟩
      · exact ⟨by rw [hb, hattested, ha], hattested⟩
    obtain ⟨hpayload, hattested⟩ := hboth
    obtain ⟨hkey, hmethod, hinput, houtput⟩ := attested_eq_iff.mp hattested
    cases a
    cases b
    simp only [Proof.mk.injEq]
    exact ⟨⟨hmethod, hinput, houtput, hpayload⟩, hkey⟩
  · rintro ⟨rfl, hkey⟩
    rw [ha, attested_eq_iff.mpr ⟨hkey, rfl, rfl, rfl⟩]

end Prover

/-! ## Messages

What a user signs names the parameters of the method, in layouts of three lengths.  Two steps
with the same message are signed for the same parameters, though not always for the same method.
-/

/-- The parameters that a step is signed for. -/
inductive SignedTerms where
  /-- Of a burn. -/
  | burn (token : Token) (amount : Amount)
  /-- Of what opens a pool, adds to it, buys or sells. -/
  | pair (terms : PairTerms)
  /-- Of a redemption. -/
  | redemption (base quote : Token) (baseLimit quoteLimit : Amount) (points : Points)
deriving DecidableEq

namespace SignedTerms

/-- The message that names them. -/
def message : SignedTerms → List Bytes32
  | .burn token amount => burnMessage token amount
  | .pair terms => terms.message
  | .redemption base quote baseLimit quoteLimit points =>
      removeMessage base quote baseLimit quoteLimit points

/-- Different terms have different messages: those of another layout are of another length. -/
theorem message_injective {x y : SignedTerms} (h : x.message = y.message) : x = y := by
  have hlength := congrArg List.length h
  -- messages of different shapes differ in length, so only like terms are compared
  cases x with
  | burn token amount =>
    cases y with
    | burn token' amount' =>
      simp only [message, burnMessage, List.cons.injEq, and_true] at h
      rw [h.1, Bytes32.ofWord_injective h.2]
    | pair _ | redemption _ _ _ _ _ => cases hlength
  | pair terms =>
    cases y with
    | pair terms' => rw [PairTerms.message_injective h]
    | burn _ _ | redemption _ _ _ _ _ => cases hlength
  | redemption base quote baseLimit quoteLimit points =>
    cases y with
    | redemption base' quote' baseLimit' quoteLimit' points' =>
      simp only [message, removeMessage, List.cons.injEq, and_true] at h
      obtain ⟨hbase, hquote, hbaseLimit, hquoteLimit, hpoints⟩ := h
      rw [hbase, hquote, Bytes32.ofWord_injective hbaseLimit,
        Bytes32.ofWord_injective hquoteLimit, Bytes32.ofBits128_injective hpoints]
    | burn _ _ | pair _ => cases hlength

end SignedTerms

namespace Transition

/-- The parameters of a step that its signature covers. -/
def signedTerms? : Transition → Option SignedTerms
  | .genesis | .deposit _ => none
  | .burn a => some (.burn a.token a.amount)
  | .createPool a => some (.pair ⟨a.base, a.quote, a.baseAmount, a.quoteAmount⟩)
  | .provideLiquidity a =>
      some (.pair ⟨a.claim.pool.base, a.claim.pool.quote, a.baseIn, a.quoteLimit⟩)
  | .removeLiquidity a =>
      some (.redemption a.claim.pool.base a.claim.pool.quote a.baseLimit a.quoteLimit a.redeemed)
  | .buy a | .sell a =>
      some (.pair ⟨a.claim.pool.base, a.claim.pool.quote, a.amount, a.limit⟩)

/-- The bytes that a step is signed as. -/
def signedBytes? (t : Transition) : Option Bytes :=
  t.signed?.map fun s => Bytes32.concat s.message

theorem signedBytes?_eq (t : Transition) :
    t.signedBytes? = t.signedTerms?.map fun terms => Bytes32.concat terms.message := by
  cases t <;> rfl

/-- Steps that are signed as the same bytes have the same parameters. -/
theorem signedBytes?_eq_iff {t u : Transition} :
    t.signedBytes? = u.signedBytes? ↔ t.signedTerms? = u.signedTerms? := by
  rw [signedBytes?_eq, signedBytes?_eq]
  refine (Option.map_injective fun x y h => ?_).eq_iff
  exact SignedTerms.message_injective (Bytes32.concat_injective h)

end Transition

/-! ## All of it -/

/-- **Encodings lose nothing.**  Records of one shape are equal exactly when their fields are,
or the bytes of these, or their packed bytes; and so are roots and their bytes, what an
attestation covers and its bytes, and the parameters of steps and the bytes that are signed.
In attest mode exactly the prover's own certificates verify.  Unless two of the strings that
were hashed share a digest, records with one leaf are one record, and a proof that verifies
does not with another payload, nor with another method, other roots or another key. -/
theorem encodings_faithful :
    (Record.Faithful AccountRecord 95 ∧ Record.Faithful Pool 96 ∧
      Record.Faithful Liquidity 135) ∧
    (∀ r s : StateRoots, r.toBytes = s.toBytes ↔ r = s) ∧
    (∀ (p q : Prover) (m n : Method) (input output input' output' : StateRoots),
      p.preimage m input output = q.preimage n input' output' ↔
        p.key = q.key ∧ m = n ∧ input = input' ∧ output = output') ∧
    (∀ t u : Transition, t.signedBytes? = u.signedBytes? ↔ t.signedTerms? = u.signedTerms?) ∧
    (∀ (p : Prover) (a : Proof), p.mode = .attest →
      (p.verify a = true ↔ a = p.certify a.method a.input a.output)) ∧
    ∀ hashed : Set Bytes, Set.InjOn keccak256 hashed →
      (Set.InjOn (Record.leaf : AccountRecord → Bytes32) {r | Record.preimage r ∈ hashed} ∧
        Set.InjOn (Record.leaf : Pool → Bytes32) {p | Record.preimage p ∈ hashed} ∧
        Set.InjOn (Record.leaf : Liquidity → Bytes32) {l | Record.preimage l ∈ hashed}) ∧
      ∀ (p q : Prover) (a b : Proof), p.mode = .attest → q.mode = .attest →
        p.attested a ∈ hashed → q.attested b ∈ hashed → p.verify a = true →
        (b.payload = a.payload ∨
          (q.key = p.key ∧ b.method = a.method ∧ b.input = a.input ∧ b.output = a.output)) →
        (q.verify b = true ↔ b = a ∧ q.key = p.key) := by
  refine ⟨⟨.of_lawful length_packed_accountRecord, .of_lawful length_packed_pool,
      .of_lawful length_packed_liquidity⟩, fun r s => ?_, fun _ _ _ _ _ _ _ _ =>
      Prover.preimage_eq_iff, fun _ _ => Transition.signedBytes?_eq_iff,
      fun _ _ => Prover.verify_iff_certify, fun hashed hfree => ?_⟩
  · exact ⟨StateRoots.toBytes_injective, congrArg _⟩
  · refine ⟨⟨Record.leaf_injOn hfree, Record.leaf_injOn hfree, Record.leaf_injOn hfree⟩, ?_⟩
    intro p q a b hp hq hpa hqb ha hkept
    rw [← Prover.attested_eq_iff] at hkept
    exact Prover.verify_changed_iff hfree hp hq hpa hqb ha hkept

/-- Roots that differ by their number alone. -/
def numberedRoots (n : UInt64) : StateRoots := ⟨.ofWord n, .zero, .zero, .zero⟩

/-- A prover with a key of its own number. -/
def numberedProver (n : UInt64) : Prover :=
  .attesting (.ofWord n) KeyRegistry.empty.verify

/-- What the first prover certifies of a deposit. -/
def numberedProof : Proof :=
  (numberedProver 1).certify .deposit (numberedRoots 1) (numberedRoots 2)

/-- The same certificate with other roots that it leads to. -/
def redirectedProof : Proof := { numberedProof with output := numberedRoots 3 }

/-- What is hashed for two balances and for the attestations. -/
def numberedStrings : List Bytes :=
  [Record.preimage firstRecord, Record.preimage { firstRecord with amount := 6 },
    (numberedProver 1).attested numberedProof, (numberedProver 1).attested redirectedProof,
    (numberedProver 2).attested numberedProof]

/-- Their digests, computed, are all different. -/
theorem nodup_numberedStrings : (numberedStrings.map keccak256).Nodup := by
  decide +kernel

/-- The proof verifies, but not with the other roots, nor with the other key; and the leaves of
the balances differ. -/
theorem encodings_faithful_numbered :
    Set.InjOn keccak256 {bytes | bytes ∈ numberedStrings} ∧
      (numberedProver 1).verify numberedProof = true ∧
      (numberedProver 1).verify redirectedProof = false ∧
      (numberedProver 2).verify numberedProof = false ∧
      Record.leaf firstRecord ≠ Record.leaf { firstRecord with amount := 6 } := by
  -- the strings were hashed beforehand, and their digests all differ
  have hfree : Set.InjOn keccak256 {bytes | bytes ∈ numberedStrings} :=
    fun x hx y hy => List.inj_on_of_nodup_map nodup_numberedStrings hx hy
  obtain ⟨-, -, -, -, hcertified, hdigests⟩ := encodings_faithful
  obtain ⟨⟨hleaf, -, -⟩, hverify⟩ := hdigests _ hfree
  have hissued : (numberedProver 1).verify numberedProof = true :=
    (hcertified (numberedProver 1) numberedProof rfl).mpr rfl
  have hmem {bytes : Bytes} (n : Nat) (h : numberedStrings[n]? = some bytes) :
      bytes ∈ {bytes | bytes ∈ numberedStrings} := List.mem_of_getElem? h
  have hredirected := hverify (numberedProver 1) (numberedProver 1) numberedProof redirectedProof
    rfl rfl (hmem 2 rfl) (hmem 3 rfl) hissued (.inl rfl)
  have hrekeyed := hverify (numberedProver 1) (numberedProver 2) numberedProof numberedProof
    rfl rfl (hmem 2 rfl) (hmem 4 rfl) hissued (.inl rfl)
  refine ⟨hfree, hissued, ?_, ?_, fun he => ?_⟩
  · rw [← Bool.not_eq_true, hredirected]
    exact fun h => absurd (congrArg Proof.output h.1) (by decide)
  · rw [← Bool.not_eq_true, hrekeyed]
    exact fun h => absurd h.2 (by decide)
  · exact absurd (hleaf (hmem 0 rfl) (hmem 1 rfl) he) (by decide)

end AmmRollup
