import AmmRollup.Chain
import AmmRollup.Proofs.Merger
import AmmRollup.Proofs.Store.Shelf

/-!
# AmmRollup.Proofs.Chain

A chain of proofs and its store.  The proofs of a chain are linked, the store holds them
under their indexes and counts no others, and the chain knows the last of them (`Backed`).
Genesis starts such a chain on a store that counts no proof.  A step adds a proof, or is
refused and changes nothing.
-/

namespace AmmRollup

namespace ProofChain

/-- The store of a chain holds the chain's proofs, which are linked, and counts no others. -/
structure Backed (chain : ProofChain) (shelf : Shelf) (proofs : List Proof) : Prop where
  last : proofs.getLast? = some chain.last
  next : chain.nextIndex = proofs.length
  count : shelf.count = proofs.length
  proof : ∀ i, (hi : i < proofs.length) → shelf.proof i = .ok proofs[i]
  linked : chain.prover.Linked proofs

/-! ## Proving

A chain proves each step on its last proof.  What is proven is a certificate from the roots
before to the roots after.
-/

/-- A proven step is a certificate from the roots that it was proven on. -/
theorem eq_certify_of_prove {prover : Prover} {roots : StateRoots} {earlier : Option Proof}
    {t : Transition} {p : Proof} (h : prover.prove roots earlier t = .ok p) :
    ∃ output, p = prover.certify t.method roots output := by
  obtain ⟨outcome, -, h⟩ := bind_eq_ok_iff.mp h
  exact ⟨outcome.roots, (Except.ok.inj h).symm⟩

/-- Genesis is proven on any roots. -/
theorem prove_genesis (prover : Prover) (roots : StateRoots) :
    prover.prove roots none .genesis = .ok (prover.certify .genesis roots roots) := rfl

variable {m : Type → Type} [Monad m] [LawfulMonad m] {σ : Type} {store : ProofStore m}
  {r : Runs m σ} {shelved : σ → Shelf → Prop} {index : Nat → Prop} {storable : Proof → Prop}
  {s : σ} {shelf : Shelf} {chain : ProofChain} {proofs : List Proof}

/-! ## Genesis

A chain starts with one proof, on a store that counts none.
-/

/-- Genesis starts a chain of one proof, on a store that counts none. -/
theorem perform_genesis (hstore : store.Lawful r shelved index storable) {prover : Prover}
    (hcertify : ∀ method input output, storable (prover.certify method input output))
    (hzero : index 0) (hone : index 1) (h : shelved s shelf) (hempty : shelf.count = 0)
    (roots : StateRoots) :
    ∃ t, r.perform (genesis store prover roots) s =
        (.ok ⟨prover, prover.certify .genesis roots roots, 1⟩, t) ∧
      shelved t (shelf.put 0 (prover.certify .genesis roots roots)) ∧
      Backed ⟨prover, prover.certify .genesis roots roots, 1⟩
        (shelf.put 0 (prover.certify .genesis roots roots))
        [prover.certify .genesis roots roots] := by
  obtain ⟨t, hput, ht⟩ := hstore.put h hzero hone (hcertify .genesis roots roots)
  refine ⟨t, ?_, ht, ?_⟩
  · rw [genesis, prove_genesis]
    exact (r.perform_bind_ok (r.perform_adapt_ok hput)).trans (r.perform_pure _)
  · exact {
      last := rfl
      next := rfl
      count := by
        show max shelf.count (0 + 1) = 1
        rw [hempty]
        rfl
      proof := fun i hi => by
        obtain rfl : i = 0 := by simpa using hi
        rfl
      linked := ⟨.singleton _, by simp⟩ }

/-! ## Steps

A step is proven on the last proof and then kept.  If it is refused, or cannot be kept, the chain
is as it was.
-/

/-- One more proof on top of the last keeps proofs linked. -/
theorem Backed.linked_append (h : chain.Backed shelf proofs) {p : Proof}
    (hinput : p.input = chain.last.output) (hverify : chain.prover.verify p = true) :
    chain.prover.Linked (proofs ++ [p]) where
  chained := by
    refine h.linked.chained.append (.singleton p) ?_
    rw [h.last]
    simp [hinput]
  verified q hq := by
    rcases List.mem_append.mp hq with hq | hq
    · exact h.linked.verified q hq
    · obtain rfl := List.mem_singleton.mp hq
      exact hverify

/-- A change of the store that leaves the proofs alone keeps a chain backed. -/
theorem Backed.of_shelf {shelf' : Shelf} (h : chain.Backed shelf proofs)
    (hproof : shelf'.proof = shelf.proof) (hcount : shelf'.count = shelf.count) :
    chain.Backed shelf' proofs :=
  ⟨h.last, h.next, hcount.trans h.count, hproof ▸ h.proof, h.linked⟩

/-- The last proof that a store counts is the chain's. -/
theorem Backed.proof_last (h : chain.Backed shelf proofs) :
    shelf.proof (shelf.count - 1) = .ok chain.last := by
  have hlast := h.last
  rw [List.getLast?_eq_getElem?] at hlast
  obtain ⟨hi, hlast⟩ := List.getElem?_eq_some_iff.mp hlast
  rw [h.count, h.proof _ hi, hlast]

/-- A step adds a proof to the chain and to its store, or is refused and changes neither. -/
theorem perform_push (hstore : store.Lawful r shelved index storable)
    (hcertify : ∀ method input output, storable (chain.prover.certify method input output))
    (h : shelved s shelf) (hbacked : chain.Backed shelf proofs) (hindex : index proofs.length)
    (hnext : index (proofs.length + 1)) (t : Transition) :
    (∃ p s', r.perform (chain.push store t) s =
          (.ok { chain with last := p, nextIndex := chain.nextIndex + 1 }, s') ∧
        shelved s' (shelf.put proofs.length p) ∧
        Backed { chain with last := p, nextIndex := chain.nextIndex + 1 }
          (shelf.put proofs.length p) (proofs ++ [p])) ∨
      ∃ e, r.perform (chain.push store t) s = (.error e, s) := by
  rw [push]
  cases hprove : chain.prover.prove chain.last.output (some chain.last) t with
  | error e => exact .inr ⟨_, r.perform_throw _⟩
  | ok p =>
    obtain ⟨output, rfl⟩ := eq_certify_of_prove hprove
    obtain ⟨s', hput, hs'⟩ := hstore.put h hindex hnext (hcertify t.method chain.last.output output)
    rw [← hbacked.next] at hput
    refine .inl ⟨_, s', ?_, hs', ?_⟩
    · exact (r.perform_bind_ok (r.perform_adapt_ok hput)).trans (r.perform_pure _)
    · exact {
        last := List.getLast?_concat
        next := by rw [hbacked.next, List.length_append, List.length_singleton]
        count := by
          show max shelf.count (proofs.length + 1) = _
          rw [hbacked.count, List.length_append, List.length_singleton]
          omega
        proof := fun i hi => by
          rw [List.length_append, List.length_singleton] at hi
          rw [Shelf.put]
          -- the new proof is the last one, and those before it are where they were
          by_cases hlast : i = proofs.length
          · simp [hlast]
          · simp only [hlast, if_false]
            rw [hbacked.proof i (by omega), List.getElem_append_left (by omega)]
        linked := hbacked.linked_append rfl (Prover.verify_certify ..) }

end ProofChain

end AmmRollup
