import AmmRollup.Merger
import AmmRollup.Proofs.Result
import Mathlib.Data.List.Chain

/-!
# AmmRollup.Proofs.Merger

Joining the proofs of consecutive steps, and settling what they are joined to.  Proofs are
linked when each verifies and starts where the last one ended; then joining them succeeds,
and gives the certificate from the start of the first to the end of the last
(`fold_linked`).  A proof is settled where the settled roots are its start
(`Settlement.settle_eq_ok_iff`), and leaves them alone elsewhere (`Settlement.settle_refused`).
-/

namespace AmmRollup

/-- A prover whose proofs always verify, and which knows no keys of users. -/
def Prover.keyless : Prover := .mock KeyRegistry.empty.verify

/-! ## Linked proofs

Two proofs are joined when both verify and the second starts where the first ends.  A list of
such proofs joins to the certificate from its first roots to its last, however long it is.
-/

/-- Proofs of consecutive steps: all verify, and each starts where the one before ends. -/
structure Prover.Linked (prover : Prover) (proofs : List Proof) : Prop where
  chained : proofs.IsChain fun p next => p.output = next.input
  verified : ∀ p ∈ proofs, prover.verify p = true

/-- The proof that linked proofs are joined to: the first, or the certificate from its start
to the end of the last. -/
def Prover.span (prover : Prover) (first : Proof) (rest : List Proof) : Proof :=
  match rest.getLast? with
  | none => first
  | some last => prover.certify .merge first.input last.output

namespace Prover

variable {prover : Prover} {first : Proof} {rest : List Proof}

/-- Linked proofs are linked from any of them on. -/
theorem Linked.drop {proofs : List Proof} (h : prover.Linked proofs) (start : Nat) :
    prover.Linked (proofs.drop start) :=
  ⟨h.chained.drop start, fun p hp => h.verified p (List.mem_of_mem_drop hp)⟩

theorem input_span (prover : Prover) (first : Proof) (rest : List Proof) :
    (prover.span first rest).input = first.input := by
  unfold span
  split <;> rfl

theorem output_span (prover : Prover) (first : Proof) (rest : List Proof) :
    (prover.span first rest).output = ((first :: rest).getLast (by simp)).output := by
  unfold span
  cases hlast : rest.getLast? with
  | none =>
    obtain rfl := List.getLast?_eq_none_iff.mp hlast
    rfl
  | some last =>
    obtain ⟨before, rfl⟩ := List.getLast?_eq_some_iff.mp hlast
    simp [certify]

/-- Joining the first two proofs beforehand makes no difference. -/
theorem span_certify {second : Proof} :
    prover.span (prover.certify .merge first.input second.output) rest =
      prover.span first (second :: rest) := by
  unfold span
  rw [List.getLast?_cons]
  cases rest.getLast? <;> rfl

/-- The payload of a certificate is short. -/
theorem length_payload_certify (prover : Prover) (method : Method) (input output : StateRoots) :
    (prover.certify method input output).payload.length < 1 <<< 64 := by
  unfold certify
  cases prover.mode <;> simp

theorem verify_span (h : prover.verify first = true) :
    prover.verify (prover.span first rest) = true := by
  unfold span
  split
  · exact h
  · exact prover.verify_certify ..

/-- A prover joins two proofs, the first from the common roots, the second from where the first
ends, if it verifies both. -/
theorem merge_eq_ok_iff {common : StateRoots} {first second merged : Proof} :
    prover.merge common first second = .ok merged ↔
      first.input = common ∧ first.output = second.input ∧ prover.verify first = true ∧
        prover.verify second = true ∧ merged = prover.certify .merge common second.output := by
  rw [merge, bind_eq_ok_iff]
  constructor
  · rintro ⟨⟨input, output⟩, hroots, hmerged⟩
    unfold mergedRoots at hroots
    grind [pure_eq_ok_iff]
  · rintro ⟨rfl, hlink, hfirst, hsecond, rfl⟩
    refine ⟨(first.input, second.output), ?_, rfl⟩
    simp [mergedRoots, hlink, hfirst, hsecond]

end Prover

namespace Merger

variable {prover : Prover}

/-- Two proofs are joined when both verify and the second starts where the first ends. -/
theorem mergeTwo_eq_ok_iff {first second merged : Proof} :
    mergeTwo prover first second = .ok merged ↔
      prover.verify first = true ∧ prover.verify second = true ∧ first.output = second.input ∧
        merged = prover.certify .merge first.input second.output := by
  rw [mergeTwo, mapError_eq_ok_iff, Prover.merge_eq_ok_iff]
  grind

/-- Joining two proofs gives a certificate. -/
theorem eq_certify_of_mergeTwo {first second merged : Proof}
    (h : mergeTwo prover first second = .ok merged) :
    merged = prover.certify .merge first.input second.output :=
  (mergeTwo_eq_ok_iff.mp h).2.2.2

/-- Joining a proof once more to what it was joined to changes nothing. -/
theorem eq_of_mergeTwo_again {first second merged joined : Proof}
    (h : mergeTwo prover first second = .ok merged)
    (hagain : mergeTwo prover merged second = .ok joined) : joined = merged := by
  rw [eq_certify_of_mergeTwo hagain, eq_certify_of_mergeTwo h]
  rfl

/-- Proofs that are apart are not joined. -/
theorem mergeTwo_apart {first second : Proof} (h : first.output ≠ second.input) :
    mergeTwo prover first second = .error (.of (.prover .chainMismatch)) := by
  rw [mergeTwo, Prover.merge, mergedRoots, if_pos (.inr h)]
  rfl

/-- Two valid proofs that meet are merged. -/
theorem mergeTwo_linked {first second : Proof} (hfirst : prover.verify first = true)
    (hsecond : prover.verify second = true) (hlink : first.output = second.input) :
    mergeTwo prover first second = .ok (prover.certify .merge first.input second.output) :=
  mergeTwo_eq_ok_iff.mpr ⟨hfirst, hsecond, hlink, rfl⟩

/-- Joining linked proofs to a merged proof, one after another. -/
theorem foldlM_linked {first : Proof} {rest : List Proof} (h : prover.Linked (first :: rest)) :
    rest.foldlM (mergeTwo prover) first = .ok (prover.span first rest) := by
  induction rest generalizing first with
  | nil => rfl
  | cons second rest ih =>
    obtain ⟨hlink, hchained⟩ := List.isChain_cons_cons.mp h.chained
    have hfirst := h.verified first (by simp)
    have hsecond := h.verified second (by simp)
    -- the joined proof takes the place of the two that it was joined from
    have hnext : prover.Linked (prover.certify .merge first.input second.output :: rest) := by
      refine ⟨?_, ?_⟩
      · cases rest with
        | nil => exact List.isChain_singleton _
        | cons third rest => exact List.isChain_cons_cons.mpr (List.isChain_cons_cons.mp hchained)
      · simp only [List.mem_cons, forall_eq_or_imp]
        exact ⟨prover.verify_certify .., fun p hp => h.verified p (by simp [hp])⟩
    rw [List.foldlM_cons, mergeTwo_linked hfirst hsecond hlink]
    exact (ih hnext).trans (congrArg _ Prover.span_certify)

/-- A joined proof starts where the first of its proofs does. -/
theorem input_of_foldlM {first joined : Proof} {rest : List Proof}
    (h : rest.foldlM (mergeTwo prover) first = .ok joined) : joined.input = first.input := by
  induction rest generalizing first with
  | nil => exact Except.ok.inj h ▸ rfl
  | cons second rest ih =>
    obtain ⟨both, hboth, h⟩ := foldlM_cons_eq_ok_iff.mp h
    rw [ih h, eq_certify_of_mergeTwo hboth]
    rfl

/-- Linked proofs join to one that spans them. -/
theorem fold_linked {first : Proof} {rest : List Proof} (h : prover.Linked (first :: rest)) :
    fold prover (first :: rest) = .ok (prover.span first rest) :=
  foldlM_linked h

/-- Linked proofs join, from any of them on, to one that starts where that does and ends where
the last does. -/
theorem exists_fold_drop {proofs : List Proof} (h : prover.Linked proofs) {start : Nat}
    (hstart : start < proofs.length) {last : Proof} (hlast : proofs.getLast? = some last) :
    ∃ joined, fold prover (proofs.drop start) = .ok joined ∧ prover.verify joined = true ∧
      joined.input = proofs[start].input ∧ joined.output = last.output := by
  have hdrop : proofs.drop start = proofs[start] :: proofs.drop (start + 1) :=
    List.drop_eq_getElem_cons hstart
  have hends : (proofs[start] :: proofs.drop (start + 1)).getLast? = some last := by
    rw [← hdrop, List.getLast?_drop, if_neg (by omega), hlast]
  refine ⟨prover.span proofs[start] (proofs.drop (start + 1)), ?_, ?_, ?_, ?_⟩
  · rw [hdrop]
    exact fold_linked (hdrop ▸ h.drop start)
  · exact Prover.verify_span (h.verified _ (List.getElem_mem hstart))
  · exact Prover.input_span ..
  · rw [Prover.output_span, List.getLast_of_getLast?_eq_some hends]

/-- A list is joined by joining its front, and the rest to that. -/
theorem fold_append {proofs : List Proof} (h : proofs ≠ []) (rest : List Proof) :
    fold prover (proofs ++ rest) =
      (fold prover proofs >>= fun merged => rest.foldlM (mergeTwo prover) merged) := by
  obtain ⟨first, others, rfl⟩ := List.exists_cons_of_ne_nil h
  exact List.foldlM_append

end Merger

/-! ## Settling

A proof settles when it starts at the settled roots and verifies.  Everything is checked before
the record is written.
-/

namespace Settlement

variable {s next : Settlement} {verifies : Proof → Bool} {p : Proof} {roots : StateRoots}

/-- What settling a proof answers and leaves.  It is refused before anything is written. -/
theorem run_settle (s : Settlement) (verifies : Proof → Bool) (p : Proof) :
    (settle verifies p).run.run s =
      if p.input ≠ s.roots then (.error (.stateMismatch s.roots p.input), s)
      else if verifies p then (.ok p.output, ⟨p.output, s.settlements + 1⟩)
      else (.error .invalidProof, s) := by
  rw [settle, run_get]
  dsimp only
  split
  · rfl
  · cases verifies p <;> rfl

/-- A proof is settled that starts at the settled roots and verifies; they move to its end. -/
theorem settle_eq_ok_iff : (settle verifies p).run.run s = (.ok roots, next) ↔
    p.input = s.roots ∧ verifies p = true ∧ roots = p.output ∧
      next = ⟨p.output, s.settlements + 1⟩ := by
  rw [run_settle]
  grind

/-- A proof that is refused leaves the record as it was. -/
theorem settle_refused {e : SettlementError}
    (h : (settle verifies p).run.run s = (.error e, next)) : next = s := by
  rw [run_settle] at h
  split at h
  · exact (congrArg Prod.snd h).symm
  · split at h
    · exact nomatch congrArg Prod.fst h
    · exact (congrArg Prod.snd h).symm

end Settlement

end AmmRollup
