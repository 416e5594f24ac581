import AmmRollup.Proofs.Proposer.Run

/-!
# AmmRollup.Proofs.Proposer.Recovery

Going on after a run that stopped half-way.  A run that stops before it settles leaves the
settled roots at the start of the merged proof; one that stops between keeping the
settlement and opening the next window leaves them at its end.  The next run first joins the
proofs that were stored meanwhile to the merged proof, and only then looks at the settled
roots.

So a run makes good what an earlier one left only while the settled roots are still the
start or the end of what it joins (`perform_run_interrupted`).  Roots that were settled
half-way lie inside the joined proof when the proofs stored meanwhile lead elsewhere, and
then the run finds the joined proof stale and leaves the window open.
-/

namespace AmmRollup

/-- A shelf on which a run may have stopped: its proofs are those of consecutive steps, its
merged proof is what the steps of its window are joined to, and the settled roots are the
start or the end of that. -/
structure Interrupted (prover : Prover) (shelf : Shelf) (settlement : Settlement)
    (proofs : List Proof) (merged : Proof) : Prop where
  count : shelf.count = proofs.length
  proof : ∀ i, (hi : i < proofs.length) → shelf.proof i = .ok proofs[i]
  linked : prover.Linked proofs
  window : shelf.window.start < shelf.window.stop
  reached : shelf.window.stop ≤ proofs.length
  slot : shelf.merged = .ok (some merged)
  joined : Merger.fold prover (proofs.extract shelf.window.start shelf.window.stop) = .ok merged
  settled : settlement.roots = merged.input ∨ settlement.roots = merged.output

namespace Interrupted

variable {prover : Prover} {shelf : Shelf} {settlement : Settlement} {proofs : List Proof}
  {merged : Proof}

/-- All proofs from the start of the window on are pending. -/
theorem pending (h : Interrupted prover shelf settlement proofs merged) :
    Merger.Pending prover shelf (proofs.drop shelf.window.start) :=
  Merger.pending_drop h.count h.proof (Nat.le_of_lt h.window) (h.count ▸ h.reached)
    fun _ => ⟨merged, h.slot, h.joined⟩

/-- The pending proofs join to one that starts where the merged proof does, and ends where
the last proof does. -/
theorem joins (h : Interrupted prover shelf settlement proofs merged) {last : Proof}
    (hlast : proofs.getLast? = some last) :
    ∃ joined, Merger.fold prover (proofs.drop shelf.window.start) = .ok joined ∧
      prover.verify joined = true ∧ joined.input = merged.input ∧ joined.output = last.output := by
  have hstart : shelf.window.start < proofs.length := Nat.lt_of_lt_of_le h.window h.reached
  obtain ⟨joined, hfold, hverify, hinput, houtput⟩ := Merger.exists_fold_drop h.linked hstart hlast
  refine ⟨joined, hfold, hverify, hinput.trans ?_, houtput⟩
  obtain ⟨size, hsize⟩ : ∃ size, shelf.window.stop - shelf.window.start = size + 1 :=
    Nat.exists_eq_add_one.mpr (Nat.sub_pos_of_lt h.window)
  have hjoined := h.joined
  rw [List.extract_eq_take_drop, List.drop_eq_getElem_cons hstart, hsize,
    List.take_succ_cons] at hjoined
  exact (Merger.input_of_foldlM hjoined).symm

end Interrupted

namespace Directory

variable {c : Config} {places : Places} {s : FileSystem} {shelf : Shelf} {settlement : Settlement}
  {proofs : List Proof} {merged last : Proof}

/-- One run on a directory whose settled roots are the start or the end of its merged proof.
The run settles all steps where they are the start, or where the last proof ends as the
merged proof does; otherwise it settles nothing, and only extends the merged proof. -/
theorem perform_run_interrupted (h : Directory c places s shelf settlement)
    (hi : Interrupted (prover c) shelf settlement proofs merged)
    (hlast : proofs.getLast? = some last) :
    ∃ t shelf' next, Runs.files.perform (Proposer.run c) s = (.ok (), t) ∧
      Directory c places t shelf' next ∧ shelf'.count = shelf.count ∧
      (settlement.roots = merged.input ∨ merged.output = last.output →
        AllSettled shelf' next last) ∧
      (¬ (settlement.roots = merged.input ∨ merged.output = last.output) →
        next = settlement ∧ settlement.roots ≠ last.output ∧
          shelf'.settledUntil = shelf.settledUntil ∧
          shelf'.window = ⟨shelf.window.start, shelf.count⟩) := by
  obtain ⟨joined, hjoined, hverify, hinput, houtput⟩ := hi.joins hlast
  obtain ⟨t, hrun, hclosed, hopen⟩ := h.perform_run_pending hi.pending hjoined hverify
  rw [hinput, houtput] at hclosed hopen
  by_cases hends : settlement.roots = merged.input ∨ merged.output = last.output
  · have hstands : settlement.roots = merged.input ∨ settlement.roots = last.output := by
      rcases hends with hends | hends
      · exact .inl hends
      · exact hends ▸ hi.settled
    obtain ⟨next, ht, hnext⟩ := hclosed hstands
    exact ⟨t, shelf.closed, next, hrun, ht, rfl, fun _ => ⟨hnext, rfl, rfl⟩,
      fun hne => absurd hends hne⟩
  -- the settled roots are in the middle of what is merged now, and stay there
  · rw [not_or] at hends
    have hmiddle : settlement.roots ≠ last.output :=
      hi.settled.resolve_left hends.1 ▸ hends.2
    exact ⟨t, _, settlement, hrun, hopen (not_or.mpr ⟨hends.1, hmiddle⟩), rfl,
      fun h => absurd h (not_or.mpr hends), fun _ => ⟨rfl, hmiddle, rfl, rfl⟩⟩

/-! ## Interrupted directories

A run that stopped between keeping the settlement and moving the mark leaves settled roots at the
end of its merged proof.  The next run makes that good if nothing was stored in between; if
something was, the joined proof is longer than what was settled, and every run finds it stale.
-/

/-- Roots told apart by a number. -/
def numbered (n : UInt64) : StateRoots := ⟨.ofWord n, .zero, .zero, .zero⟩

/-- A mock proof from numbered roots to the next. -/
def mockProof (n : UInt64) : Proof := ⟨.deposit, numbered n, numbered (n + 1), []⟩

/-- The shelf of a directory with one proof, which is merged. -/
def halfway : Shelf := (Shelf.empty.put 0 (mockProof 0)).putMerged (mockProof 0) 1

/-- A new directory comes to hold one merged proof, and a settlement at its end. -/
theorem exists_halfway : ∃ s, Directory .default .default s halfway ⟨numbered 1, 1⟩ := by
  have hstop : 1 < 1 <<< 64 := by decide
  obtain ⟨stored, -, hstored⟩ :=
    Directory.fresh.exists_put (p := mockProof 0) hstop (by decide)
  obtain ⟨merged, -, hmerged⟩ :=
    hstored.exists_putMerged (p := mockProof 0) (by decide) hstop (by decide)
  obtain ⟨s, -, h⟩ := hmerged.perform_saveSettlement ⟨numbered 1, 1⟩
  exact ⟨s, h⟩

/-- A run that stopped between the settlement and the mark. -/
theorem interrupted_halfway :
    Interrupted (prover .default) halfway ⟨numbered 1, 1⟩ [mockProof 0] (mockProof 0) where
  count := rfl
  proof i hi := by
    obtain rfl : i = 0 := by simpa using hi
    rfl
  linked := ⟨.singleton _, fun _ _ => rfl⟩
  window := by decide
  reached := by decide
  slot := rfl
  joined := rfl
  settled := .inr rfl

/-- A directory on which a run stopped half-way, with nothing stored since. -/
theorem perform_run_interrupted_halfway :
    ∃ s t shelf' next, Directory .default .default s halfway ⟨numbered 1, 1⟩ ∧
      Runs.files.perform (Proposer.run .default) s = (.ok (), t) ∧
      Directory .default .default t shelf' next ∧ AllSettled shelf' next (mockProof 0) := by
  obtain ⟨s, h⟩ := exists_halfway
  obtain ⟨t, shelf', next, hrun, ht, -, hsettled, -⟩ :=
    perform_run_interrupted h interrupted_halfway rfl
  exact ⟨s, t, shelf', next, h, hrun, ht, hsettled (.inr rfl)⟩

/-- The shelf of a directory where one more proof was stored since. -/
def overtaken : Shelf := halfway.put 1 (mockProof 1)

/-- With one more proof stored since, the run was still interrupted. -/
theorem interrupted_overtaken :
    Interrupted (prover .default) overtaken ⟨numbered 1, 1⟩ [mockProof 0, mockProof 1]
      (mockProof 0) where
  count := rfl
  proof i hi := by
    obtain rfl | rfl : i = 0 ∨ i = 1 := by
      rw [List.length_cons, List.length_singleton] at hi
      omega
    · rfl
    · rfl
  linked := ⟨List.isChain_cons_cons.mpr ⟨rfl, .singleton _⟩, fun _ _ => rfl⟩
  window := by decide
  reached := by decide
  slot := rfl
  joined := rfl
  settled := .inr rfl

/-- Not every interrupted run is made good by the next. -/
theorem not_all_interrupted_settle :
    ¬ ∀ (c : Config) (places : Places) (s : FileSystem) (shelf : Shelf) (settlement : Settlement)
        (proofs : List Proof) (merged last : Proof),
      Directory c places s shelf settlement →
      Interrupted (prover c) shelf settlement proofs merged → proofs.getLast? = some last →
      ∃ t shelf' next, Runs.files.perform (Proposer.run c) s = (.ok (), t) ∧
        Directory c places t shelf' next ∧ AllSettled shelf' next last := by
  intro hall
  obtain ⟨before, hbefore⟩ := exists_halfway
  have hstop : 1 + 1 < 1 <<< 64 := by decide
  obtain ⟨s, -, h⟩ := hbefore.exists_put (p := mockProof 1) hstop (by decide)
  have hi := interrupted_overtaken
  obtain ⟨t, shelf', next, hrun, ht, hsettled⟩ := hall _ _ _ _ _ _ _ _ h hi rfl
  obtain ⟨joined, hjoined, hverify, hinput, houtput⟩ := hi.joins rfl
  obtain ⟨t', hrun', -, hopen⟩ := h.perform_run_pending hi.pending hjoined hverify
  rw [hrun] at hrun'
  obtain rfl : t = t' := (Prod.mk.inj hrun').2
  -- the settled roots are those between the two proofs, and stay there
  have hmiddle : ¬ ((numbered 1 = joined.input) ∨ numbered 1 = joined.output) := by
    rw [hinput, houtput]
    decide
  have hsame : next = ⟨numbered 1, 1⟩ :=
    Option.some.inj (ht.settlement.symm.trans (hopen hmiddle).settlement)
  exact absurd (hsame ▸ hsettled.roots) (by decide)

end Directory

end AmmRollup
