import AmmRollup.Proofs.Merger
import AmmRollup.Proofs.Store.Shelf

/-!
# AmmRollup.Proofs.Pending

Joining the pending proofs of a store.  What is known of the store is its shelf, so all of
this holds for every lawful store.

The proofs of some steps fold to one proof (`Shelf.Folds`), unless a step blocks the way:
its proof is missing, or is not joined to what those before it fold to (`Shelf.Blocks`).
One proof after another is joined to the merged proof and the result is kept
(`perform_extend_succ`), or the work ends without a change (`perform_extend_missing`,
`perform_extend_refused`).  So joining the proofs one by one comes to what folding them at
once does, or ends at the first step that blocks the way, with what the proofs before it
fold to (`perform_extend`).

A shelf stays `Resumable` throughout: its merged proof is what the proofs of its window
fold to.
-/

namespace AmmRollup

/-! ## What the proofs of a shelf fold to

What proofs fold to depends on the proofs alone, so it does not matter in how many calls they
were joined.  Where a proof is missing, or is not joined to those before it, it blocks the way
for good until it is replaced.
-/

namespace Shelf

open Merger

/-- The proofs of the steps from `start` up to `stop` are all there, and fold to `joined`. -/
def Folds (shelf : Shelf) (prover : Prover) (start stop : Nat) (joined : Proof) : Prop :=
  ∃ proofs : List Proof, start + proofs.length = stop ∧
    (∀ i, (hi : i < proofs.length) → shelf.proof (start + i) = .ok proofs[i]) ∧
    fold prover proofs = .ok joined

variable {shelf other : Shelf} {prover : Prover} {start stop i : Nat} {joined merged p : Proof}
  {failure : Failure}

theorem Folds.lt (h : shelf.Folds prover start stop joined) : start < stop := by
  obtain ⟨proofs, hlength, -, hfold⟩ := h
  cases proofs with
  | nil => cases hfold
  | cons first rest => simp at hlength; omega

/-- A single proof folds to itself. -/
theorem folds_one_iff :
    shelf.Folds prover start (start + 1) joined ↔ shelf.proof start = .ok joined := by
  constructor
  · rintro ⟨proofs, hlength, hproof, hfold⟩
    obtain ⟨only, rfl⟩ := List.length_eq_one_iff.mp (show proofs.length = 1 by omega)
    obtain rfl : only = joined := Except.ok.inj hfold
    exact hproof 0 (by simp)
  · intro h
    exact ⟨[joined], rfl, by simpa using h, rfl⟩

/-- More proofs fold by joining the last to what those before it fold to. -/
theorem folds_succ_iff (h : start < stop) : shelf.Folds prover start (stop + 1) joined ↔
    ∃ merged p, shelf.Folds prover start stop merged ∧ shelf.proof stop = .ok p ∧
      mergeTwo prover merged p = .ok joined := by
  constructor
  -- the fold of the longer window ends with its last proof
  · rintro ⟨proofs, hlength, hproof, hfold⟩
    obtain rfl | ⟨front, last, rfl⟩ := proofs.eq_nil_or_concat'
    · cases hfold
    · rw [List.length_append, List.length_singleton] at hlength
      have hfront : front ≠ [] := by
        rintro rfl
        simp at hlength
        omega
      rw [fold_append hfront, bind_eq_ok_iff] at hfold
      obtain ⟨merged, hmerged, hlast⟩ := hfold
      refine ⟨merged, last, ⟨front, by omega, fun i hi => ?_, hmerged⟩, ?_, by simpa using hlast⟩
      · rw [hproof i (by simp; omega), List.getElem_append_left hi]
      · have := hproof front.length (by simp)
        rwa [List.getElem_concat_length rfl, show start + front.length = stop by omega] at this
  · rintro ⟨merged, p, ⟨front, hlength, hproof, hfold⟩, hp, hjoin⟩
    have hfront : front ≠ [] := by
      rintro rfl
      simp at hlength
      omega
    refine ⟨front ++ [p], by simp; omega, fun i hi => ?_, ?_⟩
    · rw [List.length_append, List.length_singleton] at hi
      by_cases hlast : i < front.length
      · rw [hproof i hlast, List.getElem_append_left hlast]
      · obtain rfl : i = front.length := by omega
        rw [List.getElem_concat_length rfl, hlength, hp]
    · rw [fold_append hfront, bind_eq_ok_iff]
      exact ⟨merged, hfold, by simpa using hjoin⟩

/-- Proofs fold to one proof only. -/
theorem Folds.unique (h : shelf.Folds prover start stop joined)
    (h' : shelf.Folds prover start stop merged) : joined = merged := by
  obtain ⟨proofs, hlength, hproof, hfold⟩ := h
  obtain ⟨proofs', hlength', hproof', hfold'⟩ := h'
  have hsame : proofs = proofs' := by
    refine List.ext_getElem (by omega) fun i hi hi' => ?_
    exact Except.ok.inj ((hproof i hi).symm.trans (hproof' i hi'))
  subst hsame
  exact Except.ok.inj (hfold.symm.trans hfold')

/-- If proofs fold, so do those at their front. -/
theorem Folds.front (h : shelf.Folds prover start stop joined) (hstart : start < i)
    (hi : i ≤ stop) : ∃ merged, shelf.Folds prover start i merged := by
  induction stop, hi using Nat.le_induction generalizing joined with
  | base => exact ⟨joined, h⟩
  | succ stop hstop ih =>
    obtain ⟨merged, p, hmerged, -⟩ := (folds_succ_iff (by omega)).mp h
    exact ih hmerged

/-- Every proof that is folded is there. -/
theorem Folds.exists_proof (h : shelf.Folds prover start stop joined) (hstart : start ≤ i)
    (hi : i < stop) : ∃ p, shelf.proof i = .ok p := by
  obtain ⟨proofs, hlength, hproof, -⟩ := h
  refine ⟨proofs[i - start], ?_⟩
  rw [← hproof (i - start) (by omega), Nat.add_sub_cancel' hstart]

/-- What proofs fold to does not depend on other proofs. -/
theorem Folds.congr (h : shelf.Folds prover start stop joined)
    (hsame : ∀ i, start ≤ i → i < stop → other.proof i = shelf.proof i) :
    other.Folds prover start stop joined := by
  obtain ⟨proofs, hlength, hproof, hfold⟩ := h
  exact ⟨proofs, hlength,
    fun i hi => (hsame _ (by omega) (by omega)).trans (hproof i hi), hfold⟩

/-- Why folding the proofs from `start` on cannot go past a step: its proof is missing, or is
not joined to what those before it fold to. -/
inductive Blocks (shelf : Shelf) (prover : Prover) (start i : Nat) : Failure → Prop where
  | missing {e : StoreError} (h : shelf.proof i = .error e) :
      Blocks shelf prover start i ⟨[.loadProof i], .store e⟩
  | refused {merged p : Proof} {e : Failure} (hmerged : shelf.Folds prover start i merged)
      (hp : shelf.proof i = .ok p) (h : mergeTwo prover merged p = .error e) :
      Blocks shelf prover start i (e.within (.mergeProof i))

/-- Proofs that fold are not blocked at any step. -/
theorem Blocks.not_folds (h : shelf.Blocks prover start i failure) (hstart : start ≤ i)
    (hi : i < stop) : ¬ shelf.Folds prover start stop joined := by
  intro hfolds
  cases h with
  | missing hmissing =>
    obtain ⟨p, hp⟩ := hfolds.exists_proof hstart hi
    cases hp.symm.trans hmissing
  | refused hmerged hp hrefused =>
    obtain ⟨next, hnext⟩ := hfolds.front (Nat.lt_succ_of_le hstart) hi
    obtain ⟨merged', p', hmerged', hp', hjoin⟩ := (folds_succ_iff hmerged.lt).mp hnext
    obtain rfl := hmerged.unique hmerged'
    obtain rfl := Except.ok.inj (hp.symm.trans hp')
    cases hjoin.symm.trans hrefused

/-- What blocks a step depends on the proofs alone. -/
theorem Blocks.of_proof (h : other.Blocks prover start i failure)
    (hsame : other.proof = shelf.proof) : shelf.Blocks prover start i failure := by
  cases h with
  | missing hmissing => exact .missing (hsame ▸ hmissing)
  | refused hmerged hp hrefused =>
    exact .refused (hmerged.congr fun i _ _ => congrFun hsame.symm i) (hsame ▸ hp) hrefused

/-- What becomes of joining the next proofs of a shelf, up to the last: all of them are joined,
or one of them blocks the way, and what the proofs before it fold to is kept. -/
inductive Joined (shelf : Shelf) (prover : Prover) (stop count : Nat) :
    Except Failure Proof → Shelf → Prop where
  | all {joined : Proof} (h : shelf.Folds prover shelf.window.start count joined) :
      Joined shelf prover stop count (.ok joined) (shelf.putMerged joined count)
  | blocked {i : Nat} {merged : Proof} {failure : Failure} (hstop : stop ≤ i) (hcount : i < count)
      (hmerged : shelf.Folds prover shelf.window.start i merged)
      (hblocks : shelf.Blocks prover shelf.window.start i failure) :
      Joined shelf prover stop count (.error failure) (shelf.putMerged merged i)

/-- What was kept on the way makes no difference. -/
theorem Joined.of_putMerged {result : Except Failure Proof} {kept : Shelf} {last : Nat}
    (h : (shelf.putMerged merged last).Joined prover i stop result kept) (hi : start ≤ i) :
    shelf.Joined prover start stop result kept := by
  cases h with
  | all hall => exact .all hall
  | blocked hstop hcount hmerged hblocks =>
    exact .blocked (hi.trans hstop) hcount hmerged (hblocks.of_proof rfl)

/-- Proofs that fold are all joined. -/
theorem Joined.eq_of_folds {result : Except Failure Proof} {kept : Shelf} {count : Nat}
    (h : shelf.Joined prover stop count result kept)
    (hfolds : shelf.Folds prover shelf.window.start count joined) :
    result = .ok joined ∧ kept = shelf.putMerged joined count := by
  cases h with
  | all hall =>
    obtain rfl := hfolds.unique hall
    exact ⟨rfl, rfl⟩
  | blocked _ hcount hmerged hblocks =>
    exact absurd hfolds (hblocks.not_folds (Nat.le_of_lt hmerged.lt) hcount)

/-- A shelf between two calls of the merger: its merged proof, while the window holds any step,
is what the proofs of the window fold to. -/
structure Resumable (shelf : Shelf) (prover : Prover) : Prop where
  ordered : shelf.window.start ≤ shelf.window.stop
  reached : shelf.window.stop ≤ shelf.count
  merged : shelf.window.start < shelf.window.stop → ∃ merged, shelf.merged = .ok (some merged) ∧
    shelf.Folds prover shelf.window.start shelf.window.stop merged

end Shelf

/-! ## Joining the proofs of a store

One call of the merger goes on from the merged proof of a window with proofs, or starts with the
first proof behind an empty one.  It joins one proof at a time, keeps each result, and stops at
what blocks the way.
-/

namespace Merger

variable {m : Type → Type} [Monad m] [LawfulMonad m] {σ : Type} {store : ProofStore m}
  {r : Runs m σ} {shelved : σ → Shelf → Prop} {index : Nat → Prop} {storable : Proof → Prop}
  {prover : Prover} {s t : σ} {shelf : Shelf} {merged joined p : Proof} {stop count steps i : Nat}
  {failure : Failure}

/-- Loading the proof of a step gives what the shelf holds, and changes nothing. -/
theorem perform_load (hstore : store.Lawful r shelved index storable) (h : shelved s shelf)
    (hi : index i) : r.perform (load store i) s =
      ((shelf.proof i).mapError fun e => ⟨[.loadProof i], .store e⟩, s) := by
  rw [load, r.perform_adapt, hstore.get h hi]

/-- One more proof is joined to the merged proof, and the result is kept. -/
theorem perform_extend_succ (steps : Nat) (hstore : store.Lawful r shelved index storable)
    (hcertify : ∀ method input output, storable (prover.certify method input output))
    (h : shelved s shelf) (hi : index stop) (hnext : index (stop + 1))
    (hwindow : shelf.window.start ≤ stop) (hp : shelf.proof stop = .ok p)
    (hjoin : mergeTwo prover merged p = .ok joined) :
    ∃ t, shelved t (shelf.putMerged joined (stop + 1)) ∧
      r.perform (extend store prover merged stop (steps + 1)) s =
        r.perform (extend store prover joined (stop + 1) steps) t := by
  have hload : r.perform (load store stop) s = (.ok p, s) := by
    rw [perform_load hstore h hi, hp]
    rfl
  have hmerge : r.perform
      (ofExcept ((mergeTwo prover merged p).mapError (·.within (.mergeProof stop))) :
        ExceptT Failure m Proof) s = (.ok joined, s) := by
    rw [hjoin]
    exact r.perform_pure _
  have hstorable : storable joined := eq_certify_of_mergeTwo hjoin ▸ hcertify ..
  obtain ⟨t, hkeep, ht⟩ := hstore.putMerged h hstorable hnext (Nat.lt_succ_of_le hwindow)
  refine ⟨t, ht, ?_⟩
  rw [extend, r.perform_bind_ok hload, r.perform_bind_ok hmerge,
    r.perform_bind_ok (r.perform_adapt_ok hkeep)]

/-- A proof that is missing ends the work, and changes nothing. -/
theorem perform_extend_missing (hstore : store.Lawful r shelved index storable)
    (h : shelved s shelf) (hi : index stop) {e : StoreError} (hp : shelf.proof stop = .error e) :
    r.perform (extend store prover merged stop (steps + 1)) s =
      (.error ⟨[.loadProof stop], .store e⟩, s) := by
  have hload := perform_load (r := r) hstore h hi
  rw [hp] at hload
  exact r.perform_bind_error hload

/-- A proof that is not joined to the merged proof stops the call. -/
theorem perform_extend_refused (hstore : store.Lawful r shelved index storable)
    (h : shelved s shelf) (hi : index stop) (hp : shelf.proof stop = .ok p)
    (hrefused : mergeTwo prover merged p = .error failure) :
    r.perform (extend store prover merged stop (steps + 1)) s =
      (.error (failure.within (.mergeProof stop)), s) := by
  have hload := perform_load (r := r) hstore h hi
  rw [hp] at hload
  rw [extend, r.perform_bind_ok hload, hrefused]
  exact r.perform_bind_error (r.perform_throw _)

/-- **Joining the next proofs** of a store, one by one, to what those before them fold to. -/
theorem perform_extend (hstore : store.Lawful r shelved index storable)
    (hcertify : ∀ method input output, storable (prover.certify method input output))
    (hindex : ∀ i ≤ count, index i) {steps : Nat} (hcount : stop + steps = count)
    (h : shelved s shelf) (hkept : shelf.putMerged merged stop = shelf)
    (hfolds : shelf.Folds prover shelf.window.start stop merged) :
    ∃ result t kept, r.perform (extend store prover merged stop steps) s = (result, t) ∧
      shelf.Joined prover stop count result kept ∧ shelved t kept := by
  -- on the proofs that are left; each is missing, refused or merged
  induction steps generalizing s shelf merged stop with
  | zero =>
    obtain rfl : stop = count := hcount
    exact ⟨.ok merged, s, _, r.perform_pure _, .all hfolds, hkept.symm ▸ h⟩
  | succ steps ih =>
    have hstop := hindex stop (by omega)
    cases hp : shelf.proof stop with
    | error e =>
      exact ⟨_, s, _, perform_extend_missing hstore h hstop hp,
        .blocked (Nat.le_refl _) (by omega) hfolds (.missing hp), hkept.symm ▸ h⟩
    | ok p =>
      cases hjoin : mergeTwo prover merged p with
      | error e =>
        exact ⟨_, s, _, perform_extend_refused hstore h hstop hp hjoin,
          .blocked (Nat.le_refl _) (by omega) hfolds (.refused hfolds hp hjoin), hkept.symm ▸ h⟩
      | ok both =>
        have hboth := (Shelf.folds_succ_iff hfolds.lt).mpr ⟨merged, p, hfolds, hp, hjoin⟩
        obtain ⟨t, ht, hextend⟩ := perform_extend_succ steps hstore hcertify h hstop
          (hindex _ (by omega)) (Nat.le_of_lt hfolds.lt) hp hjoin
        obtain ⟨result, u, kept, hu, hjoined, hkept⟩ := ih (by omega) ht rfl hboth
        exact ⟨result, u, kept, hextend.trans hu, hjoined.of_putMerged (Nat.le_succ _), hkept⟩

/-- Nothing is joined while no proof is past the start of the window. -/
theorem perform_mergePending_none (hstore : store.Lawful r shelved index storable)
    (h : shelved s shelf) (hcount : shelf.count ≤ shelf.window.start) :
    r.perform (mergePending store prover) s = (.ok none, s) := by
  rw [mergePending, r.perform_bind_ok (r.perform_adapt_ok (hstore.proofCount h)),
    r.perform_bind_ok (r.perform_adapt_ok (hstore.mergedWindow h)), if_pos hcount]
  exact r.perform_pure none

/-- The merged proof of a window that holds a step is gone on from. -/
theorem perform_mergePending_merged (hstore : store.Lawful r shelved index storable)
    (h : shelved s shelf) (hcount : shelf.window.start < shelf.count)
    (hwindow : shelf.window.start < shelf.window.stop)
    (hmerged : shelf.merged = .ok (some merged)) :
    r.perform (mergePending store prover) s = r.perform (do
      return some (← extend store prover merged shelf.window.stop
        (shelf.count - shelf.window.stop))) s := by
  have hget := hstore.getMerged h
  rw [shelf.getMerged_of_lt hwindow, hmerged] at hget
  rw [mergePending, r.perform_bind_ok (r.perform_adapt_ok (hstore.proofCount h)),
    r.perform_bind_ok (r.perform_adapt_ok (hstore.mergedWindow h)), if_neg (by omega),
    r.perform_bind_ok (r.perform_adapt_ok hget)]

/-- The first proof of an empty window is its merged proof. -/
theorem perform_mergePending_first (prover : Prover)
    (hstore : store.Lawful r shelved index storable)
    (hindex : ∀ i ≤ shelf.count, index i) (h : shelved s shelf)
    (hcount : shelf.window.start < shelf.count)
    (hwindow : shelf.window.stop = shelf.window.start)
    (hp : shelf.proof shelf.window.start = .ok p) :
    ∃ t, shelved t (shelf.putMerged p (shelf.window.start + 1)) ∧
      r.perform (mergePending store prover) s = r.perform (do
        return some (← extend store prover p (shelf.window.start + 1)
          (shelf.count - (shelf.window.start + 1)))) t := by
  have hstart : index shelf.window.start := hindex _ (Nat.le_of_lt hcount)
  have hget := hstore.getMerged h
  have hload := perform_load (r := r) hstore h hstart
  rw [shelf.getMerged_of_empty hwindow] at hget
  rw [hp] at hload
  obtain ⟨t, hkeep, ht⟩ := hstore.putMerged h (hstore.storable_of_proof h hstart hp)
    (hindex (shelf.window.start + 1) hcount) (Nat.lt_succ_self _)
  refine ⟨t, ht, ?_⟩
  rw [mergePending, r.perform_bind_ok (r.perform_adapt_ok (hstore.proofCount h)),
    r.perform_bind_ok (r.perform_adapt_ok (hstore.mergedWindow h)), if_neg (by omega),
    r.perform_bind_ok (r.perform_adapt_ok hget)]
  exact (r.perform_bind_ok hload).trans (r.perform_bind_ok (r.perform_adapt_ok hkeep))

/-- If it is missing, nothing is joined and nothing changes. -/
theorem perform_mergePending_missing (hstore : store.Lawful r shelved index storable)
    (h : shelved s shelf) (hstart : index shelf.window.start)
    (hcount : shelf.window.start < shelf.count)
    (hwindow : shelf.window.stop = shelf.window.start) {e : StoreError}
    (hp : shelf.proof shelf.window.start = .error e) :
    r.perform (mergePending store prover) s =
      (.error ⟨[.loadProof shelf.window.start], .store e⟩, s) := by
  have hget := hstore.getMerged h
  have hload := perform_load (r := r) hstore h hstart
  rw [shelf.getMerged_of_empty hwindow] at hget
  rw [hp] at hload
  rw [mergePending, r.perform_bind_ok (r.perform_adapt_ok (hstore.proofCount h)),
    r.perform_bind_ok (r.perform_adapt_ok (hstore.mergedWindow h)), if_neg (by omega),
    r.perform_bind_ok (r.perform_adapt_ok hget)]
  exact r.perform_bind_error hload

omit [LawfulMonad m] in
/-- The result of joining is passed on. -/
theorem perform_return_extend {result : Except Failure Proof}
    (h : r.perform (extend store prover merged stop steps) s = (result, t)) :
    r.perform (do return some (← extend store prover merged stop steps)) s =
      (result.map some, t) := by
  cases result with
  | error e => exact r.perform_bind_error h
  | ok joined => exact (r.perform_bind_ok h).trans (r.perform_pure _)

/-- What one call of the merger comes to, where a proof is pending: its pending proofs are
joined to those of the window, unless the window is empty and the first of them is missing. -/
theorem perform_mergePending_resumable (hstore : store.Lawful r shelved index storable)
    (hcertify : ∀ method input output, storable (prover.certify method input output))
    (hindex : ∀ i ≤ shelf.count, index i) (h : shelved s shelf) (hresume : shelf.Resumable prover)
    (hcount : shelf.window.start < shelf.count) :
    (∃ e, shelf.window.stop = shelf.window.start ∧ shelf.proof shelf.window.start = .error e ∧
      r.perform (mergePending store prover) s =
        (.error ⟨[.loadProof shelf.window.start], .store e⟩, s)) ∨
    ∃ result t kept, r.perform (mergePending store prover) s = (result.map some, t) ∧
      shelf.Joined prover shelf.window.stop shelf.count result kept ∧ shelved t kept := by
  obtain ⟨hordered, hreached, hmerged⟩ := hresume
  -- a window with proofs goes on from its merged proof, an empty one from the first proof behind it
  by_cases hwindow : shelf.window.start < shelf.window.stop
  · obtain ⟨merged, hslot, hfolds⟩ := hmerged hwindow
    have hkept : shelf.putMerged merged shelf.window.stop = shelf := by
      rw [Shelf.putMerged, ← hslot]
      rfl
    obtain ⟨result, t, kept, hextend, hjoined, ht⟩ := perform_extend hstore hcertify hindex
      (Nat.add_sub_cancel' hreached) h hkept hfolds
    refine .inr ⟨result, t, kept, ?_, hjoined, ht⟩
    rw [perform_mergePending_merged hstore h hcount hwindow hslot]
    exact perform_return_extend hextend
  · have hempty : shelf.window.stop = shelf.window.start := by omega
    cases hfirst : shelf.proof shelf.window.start with
    | error e =>
      exact .inl ⟨e, hempty, rfl, perform_mergePending_missing hstore h
        (hindex _ (Nat.le_of_lt hcount)) hcount hempty hfirst⟩
    | ok first =>
      obtain ⟨s', hs', hperform⟩ := perform_mergePending_first prover hstore hindex h
        hcount hempty hfirst
      have hsteps : shelf.window.start + 1 + (shelf.count - (shelf.window.start + 1)) =
          shelf.count := Nat.add_sub_cancel' hcount
      obtain ⟨result, t, kept, hextend, hjoined, ht⟩ := perform_extend hstore hcertify hindex
        hsteps hs' rfl (Shelf.folds_one_iff.mpr hfirst)
      exact .inr ⟨result, t, kept, hperform.trans (perform_return_extend hextend),
        hjoined.of_putMerged (by omega), ht⟩

/-- Pending proofs that fold are joined to what they fold to. -/
theorem perform_mergePending_folds (hstore : store.Lawful r shelved index storable)
    (hcertify : ∀ method input output, storable (prover.certify method input output))
    (hindex : ∀ i ≤ shelf.count, index i) (h : shelved s shelf) (hresume : shelf.Resumable prover)
    (hfolds : shelf.Folds prover shelf.window.start shelf.count joined) :
    ∃ t, r.perform (mergePending store prover) s = (.ok (some joined), t) ∧
      shelved t (shelf.putMerged joined shelf.count) := by
  obtain ⟨e, -, hmissing, -⟩ | ⟨result, t, kept, hperform, hjoined, ht⟩ :=
    perform_mergePending_resumable hstore hcertify hindex h hresume hfolds.lt
  · exact absurd hfolds (Shelf.Blocks.missing hmissing |>.not_folds (Nat.le_refl _) hfolds.lt)
  · obtain ⟨rfl, rfl⟩ := hjoined.eq_of_folds hfolds
    exact ⟨t, hperform, ht⟩

/-! ### Lists of pending proofs

Where all proofs are there and linked, as they are in a chain, nothing blocks the way, and one
call joins them all.
-/

/-- The merged proof of a shelf, while its window holds any step, is what its steps' proofs
are joined to. -/
structure Pending (prover : Prover) (shelf : Shelf) (proofs : List Proof) : Prop where
  ordered : shelf.window.start ≤ shelf.window.stop
  reached : shelf.window.stop ≤ shelf.count
  length : shelf.window.start + proofs.length = shelf.count
  proof : ∀ i, (hi : i < proofs.length) → shelf.proof (shelf.window.start + i) = .ok proofs[i]
  merged : shelf.window.start < shelf.window.stop → ∃ merged, shelf.merged = .ok (some merged) ∧
    fold prover (proofs.take (shelf.window.stop - shelf.window.start)) = .ok merged

variable {proofs : List Proof}

/-- The proofs from the start of the window on are pending. -/
theorem pending_drop (hcount : shelf.count = proofs.length)
    (hproof : ∀ i, (hi : i < proofs.length) → shelf.proof i = .ok proofs[i])
    (hordered : shelf.window.start ≤ shelf.window.stop) (hreached : shelf.window.stop ≤ shelf.count)
    (hmerged : shelf.window.start < shelf.window.stop →
      ∃ merged, shelf.merged = .ok (some merged) ∧
        fold prover (proofs.extract shelf.window.start shelf.window.stop) = .ok merged) :
    Pending prover shelf (proofs.drop shelf.window.start) where
  ordered := hordered
  reached := hreached
  length := by
    rw [List.length_drop]
    omega
  proof i hi := by
    rw [List.length_drop] at hi
    rw [hproof _ (by omega), List.getElem_drop]
  merged := hmerged

namespace Pending

theorem folds (h : Pending prover shelf proofs) (hjoined : fold prover proofs = .ok joined) :
    shelf.Folds prover shelf.window.start shelf.count joined :=
  ⟨proofs, h.length, h.proof, hjoined⟩

theorem resumable (h : Pending prover shelf proofs) : shelf.Resumable prover where
  ordered := h.ordered
  reached := h.reached
  merged hwindow := by
    have hlength := h.length
    have hreached := h.reached
    obtain ⟨merged, hslot, hfold⟩ := h.merged hwindow
    refine ⟨merged, hslot, proofs.take (shelf.window.stop - shelf.window.start), ?_, ?_, hfold⟩
    · rw [List.length_take]
      omega
    · intro i hi
      rw [List.length_take] at hi
      rw [h.proof i (by omega), List.getElem_take]

end Pending

/-- Joining the pending proofs of a store gives what all proofs of the window are joined to. -/
theorem perform_mergePending (hstore : store.Lawful r shelved index storable)
    (hcertify : ∀ method input output, storable (prover.certify method input output))
    (hindex : ∀ i ≤ shelf.count, index i) (h : shelved s shelf)
    (hpending : Pending prover shelf proofs) (hjoined : fold prover proofs = .ok joined) :
    ∃ t, r.perform (mergePending store prover) s = (.ok (some joined), t) ∧
      shelved t (shelf.putMerged joined shelf.count) :=
  perform_mergePending_folds hstore hcertify hindex h hpending.resumable (hpending.folds hjoined)

end Merger

end AmmRollup
