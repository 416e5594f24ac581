import AmmRollup.Proofs.Pending
import AmmRollup.Proofs.Store.File

/-!
# AmmRollup.Proofs.Incremental

Joining proofs little by little, in either store.  However the puts of new proofs and the
calls of the merger follow one another, the merged proof is what the proofs of its window
fold to, and a call that succeeds makes that all proofs from the start of the window on.  A
call that fails keeps what it has joined (`merges_as_fold`).

The step is that a call of the merger, and a put where there is no proof yet, leave a
resumable shelf resumable (`resumable_mergePending`, `Resumable.put`); the run follows by
induction over the calls (`Worked.resumable`).
-/

namespace AmmRollup

/-! ## Resumable shelves

Between two calls of the merger the merged proof is what the proofs of its window fold to.
Joining goes on from there, and putting a proof elsewhere does not disturb it.
-/

namespace Shelf

variable {shelf kept : Shelf} {prover : Prover} {result : Except Failure Proof} {stop i : Nat}

/-- Joining pending proofs, all or some of them, leaves a shelf resumable. -/
theorem Joined.resumable (h : shelf.Joined prover stop shelf.count result kept) :
    kept.Resumable prover := by
  cases h with
  | all hall => exact ⟨Nat.le_of_lt hall.lt, Nat.le_refl _, fun _ => ⟨_, rfl, hall⟩⟩
  | blocked _ hcount hmerged _ =>
    exact ⟨Nat.le_of_lt hmerged.lt, Nat.le_of_lt hcount, fun _ => ⟨_, rfl, hmerged⟩⟩

/-- Joining pending proofs moves the end of the window only. -/
theorem Joined.start_eq (h : shelf.Joined prover stop shelf.count result kept) :
    kept.window.start = shelf.window.start ∧ kept.count = shelf.count := by
  cases h <;> exact ⟨rfl, rfl⟩

/-- Putting a proof where there is none keeps a shelf resumable: it is no proof of the window. -/
theorem Resumable.put (h : shelf.Resumable prover) (hnew : ∀ q, shelf.proof i ≠ .ok q)
    (p : Proof) : (shelf.put i p).Resumable prover where
  ordered := h.ordered
  reached := h.reached.trans (Nat.le_max_left ..)
  merged hwindow := by
    obtain ⟨merged, hslot, hfolds⟩ := h.merged hwindow
    refine ⟨merged, hslot, hfolds.congr fun j hstart hstop => ?_⟩
    obtain ⟨q, hq⟩ := hfolds.exists_proof hstart hstop
    have hne : j ≠ i := by
      rintro rfl
      exact hnew q hq
    simp [Shelf.put, hne]

end Shelf

/-! ## Stores with their states

A lawful store, the states it lives in and what it can keep, in one structure: what follows is
proved for it, and read for both stores.
-/

/-- A lawful store together with the states that it lives in, and with what it can keep. -/
structure LawfulStore (m : Type → Type) [Monad m] (σ : Type) where
  store : ProofStore m
  runs : Runs m σ
  shelved : σ → Shelf → Prop
  index : Nat → Prop
  storable : Proof → Prop
  lawful : store.Lawful runs shelved index storable
  /-- What a prover certifies can be kept. -/
  certified (prover : Prover) (method : Method) (input output : StateRoots) :
    storable (prover.certify method input output)
  /-- Steps that are counted have an index. -/
  counted {s : σ} {shelf : Shelf} (h : shelved s shelf) {i : Nat} (hi : i ≤ shelf.count) : index i

namespace LawfulStore

/-- The store in memory.  Indexes are natural numbers in it, so it has them all; the words that
count its proofs stand for these as long as none is kept at `2 ^ 64 - 1`. -/
def memory : LawfulStore (StateM MemoryStore) MemoryStore where
  store := .memory
  runs := .state MemoryStore
  shelved s shelf := s.shelf = shelf
  index _ := True
  storable _ := True
  lawful := ProofStore.memory_lawful
  certified _ _ _ _ := trivial
  counted _ _ _ := trivial

/-- The store in a folder, on states that differ from `s` in the files of the store alone. -/
def files (folder : String) (base : PathParts) (s : FileSystem) :
    LawfulStore FileProgram FileSystem where
  store := .files folder
  runs := .files
  shelved t shelf := FileStore.Shelved folder base t shelf ∧ FileStore.Kept base s t
  index := (· < 1 <<< 64)
  storable := (·.payload.length < 1 <<< 64)
  lawful := ProofStore.files_lawful folder base s
  certified := Prover.length_payload_certify
  counted h _ hi := Nat.lt_of_le_of_lt hi h.1.fits.1

end LawfulStore

/-! ## Joining and putting in any order

Proofs may come in any order and with gaps.  A call of the merger joins as many as it can, keeps
what it has joined, and a later call goes on from there.
-/

namespace Merger

variable {m : Type → Type} [Monad m] [LawfulMonad m] {σ : Type} {L : LawfulStore m σ}
  {prover : Prover} {s t u : σ} {shelf kept : Shelf} {result : Except Failure (Option Proof)}
  {joined : Proof}

/-- The states that a store comes to while pending proofs are joined, and proofs are put where
there is none, in any order. -/
inductive Worked (L : LawfulStore m σ) (prover : Prover) (s : σ) : σ → Prop where
  | start : Worked L prover s s
  | put {t u : σ} {i : Nat} {p : Proof} {result : Except StoreError Unit}
      (before : Worked L prover s t) (hindex : L.index i) (hnext : L.index (i + 1))
      (hp : L.storable p) (hnew : ∀ q, (L.runs.perform (L.store.get i) t).1 ≠ .ok q)
      (hput : L.runs.perform (L.store.put i p) t = (result, u)) : Worked L prover s u
  | merge {t u : σ} {result : Except Failure (Option Proof)} (before : Worked L prover s t)
      (hmerge : L.runs.perform (mergePending L.store prover) t = (result, u)) :
      Worked L prover s u

/-- What a merger does to a store, whatever the proofs that it holds. -/
structure MergesAsFold (L : LawfulStore m σ) (prover : Prover) : Prop where
  /-- If the proofs of the window fold, what they fold to is given and kept, and the window ends
  behind the last proof. -/
  folds {s : σ} {shelf : Shelf} {joined : Proof} (h : L.shelved s shelf)
    (hresume : shelf.Resumable prover)
    (hfolds : shelf.Folds prover shelf.window.start shelf.count joined) :
    ∃ t, L.runs.perform (mergePending L.store prover) s = (.ok (some joined), t) ∧
      L.shelved t (shelf.putMerged joined shelf.count)
  /-- Otherwise the merger fails at the first step that blocks the way.  What the proofs before
  it fold to is kept, and the window ends before it; with no proof before it, nothing changes. -/
  blocked {s : σ} {shelf : Shelf} (h : L.shelved s shelf) (hresume : shelf.Resumable prover)
    (hcount : shelf.window.start < shelf.count)
    (hnone : ∀ joined, ¬ shelf.Folds prover shelf.window.start shelf.count joined) :
    ∃ i failure t, shelf.window.stop ≤ i ∧ i < shelf.count ∧
      shelf.Blocks prover shelf.window.start i failure ∧
      (∀ j, shelf.window.stop ≤ j → j < i →
        ∀ failure, ¬ shelf.Blocks prover shelf.window.start j failure) ∧
      L.runs.perform (mergePending L.store prover) s = (.error failure, t) ∧
      (i = shelf.window.start → t = s) ∧
      (shelf.window.start < i → ∃ merged, shelf.Folds prover shelf.window.start i merged ∧
        L.shelved t (shelf.putMerged merged i))
  /-- Whatever was put and joined before, a call that succeeds gives and keeps what all proofs
  of the window fold to, or finds no proof behind its start. -/
  interleaved {s t u : σ} {shelf : Shelf} {result : Option Proof} (h : L.shelved s shelf)
    (hresume : shelf.Resumable prover) (hworked : Worked L prover s t)
    (hmerge : L.runs.perform (mergePending L.store prover) t = (.ok result, u)) :
    ∃ kept, L.shelved u kept ∧ kept.window.start = shelf.window.start ∧
      shelf.count ≤ kept.count ∧
      (result = none → kept.count ≤ kept.window.start) ∧
      ∀ joined, result = some joined → kept.merged = .ok (some joined) ∧
        kept.window.stop = kept.count ∧
        kept.Folds prover kept.window.start kept.count joined

/-- One call of the merger leaves a resumable shelf resumable, and its proofs as they are. -/
theorem resumable_mergePending (h : L.shelved s shelf) (hresume : shelf.Resumable prover) :
    ∃ result t kept, L.runs.perform (mergePending L.store prover) s = (result, t) ∧
      L.shelved t kept ∧ kept.Resumable prover ∧ kept.window.start = shelf.window.start ∧
      kept.count = shelf.count := by
  by_cases hcount : shelf.window.start < shelf.count
  · obtain ⟨e, -, -, hperform⟩ | ⟨result, t, kept, hperform, hjoined, ht⟩ :=
      perform_mergePending_resumable L.lawful (L.certified prover) (fun i => L.counted h) h
        hresume hcount
    · exact ⟨_, s, shelf, hperform, h, hresume, rfl, rfl⟩
    · exact ⟨_, t, kept, hperform, ht, hjoined.resumable, hjoined.start_eq⟩
  · exact ⟨_, s, shelf, perform_mergePending_none L.lawful h (Nat.le_of_not_lt hcount), h,
      hresume, rfl, rfl⟩

/-- **Whatever is put and joined**, in any order, a resumable shelf stays resumable. -/
theorem Worked.resumable (hworked : Worked L prover s t) (h : L.shelved s shelf)
    (hresume : shelf.Resumable prover) :
    ∃ kept, L.shelved t kept ∧ kept.Resumable prover ∧
      kept.window.start = shelf.window.start ∧ shelf.count ≤ kept.count := by
  -- by induction on what was done; between steps the shelf can always go on
  induction hworked with
  | start => exact ⟨shelf, h, hresume, rfl, Nat.le_refl _⟩
  | put before hindex hnext hp hnew hput ih =>
    obtain ⟨kept, hkept, hresume, hstart, hcount⟩ := ih
    rw [L.lawful.get hkept hindex] at hnew
    obtain ⟨u, hperform, hu⟩ := L.lawful.put hkept hindex hnext hp
    rw [hput] at hperform
    obtain ⟨-, rfl⟩ := Prod.mk.inj hperform
    exact ⟨_, hu, hresume.put hnew _, hstart, hcount.trans (Nat.le_max_left ..)⟩
  | merge before hmerge ih =>
    obtain ⟨kept, hkept, hresume, hstart, hcount⟩ := ih
    obtain ⟨_, u, next, hperform, hu, hnext, hwindow, hsame⟩ :=
      resumable_mergePending hkept hresume
    rw [hmerge] at hperform
    obtain ⟨-, rfl⟩ := Prod.mk.inj hperform
    exact ⟨next, hu, hnext, hwindow.trans hstart, hsame ▸ hcount⟩

/-- A merger joins as if all proofs were folded at once, in any lawful store. -/
theorem mergesAsFold (L : LawfulStore m σ) (prover : Prover) : MergesAsFold L prover where
  folds h hresume hfolds := perform_mergePending_folds L.lawful (L.certified prover)
    (fun _ => L.counted h) h hresume hfolds
  blocked {s shelf} h hresume hcount hnone := by
    obtain ⟨e, hempty, hmissing, hperform⟩ | ⟨result, t, kept, hperform, hjoined, ht⟩ :=
      perform_mergePending_resumable L.lawful (L.certified prover) (fun i => L.counted h) h
        hresume hcount
    · refine ⟨shelf.window.start, _, s, Nat.le_of_eq hempty, hcount, .missing hmissing,
        fun j hstop hj => ?_, hperform, fun _ => rfl, fun hlt => absurd hlt (Nat.lt_irrefl _)⟩
      omega
    · cases hjoined with
      | all hall => exact absurd hall (hnone _)
      | @blocked i merged failure hstop hcount hmerged hblocks =>
        -- the proofs before the step fold, so none of them blocks the way
        have hfirst (j : Nat) (hj : shelf.window.stop ≤ j) (hlt : j < i) (failure : Failure) :
            ¬ shelf.Blocks prover shelf.window.start j failure :=
          fun hblock => hblock.not_folds (hresume.ordered.trans hj) hlt hmerged
        have hstart : i ≠ shelf.window.start := Nat.ne_of_gt hmerged.lt
        exact ⟨i, failure, t, hstop, hcount, hblocks, hfirst, hperform,
          fun heq => absurd heq hstart, fun _ => ⟨merged, hmerged, ht⟩⟩
  interleaved {s t u shelf result} h hresume hworked hmerge := by
    obtain ⟨before, hbefore, hresume, hstart, hcounted⟩ := hworked.resumable h hresume
    by_cases hcount : before.window.start < before.count
    · obtain ⟨e, -, -, hperform⟩ | ⟨joined, v, kept, hperform, hjoined, hv⟩ :=
        perform_mergePending_resumable L.lawful (L.certified prover)
          (fun i => L.counted hbefore) hbefore hresume hcount
      · cases (Prod.mk.inj (hmerge.symm.trans hperform)).1
      · obtain ⟨hresult, rfl⟩ := Prod.mk.inj (hmerge.symm.trans hperform)
        cases hjoined with
        | all hall =>
          obtain rfl := Except.ok.inj hresult
          refine ⟨_, hv, hstart, hcounted, nofun, fun joined hsome => ?_⟩
          obtain rfl := Option.some.inj hsome
          exact ⟨rfl, rfl, hall⟩
        | blocked => cases hresult
    · have hperform : L.runs.perform (mergePending L.store prover) t = (.ok none, t) :=
        perform_mergePending_none L.lawful hbefore (Nat.le_of_not_lt hcount)
      obtain ⟨hresult, rfl⟩ := Prod.mk.inj (hmerge.symm.trans hperform)
      obtain rfl := Except.ok.inj hresult
      exact ⟨before, hbefore, hstart, hcounted, fun _ => Nat.le_of_not_lt hcount, nofun⟩

/-- **Joining little by little** comes to what folding all proofs at once does, in either
store, and a call that fails keeps what it has joined. -/
theorem merges_as_fold (prover : Prover) : MergesAsFold .memory prover ∧
    ∀ folder base s, MergesAsFold (.files folder base s) prover :=
  ⟨mergesAsFold _ prover, fun _ _ _ => mergesAsFold _ prover⟩

/-! ### A proof that comes late

Three proofs of which the second comes last: the merger stops before it, and joins all three once
it is there.
-/

/-- A mock proof that leads from some roots to the same. -/
def idle : Proof := Prover.keyless.certify .deposit (.ofBytes []) (.ofBytes [])

/-- A store in memory into which the second of three proofs is put last, after a call of the
merger that had to stop before it. -/
def late : MemoryStore :=
  ((Runs.state MemoryStore).perform (mergePending .memory .keyless)
    ((MemoryStore.empty.put 0 idle).put 2 idle)).2.put 1 idle

theorem Worked.put_memory {s t : MemoryStore} {i : Nat} (before : Worked .memory prover s t)
    (hnew : t.get i = .error (.notFound i)) (p : Proof) :
    Worked .memory prover s (t.put i p) := by
  refine .put before trivial trivial trivial (fun q hq => ?_) rfl
  rw [LawfulStore.memory.lawful.get rfl trivial] at hq
  cases hnew.symm.trans hq

theorem worked_late : Worked .memory .keyless .empty late := by
  have hfirst : Worked .memory .keyless .empty (MemoryStore.empty.put 0 idle) :=
    .put_memory .start rfl idle
  have hthird := hfirst.put_memory (i := 2) rfl idle
  exact .put_memory (.merge hthird rfl) rfl idle

/-- All three are joined once the second is there. -/
theorem merges_as_fold_late :
    ∃ joined t kept, (Runs.state MemoryStore).perform (mergePending .memory .keyless) late =
        (.ok (some joined), t) ∧
      late.window = ⟨0, 1⟩ ∧ t.shelf = kept ∧ kept.window = ⟨0, 3⟩ ∧
      kept.Folds .keyless 0 3 joined := by
  obtain ⟨joined, t, hperform, hwindow⟩ : ∃ joined t,
      (Runs.state MemoryStore).perform (mergePending .memory .keyless) late =
        (.ok (some joined), t) ∧ t.shelf.window = ⟨0, 3⟩ := ⟨_, _, rfl, rfl⟩
  have hempty : MemoryStore.empty.shelf.Resumable .keyless :=
    ⟨Nat.le_refl _, Nat.le_refl _, fun h => absurd h (Nat.lt_irrefl _)⟩
  obtain ⟨kept, rfl, -, -, -, hall⟩ :=
    (merges_as_fold .keyless).1.interleaved rfl hempty worked_late hperform
  obtain ⟨-, hstop, hfolds⟩ := hall joined rfl
  rw [← hstop, hwindow] at hfolds
  exact ⟨joined, t, _, hperform, rfl, rfl, hwindow, hfolds⟩

end Merger

end AmmRollup
