import AmmRollup.Proofs.Incremental
import AmmRollup.Proofs.Proposer.Recovery
import AmmRollup.Proofs.Store.States

/-!
# AmmRollup.Proofs.Resume

Going on after a merger that was stopped half-way, in a store of files.  A merged proof is
kept by replacing two files, first its own and then that of the cursors, so a call that is
stopped in between leaves a merged proof one step ahead of its window (`Shelf.Halted`).
That is the only trace: wherever a call is stopped, and however often, the shelf is halted
and its proofs are as they were (`Merger.leaves_mergePending`, `Merger.Stops.leaves`).

The next call trusts the window.  An empty one hides the merged proof, and nothing is lost.
Behind a merged proof that is one step ahead the next proof is joined once more, which is
refused unless that proof leads nowhere, and so the window stays where it is
(`FileStore.perform_mergePending_stopped`).  Every call that joins a proof which leads
elsewhere passes through such a state (`FileStore.exists_state_refused`).
-/

namespace AmmRollup

open Merger

/-! ## Shelves that a stopped merger leaves

The merged proof is replaced before the window is.  A merger that is stopped in between leaves a
merged proof one step ahead of its window.
-/

namespace Shelf

variable {shelf kept next : Shelf} {prover : Prover} {merged p joined : Proof} {start stop : Nat}

/-- A shelf on which the merger may have been stopped: its merged proof, while the window holds
any step, is what the proofs of the window fold to, or these and the one behind them. -/
structure Halted (shelf : Shelf) (prover : Prover) : Prop where
  ordered : shelf.window.start ≤ shelf.window.stop
  reached : shelf.window.stop ≤ shelf.count
  merged : shelf.window.start < shelf.window.stop → ∃ merged, shelf.merged = .ok (some merged) ∧
    (shelf.Folds prover shelf.window.start shelf.window.stop merged ∨
      shelf.window.stop < shelf.count ∧
        shelf.Folds prover shelf.window.start (shelf.window.stop + 1) merged)

/-- A shelf that can go on is one where a merger may have halted. -/
theorem Resumable.halted (h : shelf.Resumable prover) : shelf.Halted prover where
  ordered := h.ordered
  reached := h.reached
  merged hwindow := by
    obtain ⟨merged, hslot, hfolds⟩ := h.merged hwindow
    exact ⟨merged, hslot, .inl hfolds⟩

/-- Shelves that may differ in the merged proof and the end of its window. -/
structure Alike (shelf kept : Shelf) : Prop where
  proof : kept.proof = shelf.proof
  start : kept.window.start = shelf.window.start
  count : kept.count = shelf.count
  settledUntil : kept.settledUntil = shelf.settledUntil

theorem Alike.refl (shelf : Shelf) : shelf.Alike shelf := ⟨rfl, rfl, rfl, rfl⟩

theorem Alike.trans (h : shelf.Alike kept) (h' : kept.Alike next) : shelf.Alike next :=
  ⟨h'.proof.trans h.proof, h'.start.trans h.start, h'.count.trans h.count,
    h'.settledUntil.trans h.settledUntil⟩

/-- A merged proof and its window are all that a merger writes. -/
theorem alike_putMerged (shelf : Shelf) (p : Proof) (stop : Nat) :
    shelf.Alike (shelf.putMerged p stop) := ⟨rfl, rfl, rfl, rfl⟩

/-- The next proof is joined to the same, whether or not the merged proof is one step ahead. -/
theorem folds_succ_of_mergeTwo (hwindow : start < stop)
    (hmerged : shelf.Folds prover start stop merged ∨ shelf.Folds prover start (stop + 1) merged)
    (hp : shelf.proof stop = .ok p) (hjoin : mergeTwo prover merged p = .ok joined) :
    shelf.Folds prover start (stop + 1) joined := by
  cases hmerged with
  | inl hbehind => exact (folds_succ_iff hwindow).mpr ⟨merged, p, hbehind, hp, hjoin⟩
  | inr hahead =>
    obtain ⟨before, q, -, hq, hmerge⟩ := (folds_succ_iff hwindow).mp hahead
    obtain rfl := Except.ok.inj (hp.symm.trans hq)
    exact eq_of_mergeTwo_again hmerge hjoin ▸ hahead

/-- One more proof joined to the merged one covers a window that is longer by one. -/
theorem Halted.folds_succ (h : shelf.Halted prover)
    (hwindow : shelf.window.start < shelf.window.stop) (hslot : shelf.merged = .ok (some merged))
    (hp : shelf.proof shelf.window.stop = .ok p) (hjoin : mergeTwo prover merged p = .ok joined) :
    shelf.Folds prover shelf.window.start (shelf.window.stop + 1) joined := by
  obtain ⟨merged', hslot', hfolds⟩ := h.merged hwindow
  obtain rfl : merged = merged' := Option.some.inj (Except.ok.inj (hslot.symm.trans hslot'))
  exact folds_succ_of_mergeTwo hwindow (hfolds.imp_right And.right) hp hjoin

/-- Keeping the next merged proof, or its file alone, leaves a shelf on which the merger can be
stopped. -/
theorem Halted.putMerged (h : shelf.Halted prover) (hcount : shelf.window.stop < shelf.count)
    (hfolds : shelf.Folds prover shelf.window.start (shelf.window.stop + 1) joined) :
    ({ shelf with merged := .ok (some joined) } : Shelf).Halted prover ∧
      (shelf.putMerged joined (shelf.window.stop + 1)).Halted prover := by
  constructor
  · exact ⟨h.ordered, h.reached, fun _ => ⟨joined, rfl, .inr ⟨hcount, hfolds⟩⟩⟩
  · exact ⟨Nat.le_succ_of_le h.ordered, hcount, fun _ => ⟨joined, rfl, .inl hfolds⟩⟩

end Shelf

/-! ## What a stopped merger leaves

All that a merger writes are its merged proof and the window.  Each part of a call is shown to
leave, wherever it is stopped, a shelf on which it may be stopped.
-/

namespace FileStore

variable {folder : String} {base : PathParts} {s t u : FileSystem} {shelf kept : Shelf}
  {prover : Prover} {joined : Proof}

/-- What a merger that is stopped leaves of a folder: a shelf on which it may be stopped, with
the proofs as they were. -/
def Leaves (folder : String) (base : PathParts) (prover : Prover) (s : FileSystem) (shelf : Shelf)
    (t : FileSystem) : Prop :=
  ∃ kept, Shelved folder base t kept ∧ Kept base s t ∧ kept.Halted prover ∧ shelf.Alike kept

/-- A call that has written nothing yet leaves what it found. -/
theorem leaves_self (h : Shelved folder base s shelf) (hhalted : shelf.Halted prover) :
    Leaves folder base prover s shelf s := ⟨shelf, h, .refl .., hhalted, .refl _⟩

/-- What is left after a first write is left of the shelf before it. -/
theorem Leaves.trans (hkept : Kept base s t) (halike : shelf.Alike kept)
    (hleaves : Leaves folder base prover t kept u) : Leaves folder base prover s shelf u := by
  obtain ⟨last, hlast, hfiles, hhalted, hsame⟩ := hleaves
  exact ⟨last, hlast, hkept.trans hfiles, hhalted, halike.trans hsame⟩

/-- Keeping the next merged proof can be stopped. -/
theorem leaves_putMerged (h : Shelved folder base s shelf) (hhalted : shelf.Halted prover)
    (hcount : shelf.window.stop < shelf.count)
    (hp : joined.payload.length < 1 <<< 64)
    (hfolds : shelf.Folds prover shelf.window.start (shelf.window.stop + 1) joined)
    (ht : t ∈ (putMerged folder joined (shelf.window.stop + 1)).run.states s) :
    Leaves folder base prover s shelf t := by
  obtain ⟨hmerged, hboth⟩ := hhalted.putMerged hcount hfolds
  obtain ⟨hsteps, hstart, -, hsettled⟩ := h.fits
  have hfits : (shelf.putMerged joined (shelf.window.stop + 1)).cursors.Fits :=
    ⟨hsteps, hstart, Nat.lt_of_le_of_lt hcount hsteps, hsettled⟩
  rw [mem_states_putMerged h hp (Nat.lt_succ_of_le hhalted.ordered)] at ht
  obtain rfl | rfl | rfl := ht
  · exact ⟨shelf, h, .refl .., hhalted, .refl _⟩
  · exact ⟨_, h.withMerged hp, (Kept.refl ..).withFile .., hmerged, ⟨rfl, rfl, rfl, rfl⟩⟩
  · exact ⟨_, (h.withMerged hp).withCursors hfits, ((Kept.refl ..).withFile ..).withFile ..,
      hboth, ⟨rfl, rfl, rfl, rfl⟩⟩

end FileStore

namespace Merger

open FileStore (Shelved Kept Leaves leaves_self leaves_putMerged mem_states_bind mem_states_adapt
  mem_states_bind_ok mem_states_map mem_states_bind_reads mem_states_ask readsOnly_proofCount
  readsOnly_mergedWindow readsOnly_getMerged readsOnly_pure readsOnly_ofExcept readsOnly_adapt)

variable {folder : String} {base : PathParts} {s t u : FileSystem} {shelf kept : Shelf}
  {prover : Prover} {merged p joined : Proof} {steps : Nat}

/-- Loading a proof writes nothing. -/
theorem readsOnly_load (folder : String) (i : Nat) : (load (.files folder) i).run.ReadsOnly :=
  readsOnly_adapt (FileStore.readsOnly_get folder i) _

/-- A call that keeps the next merged proof and then goes on can be stopped in either part. -/
theorem leaves_keep {α : Type} {rest : Unit → ExceptT Failure FileProgram α}
    (h : Shelved folder base s shelf) (hhalted : shelf.Halted prover)
    (hcount : shelf.window.stop < shelf.count) (hjoined : joined.payload.length < 1 <<< 64)
    (hfolds : shelf.Folds prover shelf.window.start (shelf.window.stop + 1) joined)
    (hrest : ∀ u, Shelved folder base u (shelf.putMerged joined (shelf.window.stop + 1)) →
      t ∈ (rest ()).run.states u →
      Leaves folder base prover u (shelf.putMerged joined (shelf.window.stop + 1)) t)
    (ht : t ∈ (((ProofStore.files folder).putMerged joined (shelf.window.stop + 1)).adapt
      (fun e => Failure.of (.store e)) >>= rest).run.states s) :
    Leaves folder base prover s shelf t := by
  obtain ⟨u, hkeep, hu, hkept⟩ := (ProofStore.files_lawful folder base s).putMerged
    ⟨h, .refl ..⟩ hjoined (Nat.lt_of_le_of_lt hcount h.fits.1) (Nat.lt_succ_of_le hhalted.ordered)
  rw [mem_states_bind_ok (Runs.perform_adapt_ok _ hkeep), mem_states_adapt] at ht
  cases ht with
  | inl ht => exact leaves_putMerged h hhalted hcount hjoined hfolds ht
  | inr ht => exact (hrest u hu ht).trans hkept (Shelf.alike_putMerged ..)

/-- Joining the next proofs can be stopped. -/
theorem leaves_extend (h : Shelved folder base s shelf) (hhalted : shelf.Halted prover)
    (hwindow : shelf.window.start < shelf.window.stop) (hslot : shelf.merged = .ok (some merged))
    (hsteps : shelf.window.stop + steps = shelf.count)
    (ht : t ∈ (extend (.files folder) prover merged shelf.window.stop steps).run.states s) :
    Leaves folder base prover s shelf t := by
  -- by induction on the steps that are pending: each loads, joins and keeps
  induction steps generalizing s shelf merged with
  | zero =>
    obtain rfl : t = s := (readsOnly_pure merged).mem_states_iff.mp ht
    exact leaves_self h hhalted
  | succ steps ih =>
    have hlawful := ProofStore.files_lawful folder base s
    have hself : Shelved folder base s shelf ∧ Kept base s s := ⟨h, .refl ..⟩
    have hcount : shelf.window.stop < shelf.count := by omega
    have hindex : shelf.window.stop < 1 <<< 64 := Nat.lt_trans hcount h.fits.1
    have hnext : shelf.window.stop + 1 < 1 <<< 64 := Nat.lt_of_le_of_lt hcount h.fits.1
    obtain rfl | ⟨p, hload, ht⟩ :=
      (mem_states_bind_reads (readsOnly_load folder _)).mp ht
    · exact leaves_self h hhalted
    rw [perform_load hlawful hself hindex] at hload
    have hp : shelf.proof shelf.window.stop = .ok p :=
      mapError_eq_ok_iff.mp (congrArg Prod.fst hload)
    obtain rfl | ⟨both, hjoin, ht⟩ := (mem_states_bind_reads (readsOnly_ofExcept _)).mp ht
    · exact leaves_self h hhalted
    rw [Runs.perform_ofExcept] at hjoin
    have hjoin : mergeTwo prover merged p = .ok both :=
      mapError_eq_ok_iff.mp (congrArg Prod.fst hjoin)
    have hfolds := hhalted.folds_succ hwindow hslot hp hjoin
    have hstorable : both.payload.length < 1 <<< 64 :=
      eq_certify_of_mergeTwo hjoin ▸ Prover.length_payload_certify ..
    exact leaves_keep h hhalted hcount hstorable hfolds (fun u hu ht => ih hu
      (hhalted.putMerged hcount hfolds).2 (Nat.lt_succ_of_lt hwindow) rfl
      ((Nat.succ_add_eq_add_succ ..).trans hsteps) ht) ht

/-- The first proof of an empty window can be stopped too, when it is kept. -/
theorem leaves_first (h : Shelved folder base s shelf) (hhalted : shelf.Halted prover)
    (hcount : shelf.window.stop < shelf.count)
    (hempty : shelf.window.stop = shelf.window.start) (hp : shelf.proof shelf.window.stop = .ok p)
    (ht : t ∈ (do
      (ProofStore.files folder).putMerged p (shelf.window.stop + 1) |>.adapt
        fun e => Failure.of (.store e)
      return some (← extend (.files folder) prover p (shelf.window.stop + 1)
        (shelf.count - (shelf.window.stop + 1))) :
          ExceptT Failure FileProgram (Option Proof)).run.states s) :
    Leaves folder base prover s shelf t := by
  have hstorable := h.storable (Nat.lt_trans hcount h.fits.1) hp
  have hfolds : shelf.Folds prover shelf.window.start (shelf.window.stop + 1) p := by
    rw [hempty] at hp ⊢
    exact Shelf.folds_one_iff.mpr hp
  refine leaves_keep h hhalted hcount hstorable hfolds (fun u hu ht => ?_) ht
  exact leaves_extend hu (hhalted.putMerged hcount hfolds).2 (Nat.lt_succ_of_le hhalted.ordered)
    rfl (Nat.add_sub_cancel' hcount) (mem_states_map.mp ht)

/-! ### Whole calls

A call only looks, goes on from a window, or starts one.  However often calls are stopped, the
folder stays one on which they may be.
-/

/-- With nothing pending a call only looks. -/
theorem mem_states_mergePending_none (h : Shelved folder base s shelf)
    (hcount : shelf.count ≤ shelf.window.start) :
    t ∈ (mergePending (.files folder) prover).run.states s ↔ t = s := by
  have hlawful := ProofStore.files_lawful folder base s
  have hself : Shelved folder base s shelf ∧ Kept base s s := ⟨h, .refl ..⟩
  rw [mergePending, mem_states_ask (readsOnly_proofCount folder) (hlawful.proofCount hself),
    mem_states_ask (readsOnly_mergedWindow folder) (hlawful.mergedWindow hself), if_pos hcount,
    (readsOnly_pure none).mem_states_iff, or_self, or_self]

/-- With a window a call goes on from the merged proof. -/
theorem mem_states_mergePending_merged (h : Shelved folder base s shelf)
    (hcount : shelf.window.start < shelf.count)
    (hwindow : shelf.window.start < shelf.window.stop) (hslot : shelf.merged = .ok (some merged)) :
    t ∈ (mergePending (.files folder) prover).run.states s ↔ t = s ∨
      t ∈ (extend (.files folder) prover merged shelf.window.stop
        (shelf.count - shelf.window.stop)).run.states s := by
  have hlawful := ProofStore.files_lawful folder base s
  have hself : Shelved folder base s shelf ∧ Kept base s s := ⟨h, .refl ..⟩
  have hget := hlawful.getMerged hself
  rw [shelf.getMerged_of_lt hwindow, hslot] at hget
  rw [mergePending, mem_states_ask (readsOnly_proofCount folder) (hlawful.proofCount hself),
    mem_states_ask (readsOnly_mergedWindow folder) (hlawful.mergedWindow hself),
    if_neg (Nat.not_le.mpr hcount), mem_states_ask (readsOnly_getMerged folder) hget,
    mem_states_map, or_self_left, or_self_left]

/-- Without a window a call starts one with the first proof that is pending. -/
theorem mem_states_mergePending_first (h : Shelved folder base s shelf)
    (hcount : shelf.window.start < shelf.count)
    (hempty : shelf.window.stop = shelf.window.start) :
    t ∈ (mergePending (.files folder) prover).run.states s ↔ t = s ∨
      ∃ p, shelf.proof shelf.window.start = .ok p ∧ t ∈ (do
        (ProofStore.files folder).putMerged p (shelf.window.start + 1) |>.adapt
          fun e => Failure.of (.store e)
        return some (← extend (.files folder) prover p (shelf.window.start + 1)
          (shelf.count - (shelf.window.start + 1))) :
            ExceptT Failure FileProgram (Option Proof)).run.states s := by
  have hlawful := ProofStore.files_lawful folder base s
  have hself : Shelved folder base s shelf ∧ Kept base s s := ⟨h, .refl ..⟩
  have hindex : shelf.window.start < 1 <<< 64 := Nat.lt_trans hcount h.fits.1
  have hget := hlawful.getMerged hself
  rw [shelf.getMerged_of_empty hempty] at hget
  have hload (p : Proof) : Runs.files.perform (load (.files folder) shelf.window.start) s =
      (.ok p, s) ↔ shelf.proof shelf.window.start = .ok p := by
    rw [perform_load hlawful hself hindex, Prod.mk.injEq, mapError_eq_ok_iff]
    exact and_iff_left rfl
  -- until the first proof is kept, the call only asks
  rw [mergePending, mem_states_ask (readsOnly_proofCount folder) (hlawful.proofCount hself),
    mem_states_ask (readsOnly_mergedWindow folder) (hlawful.mergedWindow hself),
    if_neg (Nat.not_le.mpr hcount), mem_states_ask (readsOnly_getMerged folder) hget,
    or_self_left, or_self_left]
  refine (or_congr_right (mem_states_bind_reads (readsOnly_load folder _))).trans ?_
  rw [or_self_left]
  simp only [hload]

/-- **Wherever a call of the merger is stopped**, it leaves a shelf on which it may be stopped. -/
theorem leaves_mergePending (h : Shelved folder base s shelf) (hhalted : shelf.Halted prover)
    (ht : t ∈ (mergePending (.files folder) prover).run.states s) :
    Leaves folder base prover s shelf t := by
  have hself := leaves_self h hhalted
  by_cases hcount : shelf.window.start < shelf.count
  -- a window goes on where it is, and otherwise one is started
  · by_cases hwindow : shelf.window.start < shelf.window.stop
    · obtain ⟨merged, hslot, -⟩ := hhalted.merged hwindow
      obtain rfl | ht := (mem_states_mergePending_merged h hcount hwindow hslot).mp ht
      · exact hself
      · exact leaves_extend h hhalted hwindow hslot (Nat.add_sub_cancel' hhalted.reached) ht
    · have hempty : shelf.window.stop = shelf.window.start :=
        Nat.le_antisymm (Nat.not_lt.mp hwindow) hhalted.ordered
      obtain rfl | ⟨p, hp, ht⟩ := (mem_states_mergePending_first h hcount hempty).mp ht
      · exact hself
      · rw [← hempty] at hp ht hcount
        exact leaves_first h hhalted hcount hempty hp ht
  · obtain rfl := (mem_states_mergePending_none h (Nat.not_lt.mp hcount)).mp ht
    exact hself

/-- The states that calls of the merger leave which are stopped anywhere, one after another. -/
inductive Stops (folder : String) (prover : Prover) (s : FileSystem) : FileSystem → Prop where
  | start : Stops folder prover s s
  | stop {t u : FileSystem} (before : Stops folder prover s t)
      (hstop : u ∈ (mergePending (.files folder) prover).run.states t) : Stops folder prover s u

/-- **However often the merger is stopped**, its folder is one on which it may be stopped. -/
theorem Stops.leaves (hstops : Stops folder prover s t) (h : Shelved folder base s shelf)
    (hhalted : shelf.Halted prover) : Leaves folder base prover s shelf t := by
  induction hstops with
  | start => exact leaves_self h hhalted
  | stop before hstop ih =>
    obtain ⟨kept, hkept, hfiles, hhalted, hsame⟩ := ih
    exact (leaves_mergePending hkept hhalted hstop).trans hfiles hsame

/-- A call that joins a proof can be stopped when it has replaced the merged proof, and has not
moved the end of the window yet. -/
theorem withFile_mem_states_mergePending (h : Shelved folder base s shelf)
    (hwindow : shelf.window.start < shelf.window.stop) (hcount : shelf.window.stop < shelf.count)
    (hslot : shelf.merged = .ok (some merged)) (hp : shelf.proof shelf.window.stop = .ok p)
    (hjoin : mergeTwo prover merged p = .ok joined) :
    FileStore.withFile base s .merged joined.encode ∈
      (mergePending (.files folder) prover).run.states s := by
  obtain ⟨steps, hsteps⟩ : ∃ steps, shelf.count - shelf.window.stop = steps + 1 :=
    Nat.exists_eq_add_one.mpr (Nat.sub_pos_of_lt hcount)
  have hload : Runs.files.perform (load (.files folder) shelf.window.stop) s = (.ok p, s) := by
    rw [perform_load (ProofStore.files_lawful folder base s) ⟨h, .refl ..⟩
      (Nat.lt_trans hcount h.fits.1), hp]
    rfl
  have hjoined : Runs.files.perform (ofExcept ((mergeTwo prover merged p).mapError
      (·.within (.mergeProof shelf.window.stop))) : ExceptT Failure FileProgram Proof) s =
        (.ok joined, s) := by
    rw [hjoin]
    exact Runs.perform_pure _ _
  have hstorable : joined.payload.length < 1 <<< 64 :=
    eq_certify_of_mergeTwo hjoin ▸ Prover.length_payload_certify ..
  -- the merged proof is written before the cursors that count it
  have hbetween := (FileStore.mem_states_putMerged h hstorable (Nat.lt_succ_of_lt hwindow)).mpr
    (.inr (.inl rfl))
  rw [mem_states_mergePending_merged h (Nat.lt_trans hwindow hcount) hwindow hslot, hsteps, extend,
    mem_states_bind_ok hload, mem_states_bind_ok hjoined, mem_states_bind, mem_states_adapt]
  exact .inr (.inr (.inr (.inl hbetween)))

/-! ## Going on

Whether the next call goes on is decided by the merged proof: if it is what its window folds to,
it does; if it is one step ahead, the same proof would be joined twice, which fails unless
joining it again makes no difference.
-/

section

variable {m : Type → Type} [Monad m] [LawfulMonad m] {σ : Type} {L : LawfulStore m σ} {x y : σ}

/-- The merger goes on from a merged proof if the next proof is joined to it. -/
theorem perform_mergePending_next (h : L.shelved x shelf) (hhalted : shelf.Halted prover)
    (hwindow : shelf.window.start < shelf.window.stop) (hcount : shelf.window.stop < shelf.count)
    (hslot : shelf.merged = .ok (some merged)) (hp : shelf.proof shelf.window.stop = .ok p)
    (hjoin : mergeTwo prover merged p = .ok joined) {last : Proof}
    (hfolds : shelf.Folds prover shelf.window.start shelf.count last) :
    ∃ y, L.runs.perform (mergePending L.store prover) x = (.ok (some last), y) ∧
      L.shelved y (shelf.putMerged last shelf.count) := by
  obtain ⟨steps, hsteps⟩ : ∃ steps, shelf.count - shelf.window.stop = steps + 1 :=
    Nat.exists_eq_add_one.mpr (Nat.sub_pos_of_lt hcount)
  obtain ⟨y, hy, hextend⟩ := perform_extend_succ steps L.lawful (L.certified prover) h
    (L.counted h (Nat.le_of_lt hcount)) (L.counted h hcount) hhalted.ordered hp hjoin
  obtain ⟨result, z, kept, hperform, hjoined, hz⟩ := perform_extend L.lawful (L.certified prover)
    (fun i => L.counted h) (show shelf.window.stop + 1 + steps = shelf.count by omega) hy rfl
    (hhalted.folds_succ hwindow hslot hp hjoin)
  obtain ⟨rfl, rfl⟩ := hjoined.eq_of_folds hfolds
  refine ⟨z, ?_, hz⟩
  rw [perform_mergePending_merged L.lawful h (Nat.lt_trans hwindow hcount) hwindow hslot, hsteps]
  exact perform_return_extend (hextend.trans hperform)

/-- Otherwise it fails there, and changes nothing. -/
theorem perform_mergePending_refused (h : L.shelved x shelf)
    (hwindow : shelf.window.start < shelf.window.stop) (hcount : shelf.window.stop < shelf.count)
    (hslot : shelf.merged = .ok (some merged)) (hp : shelf.proof shelf.window.stop = .ok p)
    {failure : Failure} (hrefused : mergeTwo prover merged p = .error failure) :
    L.runs.perform (mergePending L.store prover) x =
      (.error (failure.within (.mergeProof shelf.window.stop)), x) := by
  obtain ⟨steps, hsteps⟩ : ∃ steps, shelf.count - shelf.window.stop = steps + 1 :=
    Nat.exists_eq_add_one.mpr (Nat.sub_pos_of_lt hcount)
  rw [perform_mergePending_merged L.lawful h (Nat.lt_trans hwindow hcount) hwindow hslot, hsteps]
  exact perform_return_extend (perform_extend_refused L.lawful h
    (L.counted h (Nat.le_of_lt hcount)) hp hrefused)

end

end Merger

/-- A shelf on which the merger was stopped before it joined all proofs, which are those of
consecutive steps. -/
structure Shelf.Stopped (shelf : Shelf) (prover : Prover) (proofs : List Proof) : Prop
    extends shelf.Halted prover where
  pending : shelf.window.stop < shelf.count
  length : shelf.window.start + proofs.length = shelf.count
  proof : ∀ i, (hi : i < proofs.length) → shelf.proof (shelf.window.start + i) = .ok proofs[i]
  linked : prover.Linked proofs

namespace Shelf.Stopped

variable {shelf : Shelf} {prover : Prover} {proofs : List Proof} {merged next : Proof}

/-- The proofs fold. -/
theorem exists_folds (h : shelf.Stopped prover proofs) : ∃ joined,
    fold prover proofs = .ok joined ∧
      shelf.Folds prover shelf.window.start shelf.count joined := by
  have hlength := h.length
  have hordered := h.ordered
  have hpending := h.pending
  obtain ⟨first, rest, rfl⟩ : ∃ first rest, proofs = first :: rest :=
    List.exists_cons_of_length_pos (by omega)
  have hfold := fold_linked h.linked
  exact ⟨_, hfold, _, hlength, h.proof, hfold⟩

/-- The proof behind the window is one of the linked ones, so it verifies. -/
theorem verify_next (h : shelf.Stopped prover proofs)
    (hnext : shelf.proof shelf.window.stop = .ok next) : prover.verify next = true := by
  have hlength := h.length
  have hordered := h.ordered
  have hpending := h.pending
  have hproof := h.proof (shelf.window.stop - shelf.window.start) (by omega)
  rw [Nat.add_sub_cancel' hordered, hnext] at hproof
  exact Except.ok.inj hproof ▸ h.linked.verified _ (List.getElem_mem _)

/-- A merged proof one step ahead is certified, from the start of the window to the end of the next
proof. -/
theorem ahead (h : shelf.Stopped prover proofs)
    (hnext : shelf.proof shelf.window.stop = .ok next) (hresume : ¬ shelf.Resumable prover) :
    shelf.window.start < shelf.window.stop ∧ ∃ merged, shelf.merged = .ok (some merged) ∧
      prover.verify merged = true ∧ merged.output = next.output := by
  by_cases hwindow : shelf.window.start < shelf.window.stop
  · obtain ⟨merged, hslot, hbehind | ⟨-, hahead⟩⟩ := h.merged hwindow
    · exact absurd ⟨h.ordered, h.reached, fun _ => ⟨merged, hslot, hbehind⟩⟩ hresume
    · obtain ⟨before, p, -, hp, hjoin⟩ := (Shelf.folds_succ_iff hwindow).mp hahead
      obtain rfl := Except.ok.inj (hnext.symm.trans hp)
      obtain rfl := eq_certify_of_mergeTwo hjoin
      exact ⟨hwindow, _, hslot, prover.verify_certify .., rfl⟩
  · exact absurd ⟨h.ordered, h.reached, fun hlt => absurd hlt hwindow⟩ hresume

end Shelf.Stopped

namespace FileStore

variable {folder : String} {base : PathParts} {s : FileSystem} {shelf : Shelf}
  {prover : Prover} {proofs : List Proof} {next : Proof}

/-- **A call that joins a proof can be stopped for good**: between the two files that it replaces
there is a state that no later call goes on from. -/
theorem exists_state_refused (h : Shelved folder base s shelf) (hresume : shelf.Resumable prover)
    (hwindow : shelf.window.start < shelf.window.stop) (hstopped : shelf.Stopped prover proofs)
    (hnext : shelf.proof shelf.window.stop = .ok next) (hmoves : next.output ≠ next.input) :
    ∃ joined t, t ∈ (mergePending (.files folder) prover).run.states s ∧
      Shelved folder base t { shelf with merged := .ok (some joined) } ∧
      ({ shelf with merged := .ok (some joined) } : Shelf).Stopped prover proofs ∧
      Runs.files.perform (mergePending (.files folder) prover) t =
        (.error ⟨[.mergeProof shelf.window.stop], .prover .chainMismatch⟩, t) := by
  obtain ⟨last, -, hlast⟩ := hstopped.exists_folds
  obtain ⟨joined, hjoined⟩ := hlast.front (Nat.lt_succ_of_lt hwindow) hstopped.pending
  obtain ⟨merged, p, hmerged, hp, hjoin⟩ := (Shelf.folds_succ_iff hwindow).mp hjoined
  obtain rfl := Except.ok.inj (hnext.symm.trans hp)
  obtain ⟨merged', hslot, hfolds⟩ := hresume.merged hwindow
  obtain rfl := hfolds.unique hmerged
  have hcertified := eq_certify_of_mergeTwo hjoin
  have hstorable : joined.payload.length < 1 <<< 64 :=
    hcertified ▸ Prover.length_payload_certify ..
  have ht := h.withMerged hstorable
  have hmem := withFile_mem_states_mergePending h hwindow hstopped.pending hslot hnext hjoin
  refine ⟨joined, _, hmem, ht,
    { toHalted := (hstopped.toHalted.putMerged hstopped.pending hjoined).1
      pending := hstopped.pending
      length := hstopped.length
      proof := hstopped.proof
      linked := hstopped.linked }, ?_⟩
  -- the merged proof ends where the next one ends, and that is not where it starts
  have hapart : joined.output ≠ next.input := by
    rw [hcertified]
    exact hmoves
  exact perform_mergePending_refused (L := .files folder base _) ⟨ht, .refl ..⟩ hwindow
    hstopped.pending rfl hnext (mergeTwo_apart hapart)

/-- **Going on after a merger that was stopped.**  It joins all proofs if the merged proof is what
those of its window fold to, and also if that is one step ahead of the window while the next
proof leads nowhere else.  Otherwise the next proof is joined to what holds it already: that is
refused, and nothing changes. -/
theorem perform_mergePending_stopped (h : Shelved folder base s shelf)
    (hstopped : shelf.Stopped prover proofs) (hnext : shelf.proof shelf.window.stop = .ok next) :
    ∃ joined, fold prover proofs = .ok joined ∧
      (shelf.Resumable prover ∨ next.output = next.input → ∃ t,
        Runs.files.perform (mergePending (.files folder) prover) s = (.ok (some joined), t) ∧
          Shelved folder base t (shelf.putMerged joined shelf.count)) ∧
      (¬ (shelf.Resumable prover ∨ next.output = next.input) →
        Runs.files.perform (mergePending (.files folder) prover) s =
          (.error ⟨[.mergeProof shelf.window.stop], .prover .chainMismatch⟩, s)) := by
  obtain ⟨joined, hfold, hfolds⟩ := hstopped.exists_folds
  let L := LawfulStore.files folder base s
  have hself : L.shelved s shelf := ⟨h, .refl ..⟩
  refine ⟨joined, hfold, fun hgood => ?_, fun hbad => ?_⟩
  -- one step ahead, the same proof is joined again, which works if it changes no roots
  · by_cases hresume : shelf.Resumable prover
    · obtain ⟨t, hperform, ht⟩ := perform_mergePending_folds L.lawful (L.certified prover)
        (fun i => L.counted hself) hself hresume hfolds
      exact ⟨t, hperform, ht.1⟩
    · obtain ⟨hwindow, merged, hslot, hverify, houtput⟩ := hstopped.ahead hnext hresume
      have hlink : merged.output = next.input := houtput.trans (hgood.resolve_left hresume)
      obtain ⟨t, hperform, ht⟩ := perform_mergePending_next hself hstopped.toHalted hwindow
        hstopped.pending hslot hnext
        (mergeTwo_linked hverify (hstopped.verify_next hnext) hlink) hfolds
      exact ⟨t, hperform, ht.1⟩
  · rw [not_or] at hbad
    obtain ⟨hwindow, merged, hslot, -, houtput⟩ := hstopped.ahead hnext hbad.1
    have hapart : merged.output ≠ next.input := houtput ▸ hbad.2
    exact perform_mergePending_refused (L := L) hself hwindow hstopped.pending hslot hnext
      (mergeTwo_apart hapart)

end FileStore

namespace Directory

open FileStore (Shelved)

/-- A merged proof of two steps, where the cursors speak of one. -/
theorem stopped_overtaken :
    overtaken.Stopped (prover .default) [mockProof 0, mockProof 1] where
  toHalted := interrupted_overtaken.pending.resumable.halted
  pending := by decide
  length := rfl
  proof i hi := by
    rw [show overtaken.window.start + i = i from Nat.zero_add i]
    exact interrupted_overtaken.proof i hi
  linked := interrupted_overtaken.linked

/-- Files that say so can be there. -/
theorem exists_overtaken : ∃ s, Directory .default .default s overtaken ⟨numbered 1, 1⟩ := by
  obtain ⟨before, hbefore⟩ := exists_halfway
  obtain ⟨s, -, h⟩ := hbefore.exists_put (p := mockProof 1) (i := 1) (by decide) (by decide)
  exact ⟨s, h⟩

/-- The call that was stopped before it began to join the second proof is gone on from. -/
theorem perform_mergePending_stopped_overtaken : ∃ s t joined,
    Shelved Config.default.proofsDir Places.default.proofs s overtaken ∧
      Runs.files.perform (mergePending (.files Config.default.proofsDir) (prover .default)) s =
        (.ok (some joined), t) ∧
      fold (prover .default) [mockProof 0, mockProof 1] = .ok joined ∧
      Shelved Config.default.proofsDir Places.default.proofs t (overtaken.putMerged joined 2) := by
  obtain ⟨s, h⟩ := exists_overtaken
  obtain ⟨joined, hfold, hgood, -⟩ :=
    FileStore.perform_mergePending_stopped h.shelved stopped_overtaken rfl
  obtain ⟨t, hperform, ht⟩ := hgood (.inl interrupted_overtaken.pending.resumable)
  exact ⟨s, t, joined, h.shelved, hperform, hfold, ht⟩

/-- Not every stopped merger is gone on from. -/
theorem not_all_stopped_resume :
    ¬ ∀ (folder : String) (base : PathParts) (s : FileSystem) (shelf : Shelf) (prover : Prover)
        (proofs : List Proof),
      Shelved folder base s shelf → shelf.Stopped prover proofs →
      ∃ joined t, fold prover proofs = .ok joined ∧
        Runs.files.perform (mergePending (.files folder) prover) s = (.ok (some joined), t) ∧
        Shelved folder base t (shelf.putMerged joined shelf.count) := by
  intro hall
  obtain ⟨s, h⟩ := exists_overtaken
  obtain ⟨ahead, t, -, ht, hstopped, hrefused⟩ := FileStore.exists_state_refused h.shelved
    interrupted_overtaken.pending.resumable (by decide) stopped_overtaken rfl (by decide)
  obtain ⟨joined, u, -, hperform, -⟩ := hall _ _ t _ _ _ ht hstopped
  cases (congrArg Prod.fst hrefused).symm.trans (congrArg Prod.fst hperform)

end Directory

end AmmRollup
