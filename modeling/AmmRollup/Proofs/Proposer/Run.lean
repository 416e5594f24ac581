import AmmRollup.Proofs.Pending
import AmmRollup.Proofs.Store.File
import AmmRollup.Proposer

/-!
# AmmRollup.Proofs.Proposer.Run

What one run of the proposer does to a node's directory.  A `Directory` is a store of
proofs with a settlement file beside it, and says what both hold.  With no proof past the
window's start a run changes nothing.  Otherwise it joins all proofs of the window, and
what becomes of the window depends on the settled roots alone: where they are the start
or the end of the joined proof the window is closed (`Shelf.closed`) and the settled
roots are that end, and elsewhere the window stays open.
-/

namespace AmmRollup

/-- The places of a node's directory: the folder of its proofs, its settlement file, and
where that is written before it takes its place. -/
structure Places where
  proofs : PathParts
  settlement : PathParts
  temporary : PathParts

/-- A node's directory, with what its store and its settlement file hold.  The settlement
file is none of the store's, and no file stands where a folder does. -/
structure Directory (c : Config) (places : Places) (s : FileSystem) (shelf : Shelf)
    (settlement : Settlement) : Prop where
  shelved : FileStore.Shelved c.proofsDir places.proofs s shelf
  slot : s.slot c.settlementPath = .ok places.settlement
  temporary : s.slot (temporaryPath c.settlementPath) = .ok places.temporary
  apart : ∀ f : StoreFile, places.settlement ≠ FileStore.place places.proofs f ∧
    places.settlement ≠ FileStore.temporaryPlace places.proofs f ∧
    places.temporary ≠ FileStore.place places.proofs f
  free : ∀ place ∈ s.folders, s.files.contains place = false
  settlement : (s.files.get? places.settlement).elim (some .initial) Json.read? = some settlement

/-! ## New directories

A new node has two folders and no files.  Its store counts nothing, and its settlement is the
initial one.
-/

/-- The file system of a new node with the default settings: its folders, and no files. -/
def FileSystem.fresh : FileSystem where
  files := ∅
  folders := [[], ["data".toList], ["data".toList, "proofs".toList]]

example : Runs.files.perform (FileStore.openAt Config.default.proofsDir) .empty =
    (.ok (), .fresh) := rfl

/-- Where the files of a node with the default settings stand. -/
def Places.default : Places where
  proofs := ["data".toList, "proofs".toList]
  settlement := ["data".toList, "settlement.json".toList]
  temporary := ["data".toList, "settlement.tmp".toList]

/-- A file system without files is a new directory. -/
theorem Directory.fresh : Directory .default .default .fresh .empty .initial where
  shelved := {
    keeps := {
      room := ⟨rfl, by simp [FileSystem.fresh, Places.default], by decide⟩
      place := by simp [FileSystem.fresh, Places.default, FileStore.place]
      temporary := by simp [FileSystem.fresh, Places.default, FileStore.temporaryPlace] }
    proof := fun _ _ => rfl
    merged := rfl
    cursors := rfl }
  slot := rfl
  temporary := rfl
  apart := by simp [Places.default, FileStore.place, FileStore.temporaryPlace]
  free := fun _ _ => rfl
  settlement := rfl

/-! ## Settled shelves

After a run that settles, the mark and both ends of the window stand behind the last proof.
-/

/-- A shelf whose steps are all settled, with an empty window behind them. -/
def Shelf.closed (shelf : Shelf) : Shelf :=
  (shelf.setSettledUntil shelf.count).startMerge shelf.count

/-- All steps of a shelf are settled: the settled roots are those after the last proof, and
the next window is empty and behind it. -/
structure AllSettled (shelf : Shelf) (settlement : Settlement) (last : Proof) : Prop where
  roots : settlement.roots = last.output
  marked : shelf.settledUntil = shelf.count
  window : shelf.window = ⟨shelf.count, shelf.count⟩

namespace Directory

variable {c : Config} {places : Places} {s t : FileSystem} {shelf shelf' : Shelf}
  {settlement : Settlement}

/-- A change of the store leaves the settlement file alone. -/
theorem of_kept (h : Directory c places s shelf settlement)
    (hshelved : FileStore.Shelved c.proofsDir places.proofs t shelf')
    (hkept : FileStore.Kept places.proofs s t) : Directory c places t shelf' settlement where
  shelved := hshelved
  slot := FileSystem.slot_of_folders hkept.folders h.slot
  temporary := FileSystem.slot_of_folders hkept.folders h.temporary
  apart := h.apart
  free := hkept.free hshelved.keeps h.free
  settlement := by
    rw [hkept.files _ fun f => ⟨(h.apart f).1, (h.apart f).2.1⟩]
    exact h.settlement

/-! ## The settlement file

The settlement is one JSON file beside the store.  It is read back as it was saved, and the
initial one is used where there is none.
-/

/-- The settlement is read back as it was saved, or is the initial one. -/
theorem perform_loadSettlement (h : Directory c places s shelf settlement) :
    Runs.files.perform (Proposer.loadSettlement c.settlementPath) s = (.ok settlement, s) := by
  have hread := FileSystem.read_of_slot h.slot
  have hsettlement := h.settlement
  unfold Proposer.loadSettlement
  rw [perform_readFile, hread]
  cases hfile : s.files.get? places.settlement with
  | none =>
    rw [hfile] at hsettlement
    exact Option.some.inj hsettlement ▸ rfl
  | some contents =>
    rw [hfile] at hsettlement
    simp only [Option.elim_some] at hsettlement
    simp [hsettlement]

/-- Keeping a settlement leaves the store alone. -/
theorem perform_saveSettlement (h : Directory c places s shelf settlement) (next : Settlement) :
    ∃ t, Runs.files.perform (Proposer.saveSettlement c.settlementPath next) s = (.ok (), t) ∧
      Directory c places t shelf next := by
  have hreplace : s.replace c.settlementPath (temporaryPath c.settlementPath)
      (Json.prettyBytes next) =
        (.ok (), s.replaced places.temporary places.settlement (Json.prettyBytes next)) :=
    FileSystem.replace_of_slot h.temporary h.slot
  refine ⟨s.replaced places.temporary places.settlement (Json.prettyBytes next), ?_, ?_⟩
  · unfold Proposer.saveSettlement
    rw [perform_replaceFile, hreplace]
    rfl
  · have hfolders : (s.replaced places.temporary places.settlement
        (Json.prettyBytes next)).folders = s.folders := FileSystem.folders_replaced ..
    exact {
      shelved := h.shelved.of_contents hfolders fun f => by
        rw [FileStore.contents?, FileSystem.get?_replaced,
          if_neg (h.apart f).1.symm, if_neg (h.apart f).2.2.symm, FileStore.contents?]
      slot := FileSystem.slot_of_folders hfolders h.slot
      temporary := FileSystem.slot_of_folders hfolders h.temporary
      apart := h.apart
      -- the file of the settlement is no folder, so writing it covers none
      free := fun place hplace => by
        have hslot : place ≠ places.settlement :=
          fun heq => (FileSystem.slot_eq_ok_iff.mp h.slot).2 (heq ▸ hplace)
        have hfree := h.free place hplace
        rw [FinMap.contains] at hfree ⊢
        rw [FileSystem.get?_replaced, if_neg hslot]
        split
        · rfl
        · exact hfree
      settlement := by
        rw [FileSystem.get?_replaced, if_pos rfl, Option.elim_some]
        exact (Json.LawfulForm.readsBack next).read?_prettyBytes }

/-! ## Closing a window

A run keeps the settlement first, then moves the mark, and then opens the next window.  Each of
these steps is an operation of the store or the replacement of one file.
-/

/-- The operations of the directory's store, as those of a lawful store. -/
theorem lawful (c : Config) (places : Places) (s : FileSystem) :
    (ProofStore.files c.proofsDir).Lawful .files
      (fun t shelf => FileStore.Shelved c.proofsDir places.proofs t shelf ∧
        FileStore.Kept places.proofs s t)
      (· < 1 <<< 64) (·.payload.length < 1 <<< 64) :=
  ProofStore.files_lawful c.proofsDir places.proofs s

/-- The store in the directory is what the cursors and files say. -/
theorem shelved_self (h : Directory c places s shelf settlement) :
    FileStore.Shelved c.proofsDir places.proofs s shelf ∧ FileStore.Kept places.proofs s s :=
  ⟨h.shelved, .refl ..⟩

/-- Keeping a proof changes the shelf. -/
theorem exists_put (h : Directory c places s shelf settlement) {i : Nat}
    (hi : i + 1 < 1 <<< 64) {p : Proof} (hp : p.payload.length < 1 <<< 64) :
    ∃ t, Runs.files.perform ((ProofStore.files c.proofsDir).put i p) s = (.ok (), t) ∧
      Directory c places t (shelf.put i p) settlement := by
  obtain ⟨t, hput, ht⟩ :=
    (lawful c places s).put h.shelved_self (Nat.lt_of_succ_lt hi) hi hp
  exact ⟨t, hput, h.of_kept ht.1 ht.2⟩

/-- Keeping a merged proof changes the shelf. -/
theorem exists_putMerged (h : Directory c places s shelf settlement) {p : Proof}
    (hp : p.payload.length < 1 <<< 64) {stop : Nat} (hstop : stop < 1 <<< 64)
    (hwindow : shelf.window.start < stop) :
    ∃ t, Runs.files.perform ((ProofStore.files c.proofsDir).putMerged p stop) s = (.ok (), t) ∧
      Directory c places t (shelf.putMerged p stop) settlement := by
  obtain ⟨t, hput, ht⟩ := (lawful c places s).putMerged h.shelved_self hp hstop hwindow
  exact ⟨t, hput, h.of_kept ht.1 ht.2⟩

/-- A window that ends behind the last step is closed. -/
theorem perform_close (h : Directory c places s shelf settlement)
    (hstop : shelf.window.stop = shelf.count) :
    ∃ t, Runs.files.perform
        (Proposer.run.close (ProofStore.files c.proofsDir) shelf.window) s = (.ok (), t) ∧
      Directory c places t shelf.closed settlement := by
  have hcount : shelf.count < 1 <<< 64 := h.shelved.fits.1
  obtain ⟨marked, hmark, hmarked⟩ := (lawful c places s).setSettledUntil h.shelved_self hcount
  obtain ⟨t, hstart, ht⟩ := (lawful c places s).startMerge hmarked hcount
  refine ⟨t, ?_, h.of_kept ht.1 ht.2⟩
  rw [Proposer.run.close, hstop,
    Runs.files.perform_bind_ok (Runs.files.perform_adapt_ok hmark)]
  exact Runs.files.perform_adapt_ok hstart

/-! ## Whole runs

A run joins the pending proofs, compares the joined proof with the settled roots, and closes the
window where it has been settled.  Which of these it comes to is decided by where the joined
proof starts and ends.
-/

/-- The prover of a run. -/
def prover (c : Config) : Prover := Prover.ofConfig c.prover KeyRegistry.empty.verify

/-- Opening the store in a directory that has its folder changes nothing. -/
theorem perform_openAt (h : Directory c places s shelf settlement) :
    Runs.files.perform ((FileStore.openAt c.proofsDir).adapt fun e =>
      (⟨[.openStore], .store e⟩ : Failure)) s = (.ok (), s) :=
  Runs.files.perform_adapt_ok (h.shelved.perform_openAt h.free)

/-- With no proof past the start of the window a run changes nothing. -/
theorem perform_run_idle (h : Directory c places s shelf settlement)
    (hcount : shelf.count ≤ shelf.window.start) :
    Runs.files.perform (Proposer.run c) s = (.ok (), s) := by
  have hlawful := lawful c places s
  have hnone : Runs.files.perform
      (Merger.mergePending (ProofStore.files c.proofsDir) (prover c)) s = (.ok none, s) :=
    Merger.perform_mergePending_none hlawful h.shelved_self hcount
  have hsettled := Runs.files.perform_adapt_ok (f := fun e => Failure.of (.store e))
    (hlawful.settledUntil h.shelved_self)
  rw [Proposer.run, Runs.files.perform_bind_ok h.perform_openAt]
  refine (Runs.files.perform_bind_ok (Runs.files.perform_adapt_ok hnone)).trans ?_
  exact (Runs.files.perform_bind_ok hsettled).trans (Runs.files.perform_pure ())

/-- A joined proof that ends at the settled roots is settled already, one that starts there
settles its end, and any other is stale. -/
theorem settle_eq {p : Prover} {joined : Proof} (hverify : p.verify joined = true) :
    Proposer.settle p settlement joined = .ok (
      if joined.output = settlement.roots then .current
      else if joined.input = settlement.roots then
        .advanced ⟨joined.output, settlement.settlements + 1⟩
      else .stale) := by
  rw [Proposer.settle]
  by_cases houtput : joined.output = settlement.roots
  · rw [if_pos houtput, if_pos houtput]
  · rw [if_neg houtput, if_neg houtput]
    by_cases hinput : joined.input = settlement.roots
    · have hsettle : (Settlement.settle p.verify joined).run.run settlement =
          (.ok joined.output, ⟨joined.output, settlement.settlements + 1⟩) :=
        Settlement.settle_eq_ok_iff.mpr ⟨hinput, hverify, rfl, rfl⟩
      rw [if_neg (not_not_intro hinput), if_pos hinput, hsettle]
    · rw [if_pos hinput, if_neg hinput]

/-- A run joins all proofs of the window.  Where the settled roots are the start or the end
of the joined proof, it closes the window and settles the end; elsewhere it keeps the joined
proof and leaves the window open. -/
theorem perform_run_pending (h : Directory c places s shelf settlement) {proofs : List Proof}
    (hpending : Merger.Pending (prover c) shelf proofs) {joined : Proof}
    (hjoined : Merger.fold (prover c) proofs = .ok joined)
    (hverify : (prover c).verify joined = true) :
    ∃ t, Runs.files.perform (Proposer.run c) s = (.ok (), t) ∧
      (settlement.roots = joined.input ∨ settlement.roots = joined.output →
        ∃ next, Directory c places t shelf.closed next ∧ next.roots = joined.output) ∧
      (¬ (settlement.roots = joined.input ∨ settlement.roots = joined.output) →
        Directory c places t (shelf.putMerged joined shelf.count) settlement) := by
  have hlawful := lawful c places s
  have hcount : shelf.count < 1 <<< 64 := h.shelved.fits.1
  obtain ⟨merged, hmerge, hmerged⟩ := Merger.perform_mergePending hlawful
    (Prover.length_payload_certify _) (fun i hi => Nat.lt_of_le_of_lt hi hcount) h.shelved_self
    hpending hjoined
  have hdirectory : Directory c places merged (shelf.putMerged joined shelf.count) settlement :=
    h.of_kept hmerged.1 hmerged.2
  have hwindow := (lawful c places merged).mergedWindow hdirectory.shelved_self
  rw [Proposer.run, Runs.files.perform_bind_ok h.perform_openAt]
  dsimp only
  rw [show Prover.ofConfig c.prover KeyRegistry.empty.verify = prover c from rfl,
    Runs.files.perform_bind_ok (Runs.files.perform_adapt_ok hmerge)]
  dsimp only
  rw [Runs.files.perform_bind_ok (Runs.files.perform_adapt_ok hwindow),
    Runs.files.perform_bind_ok hdirectory.perform_loadSettlement, settle_eq hverify,
    Runs.files.perform_bind_ok (Runs.files.perform_ofExcept _)]
  -- settled before, or to be settled now, or stale: then nothing but the merged proof is new
  by_cases houtput : joined.output = settlement.roots
  · rw [if_pos houtput]
    obtain ⟨t, hclose, ht⟩ := hdirectory.perform_close rfl
    exact ⟨t, hclose, fun _ => ⟨settlement, ht, houtput.symm⟩,
      fun hne => absurd (.inr houtput.symm) hne⟩
  · rw [if_neg houtput]
    by_cases hinput : joined.input = settlement.roots
    · rw [if_pos hinput]
      obtain ⟨saved, hsave, hsaved⟩ :=
        hdirectory.perform_saveSettlement ⟨joined.output, settlement.settlements + 1⟩
      obtain ⟨t, hclose, ht⟩ := hsaved.perform_close rfl
      exact ⟨t, (Runs.files.perform_bind_ok hsave).trans hclose, fun _ => ⟨_, ht, rfl⟩,
        fun hne => absurd (.inl hinput.symm) hne⟩
    · rw [if_neg hinput]
      exact ⟨merged, Runs.files.perform_pure _,
        fun hsettled => absurd hsettled (not_or.mpr ⟨Ne.symm hinput, Ne.symm houtput⟩),
        fun _ => hdirectory⟩

end Directory

end AmmRollup
