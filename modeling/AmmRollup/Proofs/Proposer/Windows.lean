import AmmRollup.Proofs.Chain
import AmmRollup.Proofs.Proposer.Run

/-!
# AmmRollup.Proofs.Proposer.Windows

The proposer settles a whole chain, window after window.  A node starts a chain in a new
directory and then does its work in any order: it proves steps, joins pending proofs, and
runs the proposer.  Between any two calls the settled roots are those before the first step
of the merge window, and the merged proof is what the steps of that window are joined to
(`Node.Sound`).  So what a run joins starts at the settled roots, and the run closes the
window behind the last proof (`Sound.called`).

The main result is `settles_every_window`: every run succeeds and settles all proofs, or
finds nothing to settle and changes nothing, and the windows settled one after another
tile the steps from the first on.
-/

namespace AmmRollup

/-! ## Nodes at work

A node proves steps, joins proofs and runs the proposer, in any order.  What its runs have
settled is read off the marks, as windows of indexes.
-/

/-- A node at work: its chain of proofs and its files. -/
structure Node where
  chain : ProofChain
  files : FileSystem

namespace Node

/-- What a node does next. -/
inductive Call where
  /-- Proves a step on top of the last proof. -/
  | push (t : Transition)
  /-- Joins the pending proofs, with any checker of the signatures of users. -/
  | mergePending (signatures : SignatureChecker)
  /-- Runs the proposer. -/
  | propose

/-- The store of a node. -/
def store (c : Config) : ProofStore FileProgram := ProofStore.files c.proofsDir

/-- A new node: its chain is started at the roots of four unwritten trees. -/
def start (c : Config) (signatures : SignatureChecker) (files : FileSystem) : Except Failure Node :=
  let started :=
    Runs.files.perform (ProofChain.genesis (store c) (.ofConfig c.prover signatures) .empty) files
  started.1.map (⟨·, started.2⟩)

/-- A node after one call.  A step that is refused leaves the chain where it was. -/
def called (c : Config) (node : Node) : Call → Node
  | .push t =>
      let pushed := Runs.files.perform (node.chain.push (store c) t) node.files
      ⟨pushed.1.toOption.getD node.chain, pushed.2⟩
  | .mergePending signatures =>
      let merge := Merger.mergePending (store c) (.ofConfig c.prover signatures)
      { node with files := (Runs.files.perform merge node.files).2 }
  | .propose => { node with files := (Runs.files.perform (Proposer.run c) node.files).2 }

/-- A node after several calls. -/
def after (c : Config) (node : Node) (calls : List Call) : Node := calls.foldl (called c) node

/-- The merge window of a node. -/
def window (c : Config) (node : Node) : Window :=
  (Runs.files.perform (store c).mergedWindow node.files).1.toOption.getD ⟨0, 0⟩

/-- The mark up to which a node's steps are settled. -/
def settledUntil (c : Config) (node : Node) : Nat :=
  (Runs.files.perform (store c).settledUntil node.files).1.toOption.getD 0

/-- The window that a call settled: a run settles from the start of the merge window up to
the mark that it leaves. -/
def settledBy (c : Config) (node : Node) : Call → List Window
  | .propose =>
      let settled : Window := ⟨(node.window c).start, (node.called c .propose).settledUntil c⟩
      if settled.nonempty then [settled] else []
  | _ => []

/-- The windows that calls settled, one after another. -/
def settledWindows (c : Config) : Node → List Call → List Window
  | _, [] => []
  | node, call :: calls => node.settledBy c call ++ settledWindows c (node.called c call) calls

end Node

/-- Windows that follow one another without gap or overlap, none of them empty. -/
inductive Tiles : (start : Nat) → List Window → (stop : Nat) → Prop where
  | nil (start : Nat) : Tiles start [] start
  | cons {start middle stop : Nat} {windows : List Window} (hwindow : start < middle)
      (hrest : Tiles middle windows stop) : Tiles start (⟨start, middle⟩ :: windows) stop

/-- Windows that tile one stretch and then the next tile both. -/
theorem Tiles.append {start middle stop : Nat} {windows others : List Window}
    (h : Tiles start windows middle) (hothers : Tiles middle others stop) :
    Tiles start (windows ++ others) stop := by
  induction h with
  | nil => exact hothers
  | cons hwindow _ ih => exact .cons hwindow (ih hothers)

/-! ## Signatures of users

A proposer runs with no keys of users, while a node proves with whatever checker of signatures it
has.  Joining and verifying proofs do not use it, so the two agree on everything that is stored.
-/

/-- Joining proofs checks no signatures of users. -/
theorem fold_ofConfig (c : ProverConfig) (signatures : SignatureChecker) :
    Merger.fold (.ofConfig c signatures) =
      Merger.fold (.ofConfig c KeyRegistry.empty.verify) := by
  have hprover : Prover.ofConfig c signatures =
      { Prover.ofConfig c KeyRegistry.empty.verify with signatures } := by
    unfold Prover.ofConfig
    split <;> rfl
  rw [hprover]
  funext proofs
  cases proofs <;> rfl

/-- Verifying proofs checks no signatures of users. -/
theorem linked_ofConfig (c : ProverConfig) (signatures : SignatureChecker)
    {proofs : List Proof} : (Prover.ofConfig c signatures).Linked proofs ↔
      (Prover.ofConfig c KeyRegistry.empty.verify).Linked proofs := by
  have hverify : (Prover.ofConfig c signatures).verify =
      (Prover.ofConfig c KeyRegistry.empty.verify).verify := by
    unfold Prover.ofConfig
    split <;> rfl
  exact ⟨fun h => ⟨h.chained, hverify ▸ h.verified⟩, fun h => ⟨h.chained, hverify ▸ h.verified⟩⟩

/-! ## Sound nodes

Between two calls the proofs of a node are linked, the settled roots are those after the last
settled step, and the window starts there.  The invariant says this of the shelf, and the chain
is backed by it.
-/

/-- The roots after some steps, from the first on. -/
def rootsAfter (proofs : List Proof) : StateRoots :=
  (proofs.getLast?.map (·.output)).getD .empty

/-- Linked proofs that start at the roots of unwritten trees start each step at the roots after
the steps before. -/
theorem input_eq_rootsAfter {prover : Prover} {proofs : List Proof} (h : prover.Linked proofs)
    (hfirst : proofs.head?.map (·.input) = some .empty) {i : Nat} (hi : i < proofs.length) :
    proofs[i].input = rootsAfter (proofs.take i) := by
  cases i with
  | zero =>
    obtain ⟨p, rest, rfl⟩ := List.exists_cons_of_length_pos hi
    exact Option.some.inj hfirst
  | succ i =>
    have hlink := List.isChain_iff_getElem.mp h.chained i hi
    rw [rootsAfter, List.take_succ_eq_append_getElem (Nat.lt_of_succ_lt hi), List.getLast?_concat]
    exact hlink.symm

namespace Node

variable {c : Config} {places : Places} {node : Node} {proofs : List Proof} {shelf : Shelf}
  {settlement : Settlement}

/-- What holds of a node between any two calls. -/
structure Sound (c : Config) (places : Places) (node : Node) (proofs : List Proof)
    (shelf : Shelf) (settlement : Settlement) : Prop where
  directory : Directory c places node.files shelf settlement
  prover : ∃ signatures, node.chain.prover = .ofConfig c.prover signatures
  backed : node.chain.Backed shelf proofs
  first : proofs.head?.map (·.input) = some .empty
  ordered : shelf.window.start ≤ shelf.window.stop
  reached : shelf.window.stop ≤ shelf.count
  merged : shelf.window.start < shelf.window.stop → ∃ merged, shelf.merged = .ok (some merged) ∧
    Merger.fold (Directory.prover c)
      (proofs.extract shelf.window.start shelf.window.stop) = .ok merged
  marked : shelf.settledUntil = shelf.window.start
  settled : settlement.roots = rootsAfter (proofs.take shelf.window.start)

namespace Sound

/-- The window that a node reads is the one on the shelf. -/
theorem window_eq (h : Sound c places node proofs shelf settlement) :
    node.window c = shelf.window := by
  have := (Directory.lawful c places node.files).mergedWindow h.directory.shelved_self
  rw [window, store, this]
  rfl

/-- The mark that a node reads is where the window on the shelf starts. -/
theorem settledUntil_eq (h : Sound c places node proofs shelf settlement) :
    node.settledUntil c = shelf.window.start := by
  have := (Directory.lawful c places node.files).settledUntil h.directory.shelved_self
  rw [settledUntil, store, this, ← h.marked]
  rfl

/-- The proofs of the node are linked, under the prover that a proposer runs with. -/
theorem linked (h : Sound c places node proofs shelf settlement) :
    (Directory.prover c).Linked proofs := by
  obtain ⟨signatures, hsignatures⟩ := h.prover
  exact (linked_ofConfig c.prover signatures).mp (hsignatures ▸ h.backed.linked)

/-- All proofs from the start of the window on are pending. -/
theorem pending (h : Sound c places node proofs shelf settlement) :
    Merger.Pending (Directory.prover c) shelf (proofs.drop shelf.window.start) :=
  Merger.pending_drop h.backed.count h.backed.proof h.ordered h.reached h.merged

/-- The pending proofs join to one that leads from the settled roots to those after the last
step. -/
theorem joins (h : Sound c places node proofs shelf settlement)
    (hwindow : shelf.window.start < shelf.count) :
    ∃ joined, Merger.fold (Directory.prover c) (proofs.drop shelf.window.start) = .ok joined ∧
      (Directory.prover c).verify joined = true ∧ joined.input = settlement.roots ∧
      joined.output = node.chain.last.output := by
  have hstart : shelf.window.start < proofs.length := h.backed.count ▸ hwindow
  obtain ⟨joined, hfold, hverify, hinput, houtput⟩ :=
    Merger.exists_fold_drop h.linked hstart h.backed.last
  refine ⟨joined, hfold, hverify, ?_, houtput⟩
  rw [hinput, h.settled, input_eq_rootsAfter h.linked h.first hstart]

/-! ## Calls

Each call keeps a node sound, and a run settles from the start of the window to the last proof.
So the windows of successive runs meet, by induction on the calls.
-/

/-- A run settles all proofs, or finds nothing to settle and changes nothing. -/
theorem propose (h : Sound c places node proofs shelf settlement) :
    ∃ files, Runs.files.perform (Proposer.run c) node.files = (.ok (), files) ∧
      (shelf.window.start < shelf.count →
        ∃ next, Directory c places files shelf.closed next ∧
          AllSettled shelf.closed next node.chain.last) ∧
      (shelf.count ≤ shelf.window.start → files = node.files) := by
  rcases Nat.lt_or_ge shelf.window.start shelf.count with hwindow | hcount
  · obtain ⟨joined, hjoined, hverify, hinput, houtput⟩ := h.joins hwindow
    obtain ⟨files, hrun, hclosed, -⟩ :=
      h.directory.perform_run_pending h.pending hjoined hverify
    refine ⟨files, hrun, fun _ => ?_, fun hcount => absurd hwindow (Nat.not_lt.mpr hcount)⟩
    obtain ⟨next, hnext, hroots⟩ := hclosed (.inl hinput.symm)
    exact ⟨next, hnext, hroots.trans houtput, rfl, rfl⟩
  · exact ⟨node.files, h.directory.perform_run_idle hcount,
      fun hwindow => absurd hwindow (Nat.not_lt.mpr hcount), fun _ => rfl⟩

/-- There is always the proof of genesis. -/
theorem proofs_ne_nil (h : Sound c places node proofs shelf settlement) : proofs ≠ [] := by
  rintro rfl
  exact absurd h.first (by simp)

/-- The window lies within the proofs there are. -/
theorem window_le (h : Sound c places node proofs shelf settlement) :
    shelf.window.start ≤ proofs.length ∧ shelf.window.stop ≤ proofs.length := by
  have hreached := h.backed.count ▸ h.reached
  exact ⟨Nat.le_trans h.ordered hreached, hreached⟩

/-- A step that is refused changes nothing, and one that is proven leaves the window alone. -/
theorem push (h : Sound c places node proofs shelf settlement)
    (hroom : proofs.length + 1 < 1 <<< 64) (t : Transition) :
    ∃ proofs' shelf', Sound c places (node.called c (.push t)) proofs' shelf' settlement ∧
      proofs'.length ≤ proofs.length + 1 ∧ shelf'.window = shelf.window := by
  have hlawful := Directory.lawful c places node.files
  rcases ProofChain.perform_push hlawful (Prover.length_payload_certify _)
    h.directory.shelved_self h.backed (Nat.lt_of_succ_lt hroom) hroom t with
    ⟨p, files, hpush, hfiles, hbacked⟩ | ⟨e, hpush⟩
  · obtain ⟨hstart, hstop⟩ := h.window_le
    -- the window lies among the proofs before, so a new one does not change what it merges
    have hextract : (proofs ++ [p]).extract shelf.window.start shelf.window.stop =
        proofs.extract shelf.window.start shelf.window.stop := by
      rw [List.extract_eq_take_drop, ← List.drop_take, List.take_append_of_le_length hstop,
        List.drop_take, List.extract_eq_take_drop]
    have hcalled : node.called c (.push t) =
        ⟨{ node.chain with last := p, nextIndex := node.chain.nextIndex + 1 }, files⟩ := by
      rw [called, store, hpush]
      rfl
    rw [hcalled]
    refine ⟨proofs ++ [p], shelf.put proofs.length p, ?_, by simp, rfl⟩
    exact {
      directory := h.directory.of_kept hfiles.1 hfiles.2
      prover := h.prover
      backed := hbacked
      first := by
        rw [List.head?_append_of_ne_nil _ h.proofs_ne_nil]
        exact h.first
      ordered := h.ordered
      reached := Nat.le_trans h.reached (Nat.le_max_left ..)
      merged := fun hwindow => by
        obtain ⟨merged, hslot, hfold⟩ := h.merged hwindow
        exact ⟨merged, hslot, (congrArg _ hextract).trans hfold⟩
      marked := h.marked
      settled := by
        show _ = rootsAfter ((proofs ++ [p]).take shelf.window.start)
        rw [List.take_append_of_le_length hstart]
        exact h.settled }
  · have hcalled : node.called c (.push t) = node := by
      rw [called, store, hpush]
      rfl
    rw [hcalled]
    exact ⟨proofs, shelf, h, Nat.le_succ _, rfl⟩

/-- Merging keeps a node sound, whether something is pending or not, and settles nothing. -/
theorem mergePending (h : Sound c places node proofs shelf settlement)
    (signatures : SignatureChecker) :
    ∃ shelf', Sound c places (node.called c (.mergePending signatures)) proofs shelf' settlement ∧
      shelf'.window.start = shelf.window.start := by
  have hlawful := Directory.lawful c places node.files
  rcases Nat.lt_or_ge shelf.window.start shelf.count with hwindow | hcount
  · obtain ⟨joined, hjoined, -⟩ := h.joins hwindow
    -- who checks the signatures of users does not matter for merging
    have hpending : Merger.Pending (.ofConfig c.prover signatures) shelf
        (proofs.drop shelf.window.start) :=
      { h.pending with merged := fold_ofConfig c.prover signatures ▸ h.pending.merged }
    obtain ⟨files, hmerge, hfiles⟩ := Merger.perform_mergePending hlawful
      (Prover.length_payload_certify _)
      (fun i hi => Nat.lt_of_le_of_lt hi h.directory.shelved.fits.1) h.directory.shelved_self
      hpending (by rw [fold_ofConfig]; exact hjoined)
    have hcalled : node.called c (.mergePending signatures) = { node with files } := by
      rw [called, store, hmerge]
    rw [hcalled]
    refine ⟨shelf.putMerged joined shelf.count, ?_, rfl⟩
    exact {
      directory := h.directory.of_kept hfiles.1 hfiles.2
      prover := h.prover
      backed := h.backed.of_shelf rfl rfl
      first := h.first
      ordered := Nat.le_of_lt hwindow
      reached := Nat.le_refl _
      merged := fun _ => ⟨joined, rfl, by
        show Merger.fold _ (proofs.extract shelf.window.start shelf.count) = _
        rw [List.extract_eq_take_drop, List.take_of_length_le (by simp [h.backed.count])]
        exact hjoined⟩
      marked := h.marked
      settled := h.settled }
  · have hcalled : node.called c (.mergePending signatures) = node := by
      rw [called, store, Merger.perform_mergePending_none hlawful h.directory.shelved_self hcount]
    rw [hcalled]
    exact ⟨shelf, h, rfl⟩

/-- After a run the window starts behind the last proof. -/
theorem proposed (h : Sound c places node proofs shelf settlement) :
    ∃ shelf' next, Sound c places (node.called c .propose) proofs shelf' next ∧
      shelf.window.start ≤ shelf'.window.start := by
  obtain ⟨files, hrun, hsettled, hidle⟩ := h.propose
  have hcalled : node.called c .propose = { node with files } := by rw [called, hrun]
  rw [hcalled]
  rcases Nat.lt_or_ge shelf.window.start shelf.count with hwindow | hcount
  · obtain ⟨next, hnext, hall⟩ := hsettled hwindow
    -- everything that was pending is settled, and the window is empty again
    refine ⟨shelf.closed, next, ?_, Nat.le_of_lt hwindow⟩
    exact {
      directory := hnext
      prover := h.prover
      backed := h.backed.of_shelf rfl rfl
      first := h.first
      ordered := Nat.le_refl _
      reached := Nat.le_refl _
      merged := fun hwindow => absurd hwindow (Nat.lt_irrefl _)
      marked := rfl
      settled := by
        show _ = rootsAfter (proofs.take shelf.count)
        rw [hall.roots, h.backed.count, List.take_length, rootsAfter, h.backed.last]
        rfl }
  · exact ⟨shelf, settlement, hidle hcount ▸ h, Nat.le_refl _⟩

/-- The window that a run settled lies between the starts of the windows before and after. -/
theorem tiles_settledBy_propose (h : Sound c places node proofs shelf settlement)
    {shelf' : Shelf} {next : Settlement}
    (h' : Sound c places (node.called c .propose) proofs shelf' next)
    (hle : shelf.window.start ≤ shelf'.window.start) :
    Tiles shelf.window.start (node.settledBy c .propose) shelf'.window.start := by
  unfold settledBy
  rw [h.window_eq, h'.settledUntil_eq]
  by_cases hwindow : shelf.window.start < shelf'.window.start
  · rw [if_pos (by simpa [Window.nonempty] using hwindow)]
    exact .cons hwindow (.nil _)
  · rw [if_neg (by simpa [Window.nonempty] using hwindow),
      Nat.le_antisymm hle (Nat.not_lt.mp hwindow)]
    exact .nil _

/-- A sound node stays sound, and what a call settles starts where the window does. -/
theorem called (h : Sound c places node proofs shelf settlement)
    (hroom : proofs.length + 1 < 1 <<< 64) (call : Call) :
    ∃ proofs' shelf' settlement',
      Sound c places (node.called c call) proofs' shelf' settlement' ∧
        proofs'.length ≤ proofs.length + 1 ∧
        Tiles shelf.window.start (node.settledBy c call) shelf'.window.start := by
  cases call with
  | push t =>
    obtain ⟨proofs', shelf', h', hlength, hwindow⟩ := h.push hroom t
    exact ⟨proofs', shelf', settlement, h', hlength, hwindow ▸ .nil _⟩
  | mergePending signatures =>
    obtain ⟨shelf', h', hstart⟩ := h.mergePending signatures
    exact ⟨proofs, shelf', settlement, h', Nat.le_succ _, hstart ▸ .nil _⟩
  | propose =>
    obtain ⟨shelf', next, h', hle⟩ := h.proposed
    exact ⟨proofs, shelf', next, h', Nat.le_succ _, h.tiles_settledBy_propose h' hle⟩

end Sound

/-- A sound node stays sound through any calls, and the windows that they settle tile the
steps up to the next window. -/
theorem Sound.after (h : Sound c places node proofs shelf settlement) (calls : List Call)
    (hroom : proofs.length + calls.length < 1 <<< 64) :
    ∃ proofs' shelf' settlement',
      Sound c places (node.after c calls) proofs' shelf' settlement' ∧
        Tiles shelf.window.start (node.settledWindows c calls) shelf'.window.start := by
  induction calls generalizing node proofs shelf settlement with
  | nil => exact ⟨proofs, shelf, settlement, h, .nil _⟩
  | cons call calls ih =>
    rw [List.length_cons] at hroom
    obtain ⟨proofs', shelf', settlement', h', hlength, htiles⟩ := h.called (by omega) call
    obtain ⟨proofs'', shelf'', settlement'', h'', htiles'⟩ := ih h' (by omega)
    exact ⟨proofs'', shelf'', settlement'', h'', htiles.append htiles'⟩

/-- A new node is sound, and holds one proof. -/
theorem sound_start {files : FileSystem} (h : Directory c places files .empty .initial)
    (signatures : SignatureChecker) :
    ∃ node proof, start c signatures files = .ok node ∧
      Sound c places node [proof] (Shelf.empty.put 0 proof) .initial := by
  obtain ⟨t, hgenesis, ht, hbacked⟩ := ProofChain.perform_genesis
    (Directory.lawful c places files)
    (Prover.length_payload_certify (.ofConfig c.prover signatures))
    (by decide) (by decide) h.shelved_self rfl .empty
  let proof := (Prover.ofConfig c.prover signatures).certify .genesis .empty .empty
  refine ⟨⟨⟨.ofConfig c.prover signatures, proof, 1⟩, t⟩, proof, ?_, ?_⟩
  · rw [start, store, hgenesis]
    rfl
  · exact {
      directory := h.of_kept ht.1 ht.2
      prover := ⟨signatures, rfl⟩
      backed := hbacked
      first := rfl
      ordered := Nat.le_refl _
      reached := Nat.zero_le _
      merged := fun hwindow => absurd hwindow (Nat.lt_irrefl _)
      marked := rfl
      settled := rfl }

/-! ## The main result -/

/-- A node starts a chain in a new directory and then proves steps, joins proofs and runs the
proposer in any order, fewer times than there are indexes.  Whatever it did, a run of the
proposer now succeeds: it settles all proofs and opens an empty window behind them when there
is any proof past the start of the merge window, and changes nothing when there is none.  The
windows settled so far tile the steps up to the start of the merge window, which is the mark
of settlement. -/
theorem settles_every_window {files : FileSystem} (h : Directory c places files .empty .initial)
    (signatures : SignatureChecker) (calls : List Call) (hroom : calls.length + 1 < 1 <<< 64) :
    ∃ node, start c signatures files = .ok node ∧ ∃ shelf settlement,
      Directory c places (node.after c calls).files shelf settlement ∧
      shelf.settledUntil = shelf.window.start ∧
      Tiles 0 (node.settledWindows c calls) shelf.window.start ∧
      ∃ files', Runs.files.perform (Proposer.run c) (node.after c calls).files = (.ok (), files') ∧
        (shelf.window.start < shelf.count →
          ∃ last next, shelf.proof (shelf.count - 1) = .ok last ∧
            Directory c places files' shelf.closed next ∧ AllSettled shelf.closed next last) ∧
        (shelf.count ≤ shelf.window.start → files' = (node.after c calls).files) := by
  obtain ⟨node, proof, hstart, hsound⟩ := sound_start h signatures
  obtain ⟨proofs, shelf, settlement, hafter, htiles⟩ :=
    hsound.after calls (by rw [List.length_singleton]; omega)
  obtain ⟨files', hrun, hsettled, hidle⟩ := hafter.propose
  refine ⟨node, hstart, shelf, settlement, hafter.directory, hafter.marked, htiles, files', hrun,
    fun hwindow => ?_, hidle⟩
  obtain ⟨next, hnext, hall⟩ := hsettled hwindow
  exact ⟨(node.after c calls).chain.last, next, hafter.backed.proof_last, hnext, hall⟩

/-- The calls of a node that settles genesis, proves a step on it, and joins the two. -/
def firstCalls : List Call := [.propose, .push .genesis, .mergePending KeyRegistry.empty.verify]

/-- A new node that makes these calls can settle again. -/
theorem settles_every_window_fresh :
    ∃ node, start .default KeyRegistry.empty.verify .fresh = .ok node ∧ ∃ shelf settlement,
      Directory .default .default (node.after .default firstCalls).files shelf settlement ∧
      ∃ files', Runs.files.perform (Proposer.run .default) (node.after .default firstCalls).files =
        (.ok (), files') := by
  obtain ⟨node, hstart, shelf, settlement, h, -, -, files', hrun, -⟩ :=
    settles_every_window Directory.fresh KeyRegistry.empty.verify firstCalls (by decide)
  exact ⟨node, hstart, shelf, settlement, h, files', hrun⟩

end Node

end AmmRollup
