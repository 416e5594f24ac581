import AmmRollup.Store.Cursors
import AmmRollup.Store.Memory

/-!
# AmmRollup.Proofs.Store.Shelf

What a proof store is worth relying on for.  A `Shelf` says what a store would answer to
every question: the proof of each step, the merged proof, and the cursors.  A store is
lawful when its answers are those of a shelf and its changes are changes of the shelf,
whatever else there is to the states that it lives in.

Programs of different stores run on different states, so how a program runs is a
parameter (`Runs`).  The store in memory is lawful.
-/

namespace AmmRollup

variable {m : Type → Type} [Monad m] {σ α β ε ε' : Type}

/-! ## Running programs

A store is written over a monad, so that one program serves the store in memory and the one in a
folder.  `Runs` says how programs of the monad are run, and `perform` runs one that may fail.
-/

/-- A way to carry out the programs of a monad on states, one after another. -/
structure Runs (m : Type → Type) [Monad m] (σ : Type) where
  run {α : Type} : m α → σ → α × σ
  run_pure {α : Type} (a : α) (s : σ) : run (pure a) s = (a, s)
  run_bind {α β : Type} (x : m α) (f : α → m β) (s : σ) :
    run (x >>= f) s = run (f (run x s).1) (run x s).2

namespace Runs

/-- Carries out a program that may fail. -/
def perform (r : Runs m σ) (x : ExceptT ε m α) (s : σ) : Except ε α × σ := r.run x.run s

variable (r : Runs m σ) {s t : σ}

/-- A program that returns a result answers with it. -/
@[simp] theorem perform_pure (a : α) : r.perform (pure a : ExceptT ε m α) s = (.ok a, s) :=
  r.run_pure (Except.ok a) s

/-- A program that fails answers with its error. -/
@[simp] theorem perform_throw (e : ε) : r.perform (throw e : ExceptT ε m α) s = (.error e, s) :=
  r.run_pure (Except.error e) s

/-- A program that succeeds leaves its result and its state to the next. -/
theorem perform_bind_ok {x : ExceptT ε m α} {f : α → ExceptT ε m β} {a : α}
    (h : r.perform x s = (.ok a, t)) : r.perform (x >>= f) s = r.perform (f a) t := by
  refine (r.run_bind x.run _ s).trans ?_
  rw [show r.run x.run s = (.ok a, t) from h]
  rfl

/-- A program that fails is the last to run. -/
theorem perform_bind_error {x : ExceptT ε m α} {f : α → ExceptT ε m β} {e : ε}
    (h : r.perform x s = (.error e, t)) : r.perform (x >>= f) s = (.error e, t) := by
  refine (r.run_bind x.run _ s).trans ?_
  rw [show r.run x.run s = (.error e, t) from h]
  exact r.run_pure (Except.error e) t

/-- Passing failures on under another name changes nothing else. -/
theorem perform_adapt [LawfulMonad m] (f : ε → ε') (x : ExceptT ε m α) :
    r.perform (x.adapt f) s = ((r.perform x s).1.mapError f, (r.perform x s).2) := by
  show r.run (Except.mapError f <$> x.run) s = _
  rw [← bind_pure_comp, r.run_bind]
  exact r.run_pure ((r.perform x s).1.mapError f) (r.perform x s).2

/-- A result is the same whatever an error would be called. -/
theorem perform_adapt_ok [LawfulMonad m] {f : ε → ε'} {x : ExceptT ε m α} {a : α}
    (h : r.perform x s = (.ok a, t)) : r.perform (x.adapt f) s = (.ok a, t) := by
  rw [perform_adapt, h]
  rfl

/-- A result that is already there comes without a change. -/
@[simp] theorem perform_ofExcept (x : Except ε α) :
    r.perform (ofExcept x : ExceptT ε m α) s = (x, s) := by
  cases x with
  | error e => exact r.perform_throw e
  | ok a => exact r.perform_pure a

/-- Programs over states run on them. -/
def state (σ : Type) : Runs (StateM σ) σ where
  run x s := x s
  run_pure _ _ := rfl
  run_bind _ _ _ := rfl

end Runs

/-! ## Shelves

What a store holds, apart from how: proofs by their indexes, a merged proof with its window, and
the marks.
-/

/-- What a store would answer: the proof of each step, the merged proof whatever its
window, and the cursors. -/
structure Shelf where
  proof : Nat → Except StoreError Proof
  merged : Except StoreError (Option Proof)
  cursors : Cursors

namespace Shelf

/-- The shelf of an empty store. -/
def empty : Shelf where
  proof i := .error (.notFound i)
  merged := .ok none
  cursors := .zero

/-- The number of counted steps. -/
def count (shelf : Shelf) : Nat := shelf.cursors.proofCount

/-- The steps that the merged proof stands for. -/
def window (shelf : Shelf) : Window := shelf.cursors.window

/-- The steps below are settled. -/
def settledUntil (shelf : Shelf) : Nat := shelf.cursors.settledUntil

/-- Keeps the proof of a step, and counts it. -/
def put (shelf : Shelf) (index : Nat) (proof : Proof) : Shelf where
  proof i := if i = index then .ok proof else shelf.proof i
  merged := shelf.merged
  cursors := { shelf.cursors with proofCount := max shelf.cursors.proofCount (index + 1) }

/-- The merged proof, while its window holds any step. -/
def getMerged (shelf : Shelf) : Except StoreError (Option Proof) :=
  if shelf.window.nonempty then shelf.merged else .ok none

/-- Without a window there is no merged proof, whatever is kept as one. -/
theorem getMerged_of_empty (shelf : Shelf) (h : shelf.window.stop = shelf.window.start) :
    shelf.getMerged = .ok none :=
  if_neg (by simp [Window.nonempty, h])

/-- With a window the merged proof is the one that is kept. -/
theorem getMerged_of_lt (shelf : Shelf) (h : shelf.window.start < shelf.window.stop) :
    shelf.getMerged = shelf.merged :=
  if_pos (by simpa [Window.nonempty] using h)

/-- Keeps a merged proof that reaches up to `stop`. -/
def putMerged (shelf : Shelf) (proof : Proof) (stop : Nat) : Shelf where
  proof := shelf.proof
  merged := .ok (some proof)
  cursors := { shelf.cursors with window := { shelf.window with stop } }

/-- Drops the merged proof and opens an empty window at a step. -/
def startMerge (shelf : Shelf) (start : Nat) : Shelf where
  proof := shelf.proof
  merged := .ok none
  cursors := { shelf.cursors with window := ⟨start, start⟩ }

/-- Marks the steps below `stop` as settled. -/
def setSettledUntil (shelf : Shelf) (stop : Nat) : Shelf where
  proof := shelf.proof
  merged := shelf.merged
  cursors := { shelf.cursors with settledUntil := stop }

end Shelf

/-! ## Lawful stores

A lawful store answers as its shelf does.  Results about the merger and the proposer are proved
for any lawful store, and hold for both.
-/

/-- A store that answers as a shelf does and changes as a shelf does.  It may be limited to
some indexes and proofs, and reading never changes its state. -/
structure ProofStore.Lawful (store : ProofStore m) (r : Runs m σ) (shelved : σ → Shelf → Prop)
    (index : Nat → Prop) (storable : Proof → Prop) : Prop where
  storable_of_proof {s : σ} {shelf : Shelf} (h : shelved s shelf) {i : Nat} (hi : index i)
      {p : Proof} (hp : shelf.proof i = .ok p) : storable p
  get {s : σ} {shelf : Shelf} (h : shelved s shelf) {i : Nat} (hi : index i) :
    r.perform (store.get i) s = (shelf.proof i, s)
  put {s : σ} {shelf : Shelf} (h : shelved s shelf) {i : Nat} (hi : index i)
      (hnext : index (i + 1)) {p : Proof} (hp : storable p) :
    ∃ t, r.perform (store.put i p) s = (.ok (), t) ∧ shelved t (shelf.put i p)
  getMerged {s : σ} {shelf : Shelf} (h : shelved s shelf) :
    r.perform store.getMerged s = (shelf.getMerged, s)
  putMerged {s : σ} {shelf : Shelf} (h : shelved s shelf) {p : Proof} (hp : storable p)
      {stop : Nat} (hstop : index stop) (hwindow : shelf.window.start < stop) :
    ∃ t, r.perform (store.putMerged p stop) s = (.ok (), t) ∧ shelved t (shelf.putMerged p stop)
  putMerged_refused {s : σ} {shelf : Shelf} (h : shelved s shelf) (p : Proof) {stop : Nat}
      (hwindow : stop ≤ shelf.window.start) :
    r.perform (store.putMerged p stop) s =
      (.error (.window shelf.window.start shelf.window.stop stop), s)
  startMerge {s : σ} {shelf : Shelf} (h : shelved s shelf) {start : Nat} (hstart : index start) :
    ∃ t, r.perform (store.startMerge start) s = (.ok (), t) ∧ shelved t (shelf.startMerge start)
  proofCount {s : σ} {shelf : Shelf} (h : shelved s shelf) :
    r.perform store.proofCount s = (.ok shelf.count, s)
  mergedWindow {s : σ} {shelf : Shelf} (h : shelved s shelf) :
    r.perform store.mergedWindow s = (.ok shelf.window, s)
  settledUntil {s : σ} {shelf : Shelf} (h : shelved s shelf) :
    r.perform store.settledUntil s = (.ok shelf.settledUntil, s)
  setSettledUntil {s : σ} {shelf : Shelf} (h : shelved s shelf) {stop : Nat}
      (hstop : index stop) :
    ∃ t, r.perform (store.setSettledUntil stop) s = (.ok (), t) ∧
      shelved t (shelf.setSettledUntil stop)

/-! ## The store in memory

The store in memory keeps its proofs in a map, and counts them by the highest index among them.
-/

namespace MemoryStore

/-- The shelf that a store in memory stands for. -/
def shelf (s : MemoryStore) : Shelf where
  proof := s.get
  merged := .ok s.merged
  cursors := ⟨s.proofCount, s.window, s.settledUntil⟩

/-- Removing a step that counts anyway does not change the count. -/
private theorem max_foldr_filter (entries : List (Nat × Proof)) (index : Nat) :
    max (index + 1) ((entries.filter fun e => e.1 ≠ index).foldr
        (fun entry count => max (entry.1 + 1) count) 0) =
      max (index + 1) (entries.foldr (fun entry count => max (entry.1 + 1) count) 0) := by
  induction entries with
  | nil => rfl
  | cons e entries ih =>
    by_cases he : e.1 = index
    · rw [List.filter_cons_of_neg (by simpa using he), ih, List.foldr_cons, he]
      omega
    · rw [List.filter_cons_of_pos (by simpa using he), List.foldr_cons, List.foldr_cons]
      omega

/-- The store in memory keeps a proof as the shelf does. -/
theorem shelf_put (s : MemoryStore) (index : Nat) (p : Proof) :
    (s.put index p).shelf = s.shelf.put index p := by
  have hproof : (s.put index p).get = fun i => if i = index then .ok p else s.get i := by
    funext i
    unfold get put
    rw [FinMap.get?_insert]
    by_cases hi : i = index <;> simp [hi]
  have hcount : (s.put index p).proofCount = max s.proofCount (index + 1) := by
    rw [Nat.max_comm]
    exact max_foldr_filter s.proofs.entries index
  show (⟨_, _, _⟩ : Shelf) = _
  rw [hproof, hcount]
  rfl

end MemoryStore

/-- The store in memory is lawful, for all proofs and all natural numbers as indexes.  It counts
them without a bound; words would do the same below `2 ^ 64 - 1`. -/
theorem ProofStore.memory_lawful :
    ProofStore.memory.Lawful (.state MemoryStore) (fun s shelf => s.shelf = shelf)
      (fun _ => True) (fun _ => True) := by
  have hget (s : MemoryStore) : (Runs.state MemoryStore).perform
      (getThe MemoryStore : ExceptT StoreError (StateM MemoryStore) MemoryStore) s =
        (.ok s, s) := rfl
  refine ⟨fun _ _ _ _ _ => trivial, ?get, ?put, ?getMerged, ?putMerged, ?putMerged_refused,
    ?startMerge, ?proofCount, ?mergedWindow, ?settledUntil, ?setSettledUntil⟩
  case get =>
    rintro s _ rfl i -
    exact (Runs.perform_bind_ok _ (hget s)).trans (Runs.perform_ofExcept ..)
  case put =>
    rintro s _ rfl i - - p -
    exact ⟨s.put i p, rfl, s.shelf_put i p⟩
  case getMerged =>
    rintro s _ rfl
    show (Except.ok s.getMerged, s) = (s.shelf.getMerged, s)
    unfold MemoryStore.getMerged Shelf.getMerged
    show (Except.ok (if s.window.nonempty then s.merged else none), s) =
      (if s.window.nonempty then .ok s.merged else .ok none, s)
    split <;> rfl
  -- the check of the window is the same one that a folder makes
  case putMerged =>
    rintro s _ rfl p - stop - hwindow
    replace hwindow : s.window.start < stop := hwindow
    have hput : s.putMerged p stop =
        .ok { s with merged := some p, window := { s.window with stop } } := by
      rw [MemoryStore.putMerged, Window.checkStop, if_neg (Nat.not_le.mpr hwindow)]
      rfl
    refine ⟨{ s with merged := some p, window := { s.window with stop } }, ?_, rfl⟩
    refine (Runs.perform_bind_ok _ (hget s)).trans ?_
    rw [hput]
    rfl
  case putMerged_refused =>
    rintro s _ rfl p stop hwindow
    replace hwindow : stop ≤ s.window.start := hwindow
    have hput : s.putMerged p stop = .error (.window s.window.start s.window.stop stop) := by
      rw [MemoryStore.putMerged, Window.checkStop, if_pos hwindow]
      rfl
    refine (Runs.perform_bind_ok _ (hget s)).trans ?_
    rw [hput]
    rfl
  case startMerge =>
    rintro s _ rfl start -
    exact ⟨s.startMerge start, rfl, rfl⟩
  case proofCount | mergedWindow | settledUntil =>
    rintro s _ rfl
    rfl
  case setSettledUntil =>
    rintro s _ rfl stop -
    exact ⟨{ s with settledUntil := stop }, rfl, rfl⟩

end AmmRollup
