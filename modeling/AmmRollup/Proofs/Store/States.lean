import AmmRollup.Proofs.Store.File

/-!
# AmmRollup.Proofs.Store.States

The states that a program over files passes through.  Every step of a program is
indivisible, so a program that is stopped leaves one of them.  Programs that only read
pass through one state (`ReadsOnly.mem_states_iff`), and keeping a merged proof passes
through one in which its file is new and that of the cursors is not
(`mem_states_putMerged`).
-/

namespace AmmRollup

/-! ## Programs

A program can be stopped before or after any of its commands.  The states that it passes through
are those that it can be found in afterwards.
-/

namespace FileProgram

variable {α β : Type} {p : FileProgram α} {f : α → FileProgram β} {s t : FileSystem}

/-- The states that a program passes through: one that is stopped leaves one of them. -/
def states : FileProgram α → FileSystem → List FileSystem
  | done _, s => [s]
  | read path next, s => s :: (next (s.read path)).states s
  | replace path temporary contents next, s =>
      s :: (next (s.replace path temporary contents).1).states
        (s.replace path temporary contents).2
  | remove path next, s => s :: (next (s.remove path).1).states (s.remove path).2
  | makeFolder path next, s => s :: (next (s.makeFolder path).1).states (s.makeFolder path).2

/-- A program may be stopped before its first command. -/
theorem start_mem_states (p : FileProgram α) (s : FileSystem) : s ∈ p.states s := by
  cases p <;> simp [states]

/-- A program may be stopped after its last command. -/
theorem end_mem_states (p : FileProgram α) (s : FileSystem) : (p.run s).2 ∈ p.states s := by
  induction p generalizing s with
  | done a => simp [states, run]
  | read path next ih => exact .tail _ (ih ..)
  | replace path temporary contents next ih => exact .tail _ (ih ..)
  | remove path next ih => exact .tail _ (ih ..)
  | makeFolder path next ih => exact .tail _ (ih ..)

/-- One program after the other passes through the states of both. -/
theorem mem_states_andThen :
    t ∈ (p.andThen f).states s ↔ t ∈ p.states s ∨ t ∈ (f (p.run s).1).states (p.run s).2 := by
  induction p generalizing s with
  | done a =>
    have hstart := start_mem_states (f a) s
    simp only [andThen, states, run, List.mem_singleton]
    grind
  | read path next ih => simp [andThen, states, run, ih, or_assoc]
  | replace path temporary contents next ih => simp [andThen, states, run, ih, or_assoc]
  | remove path next ih => simp [andThen, states, run, ih, or_assoc]
  | makeFolder path next ih => simp [andThen, states, run, ih, or_assoc]

/-- Programs that change no file. -/
inductive ReadsOnly : FileProgram α → Prop where
  | done (result : α) : ReadsOnly (.done result)
  | read {path : String} {next : Except FileFault Bytes → FileProgram α}
      (h : ∀ answer, ReadsOnly (next answer)) : ReadsOnly (.read path next)

/-- Programs that only read may follow each other. -/
theorem ReadsOnly.andThen (h : p.ReadsOnly) (hf : ∀ a, (f a).ReadsOnly) :
    (p.andThen f).ReadsOnly := by
  induction h with
  | done a => exact hf a
  | read _ ih => exact .read ih

/-- A program that only reads passes through one state only. -/
theorem ReadsOnly.mem_states_iff (h : p.ReadsOnly) : t ∈ p.states s ↔ t = s := by
  induction h with
  | done a => simp [states]
  | read _ ih => simp [states, ih]

end FileProgram

namespace FileStore

open FileProgram

variable {ε ε' α β : Type} {folder : String} {base : PathParts} {s t u : FileSystem}
  {shelf : Shelf}

/-- What is passed through by a program that may fail, and by another that goes on after it. -/
theorem mem_states_bind {x : ExceptT ε FileProgram α} {f : α → ExceptT ε FileProgram β} :
    t ∈ (x >>= f).run.states s ↔ t ∈ x.run.states s ∨
      ∃ a u, Runs.files.perform x s = (.ok a, u) ∧ t ∈ (f a).run.states u := by
  have hend : (Runs.files.perform x s).2 ∈ x.run.states s := end_mem_states x.run s
  refine mem_states_andThen.trans ?_
  cases hx : Runs.files.perform x s with
  | mk result u =>
    rw [hx] at hend
    rw [show FileProgram.run (x : FileProgram (Except ε α)) s = (result, u) from hx]
    -- an error ends the program where it arose, and the second part has no states
    cases result with
    | error e =>
      show t ∈ x.run.states s ∨ t ∈ (FileProgram.done (Except.error e : Except ε β)).states u ↔ _
      simp only [states, List.mem_singleton]
      grind
    | ok a =>
      show t ∈ x.run.states s ∨ t ∈ (f a).run.states u ↔ _
      simp

/-- The states of a sequence, where what the first part gives is known. -/
theorem mem_states_bind_ok {x : ExceptT ε FileProgram α} {f : α → ExceptT ε FileProgram β} {a : α}
    (hx : Runs.files.perform x s = (.ok a, u)) :
    t ∈ (x >>= f).run.states s ↔ t ∈ x.run.states s ∨ t ∈ (f a).run.states u := by
  rw [mem_states_bind, hx]
  simp

/-- What an error is called makes no difference to files. -/
theorem mem_states_adapt {x : ExceptT ε FileProgram α} {f : ε → ε'} :
    t ∈ (x.adapt f).run.states s ↔ t ∈ x.run.states s := by
  have hend := end_mem_states x.run s
  refine (mem_states_andThen (p := x.run) (f := fun a => .done (a.mapError f))).trans ?_
  simp only [states, List.mem_singleton]
  grind

/-! ### Reading

Most of what a program does is reading, which passes through no other state.  So only what is
replaced needs to be looked at.
-/

theorem readsOnly_pure (a : α) : (pure a : ExceptT ε FileProgram α).run.ReadsOnly := .done _

theorem readsOnly_throw (e : ε) : (throw e : ExceptT ε FileProgram α).run.ReadsOnly := .done _

/-- Reading in sequence is reading. -/
theorem readsOnly_bind {x : ExceptT ε FileProgram α} {f : α → ExceptT ε FileProgram β}
    (hx : x.run.ReadsOnly) (hf : ∀ a, (f a).run.ReadsOnly) : (x >>= f).run.ReadsOnly := by
  refine ReadsOnly.andThen hx fun result => ?_
  cases result with
  | error e => exact .done _
  | ok a => exact hf a

/-- A result that was computed beside the files is read from nowhere. -/
theorem readsOnly_ofExcept (x : Except ε α) :
    (ofExcept x : ExceptT ε FileProgram α).run.ReadsOnly := by
  cases x with
  | error e => exact readsOnly_throw e
  | ok a => exact readsOnly_pure a

/-- A program that only reads still does with its errors renamed. -/
theorem readsOnly_adapt {x : ExceptT ε FileProgram α} (hx : x.run.ReadsOnly) (f : ε → ε') :
    (x.adapt f).run.ReadsOnly :=
  ReadsOnly.andThen hx fun _ => .done _

/-- After a program that only reads, another goes on from the same state. -/
theorem mem_states_bind_reads {x : ExceptT ε FileProgram α} {f : α → ExceptT ε FileProgram β}
    (hx : x.run.ReadsOnly) : t ∈ (x >>= f).run.states s ↔
      t = s ∨ ∃ a, Runs.files.perform x s = (.ok a, s) ∧ t ∈ (f a).run.states s := by
  have hend : (Runs.files.perform x s).2 = s := hx.mem_states_iff.mp (end_mem_states x.run s)
  rw [mem_states_bind, hx.mem_states_iff]
  refine or_congr_right (exists_congr fun a => ⟨?_, fun h => ⟨s, h⟩⟩)
  rintro ⟨u, hperform, ht⟩
  obtain rfl : u = s := (congrArg Prod.snd hperform).symm.trans hend
  exact ⟨hperform, ht⟩

/-- Nothing is written after a result has been computed. -/
theorem mem_states_map {x : ExceptT ε FileProgram α} {f : α → β} :
    t ∈ (do return f (← x) : ExceptT ε FileProgram β).run.states s ↔ t ∈ x.run.states s := by
  rw [mem_states_bind]
  constructor
  · rintro (h | ⟨a, u, hx, h⟩)
    · exact h
    · obtain rfl : t = u := (readsOnly_pure (f a)).mem_states_iff.mp h
      have hend : (Runs.files.perform x s).2 ∈ x.run.states s := end_mem_states x.run s
      rwa [hx] at hend
  · exact .inl

theorem readsOnly_readFile (path : String) :
    (liftM (readFile path) : ExceptT ε FileProgram (Except FileFault Bytes)).run.ReadsOnly :=
  .read fun _ => .done _

/-- Loading a file only reads. -/
theorem readsOnly_load (path : String) : (load path).run.ReadsOnly := by
  refine readsOnly_bind (readsOnly_readFile path) fun answer => ?_
  split
  · exact readsOnly_pure _
  · exact readsOnly_pure _
  · exact readsOnly_throw _

/-- Making sense of the contents of a file only reads. -/
theorem readsOnly_decode (contents : Bytes) : (decode contents).run.ReadsOnly := by
  unfold decode
  split
  · exact readsOnly_pure _
  · exact readsOnly_throw _

/-- Reading the cursors only reads. -/
theorem readsOnly_loadCursors (folder : String) : (loadCursors folder).run.ReadsOnly := by
  refine readsOnly_bind (readsOnly_load _) fun file => ?_
  split
  · exact readsOnly_pure _
  · split
    · exact readsOnly_pure _
    · exact readsOnly_throw _

/-- Giving a proof only reads. -/
theorem readsOnly_get (folder : String) (i : Nat) :
    ((ProofStore.files folder).get i).run.ReadsOnly := by
  refine readsOnly_bind (readsOnly_load _) fun file => ?_
  split
  · exact readsOnly_decode _
  · exact readsOnly_throw _

/-- Giving the merged proof only reads. -/
theorem readsOnly_getMerged (folder : String) :
    (ProofStore.files folder).getMerged.run.ReadsOnly := by
  refine readsOnly_bind (readsOnly_loadCursors folder) fun cursors => ?_
  split
  · refine readsOnly_bind (readsOnly_load _) fun file => ?_
    split
    · exact readsOnly_bind (readsOnly_decode _) fun p => readsOnly_pure _
    · exact readsOnly_pure _
  · exact readsOnly_pure _

/-- Saying how many proofs there are only reads. -/
theorem readsOnly_proofCount (folder : String) :
    (ProofStore.files folder).proofCount.run.ReadsOnly :=
  readsOnly_bind (readsOnly_loadCursors folder) fun _ => readsOnly_pure _

/-- Saying what is merged only reads. -/
theorem readsOnly_mergedWindow (folder : String) :
    (ProofStore.files folder).mergedWindow.run.ReadsOnly :=
  readsOnly_bind (readsOnly_loadCursors folder) fun _ => readsOnly_pure _

/-- After an answer from a store, a program goes on from the same state. -/
theorem mem_states_ask {x : ExceptT ε FileProgram α} {f : ε → ε'}
    {k : α → ExceptT ε' FileProgram β} {a : α} (hx : x.run.ReadsOnly)
    (hanswer : Runs.files.perform x s = (.ok a, s)) :
    t ∈ (x.adapt f >>= k).run.states s ↔ t = s ∨ t ∈ (k a).run.states s := by
  rw [mem_states_bind_ok (Runs.perform_adapt_ok _ hanswer), (readsOnly_adapt hx f).mem_states_iff]

/-! ### Replacing

A file is replaced in one step, and is never seen half written; but two files are replaced one
after the other.
-/

/-- Replacing a file is one command, so it is seen whole or not at all. -/
theorem states_replaceFile {path : String} (contents : Bytes)
    (k : Except ReplaceFault Unit → ExceptT ε FileProgram α) :
    (do k (← FileProgram.replaceFile path contents) : ExceptT ε FileProgram α).run.states s =
      s :: (k (s.replace path (temporaryPath path) contents).1).run.states
        (s.replace path (temporaryPath path) contents).2 := rfl

/-- Replacing a file is one step. -/
theorem mem_states_save (h : Keeps folder base s) {f : StoreFile} (hf : f.Named)
    (contents : Bytes) : t ∈ (save (joinPath folder f.name) contents).run.states s ↔
      t = s ∨ t = withFile base s f contents := by
  have hstates : (save (joinPath folder f.name) contents).run.states s =
      [s, withFile base s f contents] := by
    unfold save
    rw [states_replaceFile, h.replace hf]
    rfl
  simp [hstates]

/-- The cursors are written in one piece as well. -/
theorem mem_states_saveCursors (h : Keeps folder base s) (c : Cursors) :
    t ∈ (saveCursors folder c).run.states s ↔
      t = s ∨ t = withFile base s .cursors (Json.prettyBytes c) :=
  mem_states_save h (f := .cursors) trivial _

/-- Keeping a merged proof replaces its file first, and then that of the cursors. -/
theorem mem_states_putMerged (h : Shelved folder base s shelf) {p : Proof} {stop : Nat}
    (hp : p.payload.length < 1 <<< 64) (hwindow : shelf.window.start < stop) :
    t ∈ (putMerged folder p stop).run.states s ↔
      t = s ∨ t = withFile base s .merged p.encode ∨
      t = withFile base (withFile base s .merged p.encode) .cursors
        (Json.prettyBytes (shelf.putMerged p stop).cursors) := by
  have hcheck : shelf.cursors.window.checkStop stop = .ok () := if_neg (Nat.not_le.mpr hwindow)
  have hsave := perform_save h.keeps (f := .merged) trivial p.encode
  have hsaved := mem_states_save (t := t) h.keeps (f := .merged) trivial p.encode
  rw [StoreFile.name_merged] at hsave hsaved
  rw [putMerged, mem_states_bind_ok h.perform_loadCursors,
    (readsOnly_loadCursors folder).mem_states_iff, hcheck,
    mem_states_bind_ok (Runs.perform_ofExcept ..), (readsOnly_ofExcept _).mem_states_iff,
    mem_states_bind_ok hsave, hsaved, mem_states_saveCursors (h.withMerged hp).keeps]
  simp only [or_assoc, or_self_left]
  rfl

end FileStore

end AmmRollup
