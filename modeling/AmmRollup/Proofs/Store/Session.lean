import AmmRollup.Proofs.Files.Interleaving
import AmmRollup.Proofs.Store.Agreement

/-!
# AmmRollup.Proofs.Store.Session

A call of a handle, step by step.  A call that moves the cursors reads them, may replace them
with others that it makes of what it read, and has a change of its own to make besides, to the
file of a proof or of the merged proof.  A `Session` says what of all this a program has still
to do, and `Session.moved` what its next step is.
-/

namespace AmmRollup

/-! ## What a call does

A call on a shelf is split into what it makes of the cursors and what it changes besides, which
depends on them only by the window.
-/

/-- What a call has still to change apart from the cursors. -/
inductive Owed where
  | nothing
  | proof (index : Nat) (proof : Proof)
  | merged (proof : Option Proof)

/-- The change to a shelf. -/
def Owed.apply : Owed → Shelf → Shelf
  | .nothing, shelf => shelf
  | .proof i p, shelf => { shelf with proof := fun j => if j = i then .ok p else shelf.proof j }
  | .merged p, shelf => { shelf with merged := .ok p }

/-- What is owed beside the cursors does not change them. -/
@[simp] theorem Owed.cursors_apply (owed : Owed) (shelf : Shelf) :
    (owed.apply shelf).cursors = shelf.cursors := by
  cases owed <;> rfl

/-- What is owed beside the cursors does not depend on them. -/
theorem Owed.apply_of_cursors (owed owed' : Owed) (shelf : Shelf) (c c' : Cursors) :
    { owed.apply (owed'.apply { shelf with cursors := c }) with cursors := c' } =
      { owed.apply (owed'.apply shelf) with cursors := c' } := by
  cases owed <;> cases owed' <;> rfl

namespace StoreCall

/-- The cursors that a call makes of those it reads, unless it leaves them. -/
def update : StoreCall → Cursors → Option Cursors
  | .put i _, c => if c.proofCount ≤ i then some { c with proofCount := i + 1 } else none
  | .putMerged _ stop, c =>
      if stop ≤ c.window.start then none else some { c with window := { c.window with stop } }
  | .startMerge start, c => some { c with window := ⟨start, start⟩ }
  | .setSettledUntil stop, c => some { c with settledUntil := stop }
  | .get _, _ | .getMerged, _ | .proofCount, _ | .mergedWindow, _ | .settledUntil, _ => none

/-- What else a call changes, on a store with some window. -/
def owed : StoreCall → Window → Owed
  | .put i p, _ => .proof i p
  | .putMerged p stop, w => if stop ≤ w.start then .nothing else .merged (some p)
  | .startMerge _, _ => .merged none
  | .get _, _ | .getMerged, _ | .proofCount, _ | .mergedWindow, _ | .settledUntil, _
  | .setSettledUntil _, _ => .nothing

/-- Keeping a proof counts it. -/
theorem getD_update_put (i : Nat) (p : Proof) (c : Cursors) :
    ((StoreCall.put i p).update c).getD c =
      { c with proofCount := max c.proofCount (i + 1) } := by
  by_cases hcount : c.proofCount ≤ i
  · have hmax := Nat.max_eq_right (Nat.le_succ_of_le hcount)
    simp [update, hcount, hmax]
  · have hmax := Nat.max_eq_left (Nat.not_le.mp hcount)
    simp [update, hcount, hmax]

/-- A shelf after a call. -/
theorem reply_eq (call : StoreCall) (shelf : Shelf) :
    (shelf.reply call).2 =
      { (call.owed shelf.window).apply shelf with
        cursors := (call.update shelf.cursors).getD shelf.cursors } := by
  cases call with
  | put i p =>
      rw [getD_update_put]
      rfl
  | putMerged p stop =>
      by_cases hwindow : stop ≤ shelf.cursors.window.start
      · simp [Shelf.reply, owed, Owed.apply, update, Shelf.window, hwindow]
      · simp [Shelf.reply, Shelf.putMerged, owed, Owed.apply, update, Shelf.window, hwindow]
  | startMerge | setSettledUntil | get | getMerged | proofCount | mergedWindow | settledUntil => rfl

/-- The calls, apart from keeping a step's proof, that move the cursors. -/
def MovesMarks : StoreCall → Prop
  | .putMerged _ _ | .startMerge _ | .setSettledUntil _ => True
  | .get _ | .put _ _ | .getMerged | .proofCount | .mergedWindow | .settledUntil => False

end StoreCall

namespace FileStore

variable {folder : String} {base : PathParts} {s t : FileSystem} {shelf : Shelf}

/-! ## Steps of a store

Loading and saving take one step each, since a file is replaced by one command.
-/

/-- The file of the cursors. -/
def cursorsPath (folder : String) : String := joinPath folder cursorsName

/-- The first step of a program that starts by reading a file. -/
theorem step?_readFile {ε α : Type} (path : String)
    (k : Except FileFault Bytes → ExceptT ε FileProgram α) (s : FileSystem) :
    (do k (← FileProgram.readFile path) : ExceptT ε FileProgram α).run.step? s =
      some (.reads path, (k (s.read path)).run, s) := rfl

/-- The first step of a program that starts by replacing a file. -/
theorem step?_replaceFile {ε α : Type} (path : String) (contents : Bytes)
    (k : Except ReplaceFault Unit → ExceptT ε FileProgram α) (s : FileSystem) :
    (do k (← FileProgram.replaceFile path contents) : ExceptT ε FileProgram α).run.step? s =
      some (.replaces path, (k (s.replace path (temporaryPath path) contents).1).run,
        (s.replace path (temporaryPath path) contents).2) := rfl

/-- The first step of a program that starts by removing a file. -/
theorem step?_removeFile {ε α : Type} (path : String)
    (k : Except FileFault Unit → ExceptT ε FileProgram α) (s : FileSystem) :
    (do k (← FileProgram.removeFile path) : ExceptT ε FileProgram α).run.step? s =
      some (.removes path, (k (s.remove path).1).run, (s.remove path).2) := rfl

/-- Loading a file of the store takes one step. -/
theorem step?_load (h : Keeps folder base s) {f : StoreFile} (hf : f.Named) :
    (load (joinPath folder f.name)).run.step? s =
      some (.reads (joinPath folder f.name), .done (.ok (contents? base s f)), s) := by
  unfold load
  rw [step?_readFile, h.read hf]
  cases contents? base s f <;> rfl

/-- Replacing a file of a store is a single step. -/
theorem step?_save (h : Keeps folder base s) {f : StoreFile} (hf : f.Named) (contents : Bytes) :
    (save (joinPath folder f.name) contents).run.step? s =
      some (.replaces (joinPath folder f.name), .done (.ok ()), withFile base s f contents) := by
  unfold save
  rw [step?_replaceFile, h.replace hf]
  rfl

/-- Saving the cursors takes one step. -/
theorem step?_saveCursors (h : Keeps folder base s) (c : Cursors) :
    (saveCursors folder c).run.step? s =
      some (.replaces (cursorsPath folder), .done (.ok ()),
        withFile base s .cursors (Json.prettyBytes c)) :=
  step?_save h (f := .cursors) trivial (Json.prettyBytes c)

/-- Reading the cursors takes one step. -/
theorem step?_loadCursors (h : Shelved folder base s shelf) :
    (loadCursors folder).run.step? s =
      some (.reads (cursorsPath folder), .done (.ok shelf.cursors), s) := by
  have hcursors := h.cursors
  refine (FileProgram.step?_bind_ok (step?_load h.keeps (f := .cursors) trivial)).trans ?_
  cases hfile : contents? base s .cursors with
  | none =>
      rw [hfile] at hcursors
      exact Option.some.inj hcursors ▸ rfl
  | some contents =>
      rw [hfile] at hcursors
      simp only [Option.elim_some] at hcursors
      simp only [hcursors]
      rfl

/-! ## Cursor moves

Of the steps of a program only those on the file of the cursors concern another handle.
-/

/-- What a step does to the cursors. -/
inductive CursorMove where
  | reads
  | replaces
deriving DecidableEq

/-- What a step does to the cursors of a folder, if anything. -/
def cursorMove? (folder : String) : FileStep → Option CursorMove
  | .reads path => if path = cursorsPath folder then some .reads else none
  | .replaces path => if path = cursorsPath folder then some .replaces else none
  | .removes _ | .makesFolder _ => none

/-- Of all steps those on the file of the cursors matter here. -/
@[simp] theorem cursorMove?_reads (folder : String) :
    cursorMove? folder (.reads (cursorsPath folder)) = some .reads := if_pos rfl

@[simp] theorem cursorMove?_replaces (folder : String) :
    cursorMove? folder (.replaces (cursorsPath folder)) = some .replaces := if_pos rfl

/-- Replacing another file of the store is no such move. -/
theorem cursorMove?_replaces_file (h : Keeps folder base s) {f : StoreFile} (hf : f.Named)
    (hother : f ≠ .cursors) :
    cursorMove? folder (.replaces (joinPath folder f.name)) = none := by
  apply if_neg
  intro hpath
  have hslot := h.slot hf
  rw [hpath, show cursorsPath folder = joinPath folder StoreFile.cursors.name from rfl,
    h.slot (f := .cursors) trivial] at hslot
  exact hother (place_inj.mp (Except.ok.inj hslot)).symm

/-! ## Sessions

A session is a program with what it still owes: it has yet to read the cursors, has read them and
is due to write, or is over.  Every call that moves the cursors is a session.
-/

/-- How far a call is with the cursors. -/
inductive Phase where
  /-- The call has the cursors still to read. -/
  | ahead
  /-- The call read the cursors, and has still to replace them. -/
  | due (next : Cursors)
  /-- The call has done what it does to the cursors. -/
  | past
deriving DecidableEq

/-- The phase after the cursors were read. -/
def Phase.after : Option Cursors → Phase
  | some next => .due next
  | none => .past

/-- Having read the cursors, a call owes the new ones if it has any to write. -/
@[simp] theorem Phase.after_eq_due_iff {x : Option Cursors} {next : Cursors} :
    Phase.after x = .due next ↔ x = some next := by
  cases x <;> simp [after]

@[simp] theorem Phase.after_ne_ahead (x : Option Cursors) : Phase.after x ≠ .ahead := by
  cases x <;> simp [after]

/-- What a program on a folder has still to do before it gives an answer, if the cursors that
it reads are as expected: in which phase it is, and what else it owes. -/
inductive Session (folder : String) (expected : Cursors → Prop)
    (update : Cursors → Option Cursors) (answer : Except StoreError StoreAnswer) :
    Phase → Owed → FileProgram (Except StoreError StoreAnswer) → Prop
  | answered : Session folder expected update answer .past .nothing (.done answer)
  | reads {owed : Owed} {k : Cursors → FileCall StoreAnswer}
      (h : ∀ c, c.Fits → expected c →
        Session folder expected update answer (.after (update c)) owed (k c).run) :
      Session folder expected update answer .ahead owed (loadCursors folder >>= k).run
  | replaces {c : Cursors} {owed : Owed} {k : Unit → FileCall StoreAnswer} (hc : c.Fits)
      (h : Session folder expected update answer .past owed (k ()).run) :
      Session folder expected update answer (.due c) owed (saveCursors folder c >>= k).run
  | keepsProof {phase : Phase} {i : Nat} {p : Proof} {k : Unit → FileCall StoreAnswer}
      (hi : i < 1 <<< 64) (hp : p.payload.length < 1 <<< 64)
      (h : Session folder expected update answer phase .nothing (k ()).run) :
      Session folder expected update answer phase (.proof i p)
        (save (joinPath folder (proofName i)) p.encode >>= k).run
  | keepsMerged {phase : Phase} {p : Proof} {k : Unit → FileCall StoreAnswer}
      (hp : p.payload.length < 1 <<< 64)
      (h : Session folder expected update answer phase .nothing (k ()).run) :
      Session folder expected update answer phase (.merged (some p))
        (save (joinPath folder mergedName) p.encode >>= k).run
  | dropsMerged {phase : Phase} {k : Except FileFault Unit → FileCall StoreAnswer}
      (hremoved : Session folder expected update answer phase .nothing (k (.ok ())).run)
      (hmissing : Session folder expected update answer phase .nothing (k (.error .missing)).run) :
      Session folder expected update answer phase (.merged none)
        (do k (← FileProgram.removeFile (joinPath folder mergedName)) : FileCall StoreAnswer).run

variable {expected : Cursors → Prop} {update : Cursors → Option Cursors}
  {answer : Except StoreError StoreAnswer} {phase : Phase} {owed : Owed} {e : FileStep}
  {p p' : FileProgram (Except StoreError StoreAnswer)}

/-- The first step of a session: it pays what is owed, reads the cursors, or replaces them. -/
inductive Moved (folder : String) (base : PathParts) (expected : Cursors → Prop)
    (update : Cursors → Option Cursors) (answer : Except StoreError StoreAnswer)
    (s : FileSystem) (shelf : Shelf) :
    Phase → Owed → FileStep → FileProgram (Except StoreError StoreAnswer) → FileSystem → Prop
  | paid {phase : Phase} {owed : Owed} {e : FileStep}
      {p : FileProgram (Except StoreError StoreAnswer)} {t : FileSystem}
      (hmove : cursorMove? folder e = none) (hshelved : Shelved folder base t (owed.apply shelf))
      (hkept : Kept base s t) (hrest : Session folder expected update answer phase .nothing p) :
      Moved folder base expected update answer s shelf phase owed e p t
  | read {owed : Owed} {p : FileProgram (Except StoreError StoreAnswer)}
      (hrest : Session folder expected update answer (.after (update shelf.cursors)) owed p) :
      Moved folder base expected update answer s shelf .ahead owed (.reads (cursorsPath folder)) p s
  | replaced {c : Cursors} {owed : Owed} {p : FileProgram (Except StoreError StoreAnswer)}
      {t : FileSystem} (hshelved : Shelved folder base t { shelf with cursors := c })
      (hkept : Kept base s t) (hrest : Session folder expected update answer .past owed p) :
      Moved folder base expected update answer s shelf (.due c) owed
        (.replaces (cursorsPath folder)) p t

/-- The first step of a session is one of these. -/
theorem Session.moved (h : Session folder expected update answer phase owed p)
    (hs : Shelved folder base s shelf) (hexpected : phase = .ahead → expected shelf.cursors)
    (hstep : p.step? s = some (e, p', t)) :
    Moved folder base expected update answer s shelf phase owed e p' t := by
  cases h with
  | answered => cases hstep
  | reads h =>
      rw [FileProgram.step?_bind_ok (step?_loadCursors hs)] at hstep
      cases hstep
      exact .read (h _ hs.fits (hexpected rfl))
  | @replaces c owed k hc h =>
      rw [FileProgram.step?_bind_ok (step?_saveCursors hs.keeps c)] at hstep
      cases hstep
      exact .replaced (hs.withCursors hc) (.withFile (.refl base s) _ _) h
  | @keepsProof phase i q k hi hq h =>
      have hsave := step?_save hs.keeps (f := .proof i) hi q.encode
      rw [StoreFile.name_proof] at hsave
      rw [FileProgram.step?_bind_ok hsave] at hstep
      cases hstep
      have hmove := cursorMove?_replaces_file hs.keeps (f := .proof i) hi (by simp)
      rw [StoreFile.name_proof] at hmove
      exact .paid hmove (hs.withProof i hq) (.withFile (.refl base s) _ _) h
  | @keepsMerged phase q k hq h =>
      have hsave := step?_save hs.keeps (f := .merged) trivial q.encode
      rw [StoreFile.name_merged] at hsave
      rw [FileProgram.step?_bind_ok hsave] at hstep
      cases hstep
      have hmove := cursorMove?_replaces_file hs.keeps (f := .merged) trivial (by simp)
      rw [StoreFile.name_merged] at hmove
      exact .paid hmove (hs.withMerged hq) (.withFile (.refl base s) _ _) h
  | @dropsMerged phase k hremoved hmissing =>
      have hslot := hs.keeps.slot (f := .merged) trivial
      rw [StoreFile.name_merged] at hslot
      obtain ⟨hfiles, hresult⟩ := FileSystem.remove_of_slot hslot
      rw [step?_removeFile, hfiles] at hstep
      have hkept := (Kept.refl base s).removed .merged
      -- removing a file that is missing is as good as removing it
      rcases hresult with hresult | hresult
      all_goals
        rw [hresult] at hstep
        cases hstep
        apply Moved.paid rfl hs.withoutMerged hkept
        assumption

/-- A session that is over gave its answer, and owes nothing. -/
theorem Session.of_done {a : Except StoreError StoreAnswer}
    (h : Session folder expected update answer phase owed (.done a)) :
    phase = .past ∧ owed = .nothing ∧ a = answer := by
  generalize hp : FileProgram.done a = p at h
  cases h with
  | answered =>
      cases hp
      exact ⟨rfl, rfl, rfl⟩
  | reads | replaces | keepsProof | keepsMerged | dropsMerged => cases hp

/-! ## The calls that move the cursors

Keeping a proof writes its file before it reads the cursors; the calls that move the marks read
the cursors first.
-/

/-- Keeping a proof first pays for the file, and then reads the cursors. -/
theorem session_put {i : Nat} {q : Proof}
    (hcall : (StoreCall.put i q).Within (· < 1 <<< 64) (·.payload.length < 1 <<< 64)) :
    Session folder (fun _ => True) (StoreCall.put i q).update (.ok .done) .ahead (.proof i q)
      ((ProofStore.files folder).ask (.put i q)).run := by
  obtain ⟨hi, hnext, hq⟩ := hcall
  simp only [ProofStore.ask, ProofStore.files, put, bind_assoc]
  apply Session.keepsProof hi hq
  apply Session.reads
  intro c hc _
  by_cases hcount : c.proofCount ≤ i
  · have hfits : Cursors.Fits { c with proofCount := i + 1 } := ⟨hnext, hc.2⟩
    simp only [StoreCall.update, hcount, if_true]
    exact .replaces hfits .answered
  · simp only [StoreCall.update, hcount, if_false]
    exact .answered

/-- The calls that move the marks read the cursors first, and write them last or before they drop a
file. -/
theorem session_of_movesMarks {call : StoreCall} (hmoves : call.MovesMarks)
    (hcall : call.Within (· < 1 <<< 64) (·.payload.length < 1 <<< 64)) (shelf : Shelf) :
    Session folder (fun c => c.window = shelf.window) call.update (shelf.reply call).1 .ahead
      (call.owed shelf.window) ((ProofStore.files folder).ask call).run := by
  cases call with
  | putMerged q stop =>
      obtain ⟨hq, hstop⟩ := hcall
      simp only [ProofStore.ask, ProofStore.files, putMerged, bind_assoc]
      apply Session.reads
      intro c hc hwindow
      -- the window that is read is that of the shelf, so the call is refused as on the shelf
      by_cases hrefused : stop ≤ shelf.window.start
      · simp only [Window.checkStop, StoreCall.update, StoreCall.owed, Shelf.reply, hwindow,
          hrefused, if_true]
        exact .answered
      · have hfits : Cursors.Fits { c with window := { c.window with stop } } :=
          ⟨hc.1, hc.2.1, hstop, hc.2.2.2⟩
        simp only [hwindow] at hfits
        simp only [Window.checkStop, StoreCall.update, StoreCall.owed, Shelf.reply, hwindow,
          hrefused, if_false]
        exact .keepsMerged hq (.replaces hfits .answered)
  | startMerge start =>
      simp only [ProofStore.ask, ProofStore.files, startMerge, bind_assoc]
      apply Session.reads
      intro c hc _
      have hfits : Cursors.Fits { c with window := ⟨start, start⟩ } :=
        ⟨hc.1, hcall, hcall, hc.2.2.2⟩
      exact .replaces hfits (.dropsMerged .answered .answered)
  | setSettledUntil stop =>
      simp only [ProofStore.ask, ProofStore.files, setSettledUntil, bind_assoc]
      apply Session.reads
      intro c hc _
      have hfits : Cursors.Fits { c with settledUntil := stop } := ⟨hc.1, hc.2.1, hc.2.2.1, hcall⟩
      exact .replaces hfits .answered
  | get | put | getMerged | proofCount | mergedWindow | settledUntil => cases hmoves

end FileStore

end AmmRollup
