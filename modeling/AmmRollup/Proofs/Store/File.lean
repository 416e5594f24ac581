import AmmRollup.Proofs.Digest
import AmmRollup.Proofs.Json.Form
import AmmRollup.Proofs.Store.Names
import AmmRollup.Proofs.Store.Shelf

/-!
# AmmRollup.Proofs.Store.File

The store in a folder is lawful.  The shelf of a folder is read off its files: of a proof
that is missing or that cannot be read it holds the refusal.  Every file has its own name,
so replacing one leaves what the others say.

The store is limited to indexes of 64 bits, and to payloads whose length is such a
number.  All files but its own it leaves alone (`Kept`), which is part of the states that it
is lawful over.
-/

namespace AmmRollup

open FileStore (FileCall)

namespace Bytes

/-- What splits off has the length that was asked for. -/
theorem length_of_split? {n : Nat} {bs : Bytes} {parts : Bytes × Bytes}
    (h : split? n bs = some parts) : parts.1.length = n := by
  unfold split? at h
  split at h
  · next hn =>
    obtain rfl := Option.some.inj h
    exact List.length_take_of_le hn
  · cases h

end Bytes

/-! ## Programs over files

A program over files is a tree of commands.  Running one command at a time, these equations
replace the file system by what can be read of it.
-/

/-- Programs over files run on file systems. -/
def Runs.files : Runs FileProgram FileSystem where
  run := FileProgram.run
  run_pure _ _ := rfl
  run_bind := FileProgram.run_andThen

section

variable {ε α : Type} {s : FileSystem} {path : String} {place : PathParts}

/-- A program that starts by reading a file runs on with what was read. -/
theorem perform_readFile (k : Except FileFault Bytes → ExceptT ε FileProgram α) :
    Runs.files.perform (do k (← FileProgram.readFile path) : ExceptT ε FileProgram α) s =
      Runs.files.perform (k (s.read path)) s := rfl

/-- A program that starts by replacing a file runs on with whether it was replaced. -/
theorem perform_replaceFile (contents : Bytes)
    (k : Except ReplaceFault Unit → ExceptT ε FileProgram α) :
    Runs.files.perform
        (do k (← FileProgram.replaceFile path contents) : ExceptT ε FileProgram α) s =
      Runs.files.perform (k (s.replace path (temporaryPath path) contents).1)
        (s.replace path (temporaryPath path) contents).2 := rfl

/-- A program that starts by removing a file runs on with whether it was removed. -/
theorem perform_removeFile (k : Except FileFault Unit → ExceptT ε FileProgram α) :
    Runs.files.perform (do k (← FileProgram.removeFile path) : ExceptT ε FileProgram α) s =
      Runs.files.perform (k (s.remove path).1) (s.remove path).2 := rfl

/-- A program that starts by asking for a folder runs on with whether it is there. -/
theorem perform_ensureFolder (k : Except FileFault Unit → ExceptT ε FileProgram α) :
    Runs.files.perform (do k (← FileProgram.ensureFolder path) : ExceptT ε FileProgram α) s =
      Runs.files.perform (k (s.makeFolder path).1) (s.makeFolder path).2 := rfl

end

namespace FileStore

variable {folder : String} {base : PathParts} {s t : FileSystem} {shelf : Shelf}

/-! ## Reading and replacing the files of a store

A file is replaced by writing a temporary one beside it and renaming that.  Between the name of a
file and its place stands the path to the folder, which is followed once; from then on files are
told apart by their places.
-/

/-- The place of a file of a store. -/
def place (base : PathParts) (f : StoreFile) : PathParts := base ++ [f.name.toList]

/-- The place where the new contents of a file are written. -/
def temporaryPlace (base : PathParts) (f : StoreFile) : PathParts := base ++ [f.temporary.toList]

/-- A folder in which a store can keep its files: no folder stands where they do. -/
structure Keeps (folder : String) (base : PathParts) (s : FileSystem) : Prop where
  room : s.Room folder base
  place : ∀ f : StoreFile, place base f ∉ s.folders
  temporary : ∀ f : StoreFile, temporaryPlace base f ∉ s.folders

/-- Whether a folder keeps the files of a store is a matter of folders alone. -/
theorem Keeps.of_folders (hfolders : t.folders = s.folders) (h : Keeps folder base s) :
    Keeps folder base t where
  room := h.room.of_folders hfolders
  place := hfolders ▸ h.place
  temporary := hfolders ▸ h.temporary

/-- The name of a file of the store leads to its place. -/
theorem Keeps.slot (h : Keeps folder base s) {f : StoreFile} (hf : f.Named) :
    s.slot (joinPath folder f.name) = .ok (FileStore.place base f) :=
  h.room.slot (StoreFile.entryName hf) (h.place f)

/-- The name under which a file is written first leads to a place of its own. -/
theorem Keeps.slot_temporary (h : Keeps folder base s) {f : StoreFile} (hf : f.Named) :
    s.slot (temporaryPath (joinPath folder f.name)) = .ok (temporaryPlace base f) := by
  rw [StoreFile.temporaryPath_name folder hf]
  exact h.room.slot (StoreFile.entryName_temporary hf) (h.temporary f)

/-- The contents of a file of a store. -/
def contents? (base : PathParts) (s : FileSystem) (f : StoreFile) : Option Bytes :=
  s.files.get? (place base f)

/-- What a file system holds after a file of a store was replaced. -/
def withFile (base : PathParts) (s : FileSystem) (f : StoreFile) (contents : Bytes) : FileSystem :=
  s.replaced (temporaryPlace base f) (place base f) contents

/-- Reading a file of the store gives the contents at its place, if there are any. -/
theorem Keeps.read (h : Keeps folder base s) {f : StoreFile} (hf : f.Named) :
    s.read (joinPath folder f.name) = (contents? base s f).elim (.error .missing) .ok :=
  FileSystem.read_of_slot (h.slot hf)

/-- Replacing a file of the store changes the contents at its place alone. -/
theorem Keeps.replace (h : Keeps folder base s) {f : StoreFile} (hf : f.Named)
    (contents : Bytes) :
    s.replace (joinPath folder f.name) (temporaryPath (joinPath folder f.name)) contents =
      (.ok (), withFile base s f contents) :=
  FileSystem.replace_of_slot (h.slot_temporary hf) (h.slot hf)

/-- A file that is missing is no error to a store. -/
theorem perform_load (h : Keeps folder base s) {f : StoreFile} (hf : f.Named) :
    Runs.files.perform (load (joinPath folder f.name)) s = (.ok (contents? base s f), s) := by
  unfold load
  rw [perform_readFile, h.read hf]
  cases contents? base s f <;> rfl

/-- Saving a file never fails here, since the folder keeps it. -/
theorem perform_save (h : Keeps folder base s) {f : StoreFile} (hf : f.Named)
    (contents : Bytes) :
    Runs.files.perform (save (joinPath folder f.name) contents) s =
      (.ok (), withFile base s f contents) := by
  unfold save
  rw [perform_replaceFile, h.replace hf]
  rfl

/-- Every file of a store has its own place. -/
theorem place_inj {f g : StoreFile} : place base f = place base g ↔ f = g := by
  refine ⟨fun h => ?_, fun h => h ▸ rfl⟩
  rw [place, place, List.append_cancel_left_eq, List.singleton_inj, String.toList_inj] at h
  exact StoreFile.name_injective h

/-- Every temporary file has its own place. -/
theorem temporaryPlace_inj {f g : StoreFile} :
    temporaryPlace base f = temporaryPlace base g ↔ f = g := by
  refine ⟨fun h => ?_, fun h => h ▸ rfl⟩
  rw [temporaryPlace, temporaryPlace, List.append_cancel_left_eq, List.singleton_inj,
    String.toList_inj] at h
  exact StoreFile.temporary_injective h

/-- The place of a temporary file is that of no file. -/
theorem place_ne_temporaryPlace (f g : StoreFile) : place base f ≠ temporaryPlace base g := by
  intro h
  rw [place, temporaryPlace, List.append_cancel_left_eq, List.singleton_inj,
    String.toList_inj] at h
  exact StoreFile.name_ne_temporary f g h

/-- Replacing a file changes that file only. -/
theorem contents?_withFile (f g : StoreFile) (contents : Bytes) :
    contents? base (withFile base s f contents) g =
      if g = f then some contents else contents? base s g := by
  rw [contents?, withFile, FileSystem.get?_replaced, if_neg (place_ne_temporaryPlace g f)]
  simp only [place_inj]
  rfl

/-! ## What a folder's files say

`Shelved` reads a shelf off the contents of a folder's files.  It says nothing of other files,
and nothing of the path by which the folder was found.
-/

/-- The proof that the contents of a file stand for, or a refusal. -/
def decoded (contents : Bytes) : Except StoreError Proof :=
  match Proof.decode? contents with
  | some proof => .ok proof
  | none => .error .codec

/-- The files of a folder say what a shelf holds. -/
structure Shelved (folder : String) (base : PathParts) (s : FileSystem) (shelf : Shelf) : Prop where
  keeps : Keeps folder base s
  proof : ∀ i < 1 <<< 64, shelf.proof i =
    (contents? base s (.proof i)).elim (.error (.notFound i)) decoded
  merged : shelf.merged = (contents? base s .merged).elim (.ok none) fun contents =>
    (decoded contents).map some
  cursors : (contents? base s .cursors).elim (some .zero) Json.read? = some shelf.cursors

/-- All but the files of a store is as it was. -/
structure Kept (base : PathParts) (s t : FileSystem) : Prop where
  folders : t.folders = s.folders
  files : ∀ other, (∀ f : StoreFile, other ≠ place base f ∧ other ≠ temporaryPlace base f) →
    t.files.get? other = s.files.get? other

theorem Kept.refl (base : PathParts) (s : FileSystem) : Kept base s s := ⟨rfl, fun _ _ => rfl⟩

/-- Files beside the store stay as they were over several operations. -/
theorem Kept.trans {u : FileSystem} (h : Kept base s t) (h' : Kept base t u) : Kept base s u :=
  ⟨h'.folders.trans h.folders,
    fun other hother => (h'.files other hother).trans (h.files other hother)⟩

/-- Writing a file of the store leaves the files beside it as they were. -/
theorem Kept.withFile (h : Kept base s t) (f : StoreFile) (contents : Bytes) :
    Kept base s (withFile base t f contents) := by
  refine ⟨h.folders, fun other hother => ?_⟩
  rw [FileStore.withFile, FileSystem.get?_replaced, if_neg (hother f).1, if_neg (hother f).2]
  exact h.files other hother

/-- Removing a file of the store leaves the files beside it as they were. -/
theorem Kept.removed (h : Kept base s t) (f : StoreFile) :
    Kept base s (t.removed (place base f)) := by
  refine ⟨(FileSystem.folders_removed _).trans h.folders, fun other hother => ?_⟩
  rw [FileSystem.get?_removed, if_neg (hother f).1]
  exact h.files other hother

/-- No file of a store stands where a folder does. -/
theorem Kept.free (h : Kept base s t) (hkeeps : Keeps folder base t)
    (hfree : ∀ place ∈ s.folders, s.files.contains place = false) :
    ∀ place ∈ t.folders, t.files.contains place = false := by
  intro other hother
  have hapart (f : StoreFile) : other ≠ place base f ∧ other ≠ temporaryPlace base f :=
    ⟨fun heq => hkeeps.place f (heq ▸ hother), fun heq => hkeeps.temporary f (heq ▸ hother)⟩
  have hsame := hfree other (h.folders ▸ hother)
  rwa [FinMap.contains, ← h.files other hapart] at hsame

namespace Shelved

/-- What a folder says depends on the files of its store alone. -/
theorem of_contents (h : Shelved folder base s shelf) (hfolders : t.folders = s.folders)
    (hsame : ∀ f, contents? base t f = contents? base s f) : Shelved folder base t shelf where
  keeps := .of_folders hfolders h.keeps
  proof i hi := by rw [hsame, h.proof i hi]
  merged := by rw [hsame, h.merged]
  cursors := by rw [hsame, h.cursors]

/-- The cursors of a folder fit into 64 bits, as they were read from a file. -/
theorem fits (h : Shelved folder base s shelf) : shelf.cursors.Fits := by
  have hcursors := h.cursors
  cases hfile : contents? base s .cursors with
  | none =>
    rw [hfile] at hcursors
    exact Option.some.inj hcursors ▸ (by unfold Cursors.Fits; decide : Cursors.zero.Fits)
  | some contents =>
    rw [hfile] at hcursors
    exact Cursors.fits_of_read? hcursors

/-- Replacing the cursors' file replaces the cursors. -/
theorem withCursors (h : Shelved folder base s shelf) {c : Cursors} (hc : c.Fits) :
    Shelved folder base (withFile base s .cursors (Json.prettyBytes c))
      { shelf with cursors := c } where
  keeps := .of_folders (by rfl) h.keeps
  proof i hi := by
    rw [contents?_withFile, if_neg (by simp)]
    exact h.proof i hi
  merged := by
    rw [contents?_withFile, if_neg (by simp)]
    exact h.merged
  cursors := by
    rw [contents?_withFile, if_pos rfl]
    exact (Cursors.readsBack hc).read?_prettyBytes

/-- A proof reads back from its file. -/
theorem decoded_encode {p : Proof} (hp : p.payload.length < 1 <<< 64) :
    decoded p.encode = .ok p := by
  have := Proof.decode?_encode_append hp []
  rw [List.append_nil] at this
  rw [decoded, this]

/-- The length of a payload is read from eight bytes. -/
theorem length_payload_of_decoded {contents : Bytes} {p : Proof}
    (h : decoded contents = .ok p) : p.payload.length < 1 <<< 64 := by
  have hp : Proof.decode? contents = some p := by
    unfold decoded at h
    split at h
    · next heq => exact Except.ok.inj h ▸ heq
    · cases h
  obtain ⟨tagged, -, hp⟩ := Option.bind_eq_some_iff.mp hp
  obtain ⟨method, -, hp⟩ := Option.bind_eq_some_iff.mp hp
  obtain ⟨input, -, hp⟩ := Option.bind_eq_some_iff.mp hp
  obtain ⟨output, -, hp⟩ := Option.bind_eq_some_iff.mp hp
  obtain ⟨size, hsize, hp⟩ := Option.bind_eq_some_iff.mp hp
  obtain ⟨payload, hpayload, hp⟩ := Option.bind_eq_some_iff.mp hp
  obtain rfl := Option.some.inj hp
  -- the length was read from eight bytes, and as many bytes of payload were there
  have hbytes := Bytes.toNat_lt size.1
  rw [Bytes.length_of_split? hsize] at hbytes
  exact Bytes.length_of_split? hpayload ▸ hbytes

/-- Replacing the file of a proof replaces the proof. -/
theorem withProof (h : Shelved folder base s shelf) (i : Nat) {p : Proof}
    (hp : p.payload.length < 1 <<< 64) :
    Shelved folder base (withFile base s (.proof i) p.encode)
      { shelf with proof := fun j => if j = i then .ok p else shelf.proof j } where
  keeps := .of_folders (by rfl) h.keeps
  proof j hj := by
    rw [contents?_withFile]
    by_cases hji : j = i
    · subst hji
      simp [decoded_encode hp]
    · simpa [hji] using h.proof j hj
  merged := by
    rw [contents?_withFile, if_neg (by simp)]
    exact h.merged
  cursors := by
    rw [contents?_withFile, if_neg (by simp)]
    exact h.cursors

/-- Replacing the file of the merged proof replaces the merged proof. -/
theorem withMerged (h : Shelved folder base s shelf) {p : Proof}
    (hp : p.payload.length < 1 <<< 64) :
    Shelved folder base (withFile base s .merged p.encode)
      { shelf with merged := .ok (some p) } where
  keeps := .of_folders (by rfl) h.keeps
  proof j hj := by
    rw [contents?_withFile, if_neg (by simp)]
    exact h.proof j hj
  merged := by
    rw [contents?_withFile, if_pos rfl]
    simp [decoded_encode hp, Except.map]
  cursors := by
    rw [contents?_withFile, if_neg (by simp)]
    exact h.cursors

/-- Removing the file of the merged proof drops the merged proof. -/
theorem withoutMerged (h : Shelved folder base s shelf) :
    Shelved folder base (s.removed (place base .merged)) { shelf with merged := .ok none } := by
  have hremoved (f : StoreFile) (hf : f ≠ .merged) :
      contents? base (s.removed (place base .merged)) f = contents? base s f := by
    rw [contents?, FileSystem.get?_removed, if_neg fun h => hf (place_inj.mp h)]
    rfl
  refine ⟨.of_folders (FileSystem.folders_removed _) h.keeps, fun i hi => ?_, ?_, ?_⟩
  · rw [hremoved _ (by simp)]
    exact h.proof i hi
  · rw [contents?, FileSystem.get?_removed, if_pos rfl]
    rfl
  · rw [hremoved _ (by simp)]
    exact h.cursors

/-- The payload of a proof that was read has a length of 64 bits. -/
theorem storable (h : Shelved folder base s shelf) {i : Nat} (hi : i < 1 <<< 64) {p : Proof}
    (hp : shelf.proof i = .ok p) : p.payload.length < 1 <<< 64 := by
  rw [h.proof i hi] at hp
  cases hfile : contents? base s (.proof i) with
  | none => rw [hfile] at hp; cases hp
  | some contents =>
    rw [hfile] at hp
    exact length_payload_of_decoded hp

/-! ## Operations

Each operation of the store in a folder, as one on the shelf.  Where an operation writes two
files their order is told, as it matters when it is stopped in between.
-/

/-- What the cursors say is what was written last, or zero if nothing was. -/
theorem perform_loadCursors (h : Shelved folder base s shelf) :
    Runs.files.perform (loadCursors folder) s = (.ok shelf.cursors, s) := by
  have hcursors := h.cursors
  refine (Runs.perform_bind_ok _ (perform_load h.keeps (f := .cursors) trivial)).trans ?_
  cases hfile : contents? base s .cursors with
  | none =>
    rw [hfile] at hcursors
    exact Option.some.inj hcursors ▸ rfl
  | some contents =>
    rw [hfile] at hcursors
    simp only [Option.elim_some] at hcursors
    simp [hcursors]

/-- Replacing the cursors of a folder replaces those of its shelf. -/
theorem perform_saveCursors (h : Shelved folder base s shelf) (hkept : Kept base t s)
    {c : Cursors} (hc : c.Fits) :
    ∃ s', Runs.files.perform (saveCursors folder c) s = (.ok (), s') ∧
      Shelved folder base s' { shelf with cursors := c } ∧ Kept base t s' :=
  ⟨_, perform_save h.keeps (f := .cursors) trivial _, h.withCursors hc, hkept.withFile _ _⟩

/-- A proof is read back as it was kept, or the reason why it cannot be. -/
theorem perform_get (h : Shelved folder base s shelf) {i : Nat} (hi : i < 1 <<< 64) :
    Runs.files.perform (get folder i) s = (shelf.proof i, s) := by
  refine (Runs.perform_bind_ok _ (perform_load h.keeps (f := .proof i) hi)).trans ?_
  rw [h.proof i hi]
  cases contents? base s (.proof i) with
  | none => rfl
  | some contents =>
    show Runs.files.perform (decode contents) s = (decoded contents, s)
    unfold decode decoded
    cases Proof.decode? contents <;> rfl

/-- Keeping a proof writes its file, and the cursors only if it is a new last one. -/
theorem perform_put (h : Shelved folder base s shelf) (hkept : Kept base t s) {i : Nat}
    (hi : i < 1 <<< 64) (hnext : i + 1 < 1 <<< 64) {p : Proof}
    (hp : p.payload.length < 1 <<< 64) :
    ∃ s', Runs.files.perform (put folder i p) s = (.ok (), s') ∧
      Shelved folder base s' (shelf.put i p) ∧ Kept base t s' := by
  have hsave := perform_save h.keeps (f := .proof i) hi p.encode
  have hproof := h.withProof i hp
  have hkept := hkept.withFile (.proof i) p.encode
  -- the file is in place before the cursors are looked at
  rw [StoreFile.name_proof] at hsave
  unfold put
  rw [Runs.perform_bind_ok _ hsave, Runs.perform_bind_ok _ hproof.perform_loadCursors]
  split
  · next hcount =>
    obtain ⟨_, hstart, hstop, hsettled⟩ := h.fits
    have hput : shelf.put i p =
        { { shelf with proof := fun j => if j = i then .ok p else shelf.proof j } with
          cursors := { shelf.cursors with proofCount := i + 1 } } := by
      rw [Shelf.put, Nat.max_eq_right (Nat.le_succ_of_le hcount)]
    rw [hput]
    exact hproof.perform_saveCursors hkept ⟨hnext, hstart, hstop, hsettled⟩
  · next hcount =>
    have hput : shelf.put i p =
        { shelf with proof := fun j => if j = i then .ok p else shelf.proof j } := by
      rw [Shelf.put, Nat.max_eq_left (Nat.not_le.mp hcount)]
    rw [hput]
    exact ⟨_, Runs.perform_pure _ _, hproof, hkept⟩

/-- The merged proof is read if there is a window, and is otherwise none, whatever the file holds.
-/
theorem perform_getMerged (h : Shelved folder base s shelf) :
    Runs.files.perform (getMerged folder) s = (shelf.getMerged, s) := by
  unfold getMerged Shelf.getMerged Shelf.window
  rw [Runs.perform_bind_ok _ h.perform_loadCursors]
  by_cases hwindow : shelf.cursors.window.nonempty
  -- the file may be missing or hold no proof; the shelf says the same of it
  · rw [if_pos hwindow, if_pos hwindow, h.merged]
    refine (Runs.perform_bind_ok _ (perform_load h.keeps (f := .merged) trivial)).trans ?_
    cases contents? base s .merged with
    | none => rfl
    | some contents =>
      show Runs.files.perform (decode contents >>= fun proof => pure (some proof)) s =
        ((decoded contents).map some, s)
      unfold decode decoded
      cases Proof.decode? contents <;> rfl
  · rw [if_neg hwindow, if_neg hwindow]
    rfl

/-- The merged proof is written before the window. -/
theorem perform_putMerged (h : Shelved folder base s shelf) (hkept : Kept base t s) {p : Proof}
    (hp : p.payload.length < 1 <<< 64) {stop : Nat} (hstop : stop < 1 <<< 64)
    (hwindow : shelf.window.start < stop) :
    ∃ s', Runs.files.perform (putMerged folder p stop) s = (.ok (), s') ∧
      Shelved folder base s' (shelf.putMerged p stop) ∧ Kept base t s' := by
  have hcheck : shelf.cursors.window.checkStop stop = .ok () := if_neg (Nat.not_le.mpr hwindow)
  have hsave := perform_save h.keeps (f := .merged) trivial p.encode
  obtain ⟨hcount, hstart, -, hsettled⟩ := h.fits
  rw [StoreFile.name_merged] at hsave
  unfold putMerged
  rw [Runs.perform_bind_ok _ h.perform_loadCursors, hcheck,
    Runs.perform_bind_ok _ (Runs.perform_ofExcept ..), Runs.perform_bind_ok _ hsave]
  exact (h.withMerged hp).perform_saveCursors (hkept.withFile .merged p.encode)
    ⟨hcount, hstart, hstop, hsettled⟩

/-- Nothing is written when the window would end before it starts. -/
theorem perform_putMerged_refused (h : Shelved folder base s shelf) (p : Proof) {stop : Nat}
    (hwindow : stop ≤ shelf.window.start) :
    Runs.files.perform (putMerged folder p stop) s =
      (.error (.window shelf.window.start shelf.window.stop stop), s) := by
  have hcheck : shelf.cursors.window.checkStop stop =
      .error (.window shelf.window.start shelf.window.stop stop) := if_pos hwindow
  unfold putMerged
  rw [Runs.perform_bind_ok _ h.perform_loadCursors, hcheck]
  exact Runs.perform_bind_error _ (Runs.perform_ofExcept ..)

/-- An empty window is written first, and then the merged proof is dropped. -/
theorem perform_startMerge (h : Shelved folder base s shelf) (hkept : Kept base t s) {start : Nat}
    (hstart : start < 1 <<< 64) :
    ∃ s', Runs.files.perform (startMerge folder start) s = (.ok (), s') ∧
      Shelved folder base s' (shelf.startMerge start) ∧ Kept base t s' := by
  obtain ⟨hcount, -, -, hsettled⟩ := h.fits
  obtain ⟨saved, hsave, hshelved, hkept⟩ :=
    h.perform_saveCursors hkept (c := { shelf.cursors with window := ⟨start, start⟩ })
      ⟨hcount, hstart, hstart, hsettled⟩
  obtain ⟨hremoved, hresult⟩ :=
    FileSystem.remove_of_slot (hshelved.keeps.slot (f := .merged) trivial)
  refine ⟨_, ?_, hshelved.withoutMerged, hkept.removed .merged⟩
  unfold startMerge
  rw [Runs.perform_bind_ok _ h.perform_loadCursors, Runs.perform_bind_ok _ hsave,
    perform_removeFile, ← StoreFile.name_merged, hremoved]
  rcases hresult with hresult | hresult <;> rw [hresult] <;> rfl

/-- The mark of what is settled is one of the cursors. -/
theorem perform_setSettledUntil (h : Shelved folder base s shelf) (hkept : Kept base t s)
    {stop : Nat} (hstop : stop < 1 <<< 64) :
    ∃ s', Runs.files.perform (setSettledUntil folder stop) s = (.ok (), s') ∧
      Shelved folder base s' (shelf.setSettledUntil stop) ∧ Kept base t s' := by
  obtain ⟨hcount, hstart, hwindow, -⟩ := h.fits
  unfold setSettledUntil
  rw [Runs.perform_bind_ok _ h.perform_loadCursors]
  exact h.perform_saveCursors hkept ⟨hcount, hstart, hwindow, hstop⟩

/-- Opening the store of a folder that exists changes nothing. -/
theorem perform_openAt (h : Shelved folder base s shelf)
    (hfree : ∀ place ∈ s.folders, s.files.contains place = false) :
    Runs.files.perform (openAt folder) s = (.ok (), s) := by
  have hfolder := FileSystem.makeFolder_of_resolve hfree h.keeps.room.resolves
    h.keeps.room.isFolder
  unfold openAt
  rw [perform_ensureFolder, hfolder]
  exact Runs.perform_bind_ok _ h.perform_loadCursors

end Shelved

end FileStore

/-- The store in a folder is lawful, for indexes of 64 bits and payloads of such a length. -/
theorem ProofStore.files_lawful (folder : String) (base : PathParts) (s : FileSystem) :
    (ProofStore.files folder).Lawful .files
      (fun t shelf => FileStore.Shelved folder base t shelf ∧ FileStore.Kept base s t)
      (· < 1 <<< 64) (·.payload.length < 1 <<< 64) where
  storable_of_proof h _ hi _ hp := h.1.storable hi hp
  get h _ hi := h.1.perform_get hi
  put h _ hi hnext _ hp := h.1.perform_put h.2 hi hnext hp
  getMerged h := h.1.perform_getMerged
  putMerged h _ hp _ hstop hwindow := h.1.perform_putMerged h.2 hp hstop hwindow
  putMerged_refused h p _ hwindow := h.1.perform_putMerged_refused p hwindow
  startMerge h _ hstart := h.1.perform_startMerge h.2 hstart
  proofCount h := Runs.perform_bind_ok _ h.1.perform_loadCursors
  mergedWindow h := Runs.perform_bind_ok _ h.1.perform_loadCursors
  settledUntil h := Runs.perform_bind_ok _ h.1.perform_loadCursors
  setSettledUntil h _ hstop := h.1.perform_setSettledUntil h.2 hstop

end AmmRollup
