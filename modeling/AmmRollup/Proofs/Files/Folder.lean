import AmmRollup.Files.Program
import AmmRollup.Proofs.Result

/-!
# AmmRollup.Proofs.Files.Folder

Files at a place.  Where a path leads depends on the folders alone, and no reading,
replacing or removing of a file changes those.  So once a path is known to lead to a
place for a file it always does, and what happens to the file is said in terms of the
place: a replacement writes it, and touches besides only the place of the path's
temporary file.

A `Room` is a folder in which files with short plain names have their places.
-/

namespace AmmRollup

namespace FileSystem

variable {s t : FileSystem} {path : String} {place : PathParts}

/-! ## Paths and folders

Following a path only looks at folders.  As the operations of a store make and remove none, its
paths lead where they did.
-/

/-- Whether a piece of a path can be followed depends on the folders alone. -/
theorem enter_of_folders {piece : List Char} {next : PathParts} (hfolders : t.folders = s.folders)
    (h : s.enter place piece = .ok next) : t.enter place piece = .ok next := by
  rw [enter_eq_ok_iff] at h ⊢
  rwa [hfolders]

/-- Whether several pieces can be followed depends on the folders alone. -/
private theorem foldlM_enter_of_folders {pieces : PathParts} {last : PathParts}
    (hfolders : t.folders = s.folders) (h : pieces.foldlM s.enter place = .ok last) :
    pieces.foldlM t.enter place = .ok last := by
  induction pieces generalizing place with
  | nil => exact h
  | cons piece rest ih =>
    obtain ⟨next, hnext, h⟩ := foldlM_cons_eq_ok_iff.mp h
    exact foldlM_cons_eq_ok_iff.mpr ⟨next, enter_of_folders hfolders hnext, ih h⟩

/-- Where a path leads depends on the folders alone. -/
theorem resolve_of_folders (hfolders : t.folders = s.folders) (h : s.resolve path = .ok place) :
    t.resolve path = .ok place := by
  unfold resolve at h ⊢
  split at h
  · next hpath =>
    rw [if_pos hpath]
    exact foldlM_enter_of_folders hfolders h
  · cases h

/-- A place for a file is where no folder stands. -/
theorem slot_eq_ok_iff :
    s.slot path = .ok place ↔ s.resolve path = .ok place ∧ place ∉ s.folders := by
  unfold slot
  cases s.resolve path with
  | error fault => simp
  | ok found => grind

/-- Where a path leads depends on the folders alone. -/
theorem slot_of_folders (hfolders : t.folders = s.folders) (h : s.slot path = .ok place) :
    t.slot path = .ok place := by
  rw [slot_eq_ok_iff] at h ⊢
  exact ⟨resolve_of_folders hfolders h.1, hfolders ▸ h.2⟩

/-! ## Files at places

What reading, replacing and removing a file come to once its path was followed.
-/

/-- Reading a path that leads somewhere gives what is kept there. -/
theorem read_of_slot (h : s.slot path = .ok place) :
    s.read path = (s.files.get? place).elim (.error .missing) .ok := by
  rw [read, h]

/-- What a file system holds after a file was replaced by way of a temporary one. -/
def replaced (s : FileSystem) (beside place : PathParts) (contents : Bytes) : FileSystem :=
  { s with files := (s.files.erase beside).insert place contents }

/-- Replacing a file makes and removes no folder. -/
@[simp] theorem folders_replaced (beside place : PathParts) (contents : Bytes) :
    (s.replaced beside place contents).folders = s.folders := rfl

/-- Replacing a file writes at one place and clears the one beside it. -/
theorem get?_replaced (beside place other : PathParts) (contents : Bytes) :
    (s.replaced beside place contents).files.get? other =
      if other = place then some contents else if other = beside then none
        else s.files.get? other := by
  rw [replaced, FinMap.get?_insert, FinMap.get?_erase]

/-- Replacing a file cannot fail where both of its paths lead somewhere. -/
theorem replace_of_slot {temporary : String} {beside : PathParts} {contents : Bytes}
    (htemporary : s.slot temporary = .ok beside) (h : s.slot path = .ok place) :
    s.replace path temporary contents = (.ok (), s.replaced beside place contents) := by
  have hwritten : ({ s with files := s.files.insert beside contents } : FileSystem).slot path =
      .ok place := slot_of_folders (by rfl) h
  rw [replace, htemporary]
  simp only [hwritten, replaced]

/-- What a file system holds after a file was removed. -/
def removed (s : FileSystem) (place : PathParts) : FileSystem :=
  if s.files.contains place then { s with files := s.files.erase place } else s

/-- Removing a file leaves the folders as they are. -/
@[simp] theorem folders_removed (place : PathParts) : (s.removed place).folders = s.folders := by
  unfold removed
  split <;> rfl

/-- Removing a file leaves all other files. -/
theorem get?_removed (place other : PathParts) :
    (s.removed place).files.get? other = if other = place then none else s.files.get? other := by
  unfold removed
  split
  · rw [FinMap.get?_erase]
  · next h =>
    split
    · next hother =>
      subst hother
      simpa [FinMap.contains] using h
    · rfl

/-- A file is removed where there is one; where there is none, nothing changes. -/
theorem remove_of_slot (h : s.slot path = .ok place) :
    (s.remove path).2 = s.removed place ∧
      ((s.remove path).1 = .ok () ∨ (s.remove path).1 = .error .missing) := by
  unfold remove removed
  rw [h]
  dsimp only
  split
  · exact ⟨rfl, .inl rfl⟩
  · exact ⟨rfl, .inr rfl⟩

/-! ## Folders that exist

Opening a store makes its folder, and changes nothing where there is one already.
-/

/-- Making folders along a path that exists finds all of them there. -/
private theorem makeAlong_of_foldlM {pieces : PathParts} {last : PathParts}
    (hfree : ∀ place ∈ s.folders, s.files.contains place = false) (hlast : last ∈ s.folders)
    (h : pieces.foldlM s.enter place = .ok last) :
    makeFolder.makeAlong s place pieces = (.ok (), s) := by
  induction pieces generalizing place with
  | nil => rfl
  | cons piece rest ih =>
    obtain ⟨next, hnext, h⟩ := foldlM_cons_eq_ok_iff.mp h
    obtain ⟨-, hpiece, rfl⟩ := (s.enter_eq_ok_iff ..).mp hnext
    -- a path ends in a folder, and what it goes through on the way it enters
    have hfolder : place.follow piece ∈ s.folders := by
      cases rest with
      | nil => exact Except.ok.inj h ▸ hlast
      | cons piece' rest =>
        obtain ⟨next, hnext, -⟩ := foldlM_cons_eq_ok_iff.mp h
        exact ((s.enter_eq_ok_iff ..).mp hnext).1
    unfold makeFolder.makeAlong
    dsimp only
    rw [if_neg (by simp [hfree _ hfolder, hpiece]), if_pos hfolder]
    exact ih h

/-- Making a folder that exists changes nothing. -/
theorem makeFolder_of_resolve (hfree : ∀ place ∈ s.folders, s.files.contains place = false)
    (h : s.resolve path = .ok place) (hfolder : place ∈ s.folders) :
    s.makeFolder path = (.ok (), s) := by
  unfold resolve at h
  unfold makeFolder
  split at h
  · next hpath =>
    rw [if_pos hpath]
    exact makeAlong_of_foldlM hfree hfolder h
  · cases h

/-! ## Files in a folder

A file of a store is an entry of its folder: the path of the folder leaves room for the name, and
no part of the name is a path.
-/

/-- A name that a file may bear in any folder whose path is not too long. -/
structure EntryName (name : String) : Prop where
  plain : PlainName name.toList
  short : name.utf8ByteSize ≤ 30
  visible : name.toList.all (0 < ·.toNat) = true

/-- A folder that exists and whose path leaves room for the names of its files. -/
structure Room (s : FileSystem) (folder : String) (base : PathParts) : Prop where
  resolves : s.resolve folder = .ok base
  isFolder : base ∈ s.folders
  short : folder.utf8ByteSize ≤ 4064

variable {folder name : String} {base : PathParts}

/-- Room in a folder is a matter of folders too. -/
theorem Room.of_folders (hfolders : t.folders = s.folders) (h : s.Room folder base) :
    t.Room folder base where
  resolves := resolve_of_folders hfolders h.resolves
  isFolder := hfolders ▸ h.isFolder
  short := h.short

/-- A short name in a usable folder is a usable path. -/
private theorem usablePath_joinPath (hname : EntryName name) (hpath : usablePath folder)
    (hshort : folder.utf8ByteSize ≤ 4064) : usablePath (joinPath folder name) := by
  have hsize := hname.short
  have hfolder : folder.toList.all (0 < ·.toNat) = true := by
    simp only [usablePath, decide_eq_true_eq] at hpath
    exact hpath.2
  have hslash : "/".utf8ByteSize = 1 := rfl
  have hvisible := hname.visible
  -- an absolute name replaces the folder; otherwise a slash comes in between, unless it is there
  unfold joinPath
  split
  · simp only [usablePath, decide_eq_true_eq]
    exact ⟨by omega, hvisible⟩
  · split
    · simp only [usablePath, decide_eq_true_eq, String.utf8ByteSize_append, String.toList_append,
        List.all_append, hfolder, hvisible]
      exact ⟨by omega, rfl⟩
    · simp only [usablePath, decide_eq_true_eq, String.utf8ByteSize_append, String.toList_append,
        List.all_append, hfolder, hvisible, hslash]
      exact ⟨by omega, rfl⟩

/-- A file of a folder stands under its name in the folder's place. -/
theorem Room.slot (h : s.Room folder base) (hname : EntryName name)
    (hfree : base ++ [name.toList] ∉ s.folders) :
    s.slot (joinPath folder name) = .ok (base ++ [name.toList]) := by
  have hpath : usablePath folder := by
    have hresolves := h.resolves
    unfold resolve at hresolves
    split at hresolves
    · assumption
    · cases hresolves
  have hpiece : usablePiece name.toList := by
    have := hname.short
    simp only [usablePiece, String.ofList_toList, decide_eq_true_eq]
    omega
  rw [slot_eq_ok_iff]
  exact ⟨resolve_joinPath s h.resolves h.isFolder hname.plain hpiece
    (usablePath_joinPath hname hpath h.short), hfree⟩

end FileSystem

end AmmRollup
