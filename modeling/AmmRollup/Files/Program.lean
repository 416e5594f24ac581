import AmmRollup.Bytes
import AmmRollup.FinMap
import AmmRollup.Files.Path

/-!
# AmmRollup.Files.Program

Programs over files.  A program is a tree of steps, each of them indivisible, that goes
on with the answer to its last step.  What a program does is said on a `FileSystem`, a
value that holds the contents of every file; `run` carries out all steps of a program
one after another.

A path is followed piece by piece, and every piece but the last has to lead to a folder.
A file is only ever replaced as a whole: its new contents are written beside it and
then take its place.

The main statement is `resolve_joinPath`: a name inside a folder leads to what bears it
there.  Programs are a lawful monad, and `run_andThen` says that `run` carries out one
program after the other.
-/

namespace AmmRollup

/-- Why a file or folder cannot be used. -/
inductive FileFault where
  /-- The file or folder does not exist. -/
  | missing
  /-- The file or folder exists, or cannot, and is not what it should be. -/
  | refused
deriving DecidableEq

/-- Which half of replacing a file failed. -/
inductive ReplaceFault where
  /-- The new contents cannot be written beside the file. -/
  | temporary
  /-- The new contents cannot take the place of the file. -/
  | target
deriving DecidableEq

/-! ## File systems -/

/-- The contents of all files, and the folders they may stand in. -/
structure FileSystem where
  files : FinMap PathParts Bytes
  folders : List PathParts

namespace FileSystem

/-- The file system without files, whose only folder is the outermost. -/
def empty : FileSystem := ⟨∅, [[]]⟩

/-- Goes on from a place, which has to be a folder, to what a piece of a path names. -/
def enter (s : FileSystem) (place : PathParts) (piece : List Char) :
    Except FileFault PathParts :=
  if place ∈ s.folders then
    if usablePiece piece then .ok (place.follow piece) else .error .refused
  else .error (if s.files.contains place then .refused else .missing)

/-- The place that a path leads to, where a file, a folder or nothing may stand. -/
def resolve (s : FileSystem) (path : String) : Except FileFault PathParts :=
  if usablePath path then (splitSlashes path.toList).foldlM s.enter [] else .error .refused

/-- The place of a path, unless a folder stands there. -/
def slot (s : FileSystem) (path : String) : Except FileFault PathParts :=
  match s.resolve path with
  | .ok place => if place ∈ s.folders then .error .refused else .ok place
  | .error fault => .error fault

/-- The contents of a file. -/
def read (s : FileSystem) (path : String) : Except FileFault Bytes :=
  match s.slot path with
  | .ok place => (s.files.get? place).elim (.error .missing) .ok
  | .error fault => .error fault

/-- Writes a file in place. -/
def write (s : FileSystem) (path : String) (contents : Bytes) :
    Except FileFault Unit × FileSystem :=
  match s.slot path with
  | .ok place => (.ok (), { s with files := s.files.insert place contents })
  | .error fault => (.error fault, s)

/-- Removes a file. -/
def remove (s : FileSystem) (path : String) : Except FileFault Unit × FileSystem :=
  match s.slot path with
  | .ok place =>
      if s.files.contains place then (.ok (), { s with files := s.files.erase place })
      else (.error .missing, s)
  | .error fault => (.error fault, s)

/-- Replaces a file by way of a temporary one, which stays where the path is no place for
a file. -/
def replace (s : FileSystem) (path temporary : String) (contents : Bytes) :
    Except ReplaceFault Unit × FileSystem :=
  match s.slot temporary with
  | .error _ => (.error .temporary, s)
  | .ok beside =>
      let written := { s with files := s.files.insert beside contents }
      match written.slot path with
      | .error _ => (.error .target, written)
      | .ok place => (.ok (), { s with files := (s.files.erase beside).insert place contents })

/-- Makes a folder and the folders around it, where they do not exist. -/
def makeFolder (s : FileSystem) (path : String) : Except FileFault Unit × FileSystem :=
  if usablePath path then makeAlong s [] (splitSlashes path.toList) else (.error .refused, s)
where
  /-- Makes every folder that the rest of a path leads through. -/
  makeAlong (s : FileSystem) (place : PathParts) : PathParts → Except FileFault Unit × FileSystem
    | [] => (.ok (), s)
    | piece :: rest =>
        let next := place.follow piece
        if s.files.contains next ∨ ¬ usablePiece piece then (.error .refused, s)
        else if next ∈ s.folders then makeAlong s next rest
        else makeAlong { s with folders := s.folders ++ [next] } next rest

/-! ## Following paths -/

/-- Only a folder can be gone on from. -/
theorem enter_eq_ok_iff (s : FileSystem) (place : PathParts) (piece : List Char)
    (next : PathParts) :
    s.enter place piece = .ok next ↔
      place ∈ s.folders ∧ usablePiece piece ∧ place.follow piece = next := by
  unfold enter
  split
  · split <;> simp_all
  · simp_all

/-- A plain name inside a folder leads to what bears the name there. -/
theorem resolve_joinPath (s : FileSystem) {folder name : String} {place : PathParts}
    (hplace : s.resolve folder = .ok place) (hfolder : place ∈ s.folders)
    (hname : PlainName name.toList) (hpiece : usablePiece name.toList)
    (hpath : usablePath (joinPath folder name)) :
    s.resolve (joinPath folder name) = .ok (place ++ [name.toList]) := by
  have henter : s.enter place name.toList = .ok (place ++ [name.toList]) :=
    (s.enter_eq_ok_iff ..).mpr ⟨hfolder, hpiece, PathParts.follow_plain hname place⟩
  obtain ⟨pieces, hjoin, hpieces⟩ := splitSlashes_joinPath folder hname
  suffices h : pieces.foldlM s.enter [] = .ok place by
    rw [resolve, if_pos hpath, hjoin, List.foldlM_append, h]
    simp only [List.foldlM_cons, List.foldlM_nil, bind_pure]
    exact henter
  unfold resolve at hplace
  split at hplace
  · rcases hpieces with h | h
    · rwa [h] at hplace
    · rw [h, List.foldlM_append] at hplace
      cases hp : pieces.foldlM s.enter [] with
      | error fault => rw [hp] at hplace; cases hplace
      | ok before =>
        rw [hp] at hplace
        simp only [List.foldlM_cons, List.foldlM_nil, bind_pure] at hplace
        rw [← ((s.enter_eq_ok_iff before [] place).mp hplace).2.2]
        simp [PathParts.follow]
  · cases hplace

end FileSystem

/-! ## Programs -/

/-- A program over files with a result. -/
inductive FileProgram (α : Type) where
  | done (result : α)
  | read (path : String) (next : Except FileFault Bytes → FileProgram α)
  | replace (path temporary : String) (contents : Bytes)
      (next : Except ReplaceFault Unit → FileProgram α)
  | remove (path : String) (next : Except FileFault Unit → FileProgram α)
  | makeFolder (path : String) (next : Except FileFault Unit → FileProgram α)

namespace FileProgram

variable {α β : Type}

/-- Goes on with the result of a program. -/
def andThen (p : FileProgram α) (f : α → FileProgram β) : FileProgram β :=
  match p with
  | done a => f a
  | read path next => read path fun r => (next r).andThen f
  | replace path temporary contents next =>
      replace path temporary contents fun r => (next r).andThen f
  | remove path next => remove path fun r => (next r).andThen f
  | makeFolder path next => makeFolder path fun r => (next r).andThen f

instance : Monad FileProgram where
  pure := done
  bind := andThen

/-- The program of one read. -/
def readFile (path : String) : FileProgram (Except FileFault Bytes) := read path done

/-- The program of one replacement, by way of the file's temporary path. -/
def replaceFile (path : String) (contents : Bytes) : FileProgram (Except ReplaceFault Unit) :=
  replace path (temporaryPath path) contents done

/-- The program of one removal. -/
def removeFile (path : String) : FileProgram (Except FileFault Unit) := remove path done

/-- The program that makes one folder. -/
def ensureFolder (path : String) : FileProgram (Except FileFault Unit) := makeFolder path done

/-- Carries out a program. -/
def run : FileProgram α → FileSystem → α × FileSystem
  | done a, s => (a, s)
  | read path next, s => (next (s.read path)).run s
  | replace path temporary contents next, s =>
      (next (s.replace path temporary contents).1).run (s.replace path temporary contents).2
  | remove path next, s => (next (s.remove path).1).run (s.remove path).2
  | makeFolder path next, s => (next (s.makeFolder path).1).run (s.makeFolder path).2

/-! ## Laws -/

@[simp] theorem pure_eq (a : α) : (pure a : FileProgram α) = done a := rfl

@[simp] theorem bind_eq (p : FileProgram α) (f : α → FileProgram β) : p >>= f = p.andThen f := rfl

/-- A program that goes on with another runs first, and the other on what it leaves. -/
theorem run_andThen (p : FileProgram α) (f : α → FileProgram β) (s : FileSystem) :
    (p.andThen f).run s = (f (p.run s).1).run (p.run s).2 := by
  induction p generalizing s with
  | done a => rfl
  | read path next ih => exact ih _ s
  | replace path temporary contents next ih => exact ih _ _
  | remove path next ih => exact ih _ _
  | makeFolder path next ih => exact ih _ _

instance : LawfulMonad FileProgram := by
  refine LawfulMonad.mk' FileProgram ?_ ?_ ?_
  · intro α p
    show p.andThen (fun a => done a) = p
    induction p with
    | done a => rfl
    | read path next ih => exact congrArg (read path) (funext ih)
    | replace path temporary contents next ih =>
      exact congrArg (replace path temporary contents) (funext ih)
    | remove path next ih => exact congrArg (remove path) (funext ih)
    | makeFolder path next ih => exact congrArg (makeFolder path) (funext ih)
  · intro α β a f
    rfl
  · intro α β γ p f g
    show (p.andThen f).andThen g = p.andThen fun a => (f a).andThen g
    induction p with
    | done a => rfl
    | read path next ih => exact congrArg (read path) (funext ih)
    | replace path temporary contents next ih =>
      exact congrArg (replace path temporary contents) (funext ih)
    | remove path next ih => exact congrArg (remove path) (funext ih)
    | makeFolder path next ih => exact congrArg (makeFolder path) (funext ih)

end FileProgram

end AmmRollup
