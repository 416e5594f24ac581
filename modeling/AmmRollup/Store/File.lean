import AmmRollup.Files.Program
import AmmRollup.Store.Cursors
import AmmRollup.Store.Encoding

/-!
# AmmRollup.Store.File

The proof store that lives in a folder: a file for every proof, a file for the merged
proof, and a file for the cursors.  The cursors are read on every call, so several users
of one folder see each other's work.  A store keeps nothing but the folder's path.

Cursors are natural numbers until they are written, and are read as 64-bit numbers.  A proof
kept at index `2 ^ 64 - 1` is therefore counted by a number that cannot be read again; what
is proved of a store of files is proved for indexes below it.
-/

namespace AmmRollup

namespace FileStore

/-! ## Names -/

/-- The decimal digits of an index, filled with zeros to ten. -/
def paddedIndex (index : Nat) : List Char :=
  let digits := Nat.toDigits 10 index
  List.replicate (10 - digits.length) '0' ++ digits

/-- The name of the file of a step's proof. -/
def proofName (index : Nat) : String :=
  String.ofList ("proof-".toList ++ paddedIndex index ++ ".bin".toList)

/-- The name of the file of the merged proof. -/
def mergedName : String := "merged.bin"

/-- The name of the file of the cursors. -/
def cursorsName : String := "meta.json"

/-! ## Files -/

/-- A program over files that may be refused. -/
abbrev FileCall (α : Type) := ExceptT StoreError FileProgram α

/-- The contents of a file, if it exists. -/
def load (path : String) : FileCall (Option Bytes) := do
  match ← FileProgram.readFile path with
  | .ok contents => return some contents
  | .error .missing => return none
  | .error .refused => throw .io

/-- Replaces a file. -/
def save (path : String) (contents : Bytes) : FileCall Unit := do
  match ← FileProgram.replaceFile path contents with
  | .ok () => return ()
  | .error _ => throw .io

/-- The proof that the contents of a file stand for. -/
def decode (contents : Bytes) : FileCall Proof :=
  match Proof.decode? contents with
  | some proof => return proof
  | none => throw .codec

/-- The cursors of a folder; without a file they are zero. -/
def loadCursors (folder : String) : FileCall Cursors := do
  match ← load (joinPath folder cursorsName) with
  | none => return .zero
  | some contents =>
      match Json.read? contents with
      | some cursors => return cursors
      | none => throw .codec

/-- Replaces the cursors of a folder. -/
def saveCursors (folder : String) (cursors : Cursors) : FileCall Unit :=
  save (joinPath folder cursorsName) (Json.prettyBytes cursors)

/-! ## Operations -/

/-- Makes the folder of a store, and checks that its cursors can be read. -/
def openAt (folder : String) : FileCall Unit := do
  match ← FileProgram.ensureFolder folder with
  | .ok () => discard <| loadCursors folder
  | .error _ => throw .io

/-- The proof of a step. -/
def get (folder : String) (index : Nat) : FileCall Proof := do
  match ← load (joinPath folder (proofName index)) with
  | some contents => decode contents
  | none => throw (.notFound index)

/-- Keeps the proof of a step, and then counts it.  The count is not bounded here, but it is
where it is read. -/
def put (folder : String) (index : Nat) (proof : Proof) : FileCall Unit := do
  save (joinPath folder (proofName index)) proof.encode
  let cursors ← loadCursors folder
  if cursors.proofCount ≤ index then
    saveCursors folder { cursors with proofCount := index + 1 }

/-- The merged proof, while its window holds any step. -/
def getMerged (folder : String) : FileCall (Option Proof) := do
  let cursors ← loadCursors folder
  if cursors.window.nonempty then
    match ← load (joinPath folder mergedName) with
    | some contents => return some (← decode contents)
    | none => return none
  else
    return none

/-- Keeps a merged proof, and then moves the end of its window. -/
def putMerged (folder : String) (proof : Proof) (stop : Nat) : FileCall Unit := do
  let cursors ← loadCursors folder
  ofExcept (cursors.window.checkStop stop)
  save (joinPath folder mergedName) proof.encode
  saveCursors folder { cursors with window := { cursors.window with stop } }

/-- Opens an empty window, which hides the merged proof, and then removes that. -/
def startMerge (folder : String) (start : Nat) : FileCall Unit := do
  let cursors ← loadCursors folder
  saveCursors folder { cursors with window := ⟨start, start⟩ }
  match ← FileProgram.removeFile (joinPath folder mergedName) with
  | .ok () | .error .missing => return ()
  | .error .refused => throw .io

/-- Marks the steps below `stop` as settled. -/
def setSettledUntil (folder : String) (stop : Nat) : FileCall Unit := do
  let cursors ← loadCursors folder
  saveCursors folder { cursors with settledUntil := stop }

end FileStore

/-- The operations on the store in a folder. -/
def ProofStore.files (folder : String) : ProofStore FileProgram where
  get := FileStore.get folder
  put := FileStore.put folder
  getMerged := FileStore.getMerged folder
  putMerged := FileStore.putMerged folder
  startMerge := FileStore.startMerge folder
  proofCount := do return (← FileStore.loadCursors folder).proofCount
  mergedWindow := do return (← FileStore.loadCursors folder).window
  settledUntil := do return (← FileStore.loadCursors folder).settledUntil
  setSettledUntil := FileStore.setSettledUntil folder

end AmmRollup
