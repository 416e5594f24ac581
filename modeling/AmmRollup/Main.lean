import AmmRollup.Proposer

/-!
# AmmRollup.Main

The command line of the proposer.  It takes its settings from the environment, carries
out one run on the files of the data directory, and reports what made the run fail.
-/

namespace AmmRollup

/-- The fault behind an error of the file system. -/
def FileFault.ofError : IO.Error → FileFault
  | .noFileOrDirectory .. => .missing
  | _ => .refused

/-- Makes an attempt on the file system and tells how it failed. -/
def attempt {α : Type} (action : IO α) : IO (Except FileFault α) := do
  match ← action.toBaseIO with
  | .ok a => return .ok a
  | .error e => return .error (.ofError e)

/-- Replaces a file by way of a temporary one. -/
def replaceOnDisk (path temporary : String) (contents : Bytes) :
    IO (Except ReplaceFault Unit) := do
  match ← attempt (IO.FS.writeBinFile temporary ⟨contents.toArray⟩) with
  | .error _ => return .error .temporary
  | .ok () =>
      match ← attempt (IO.FS.rename temporary path) with
      | .error _ => return .error .target
      | .ok () => return .ok ()

/-- Carries out a program on the files of the machine. -/
def FileProgram.perform {α : Type} : FileProgram α → IO α
  | .done a => return a
  | .read path next => do
      let contents ← attempt (IO.FS.readBinFile path)
      (next (contents.map fun b => b.data.toList)).perform
  | .replace path temporary contents next => do
      (next (← replaceOnDisk path temporary contents)).perform
  | .remove path next => do (next (← attempt (IO.FS.removeFile path))).perform
  | .makeFolder path next => do (next (← attempt (IO.FS.createDirAll path))).perform

/-- The settings in the environment of the machine. -/
def Config.ofMachine : IO Config := do
  let values ← Config.variableNames.mapM fun name => do return (name, ← IO.getEnv name)
  return Config.ofEnvironment fun name => (values.lookup name).join

end AmmRollup

open AmmRollup in
/-- One run of the proposer; it answers one when the run fails. -/
def main : IO UInt32 := do
  let config ← Config.ofMachine
  match ← (Proposer.run config).run.perform with
  | .ok () => return 0
  | .error failure =>
      IO.eprintln (": ".intercalate failure.messages)
      return 1
