import HomeAutomaton.CommandLine.Run

/-!
# The program

The command on the files of the computer, at the present time.
-/

namespace HomeAutomaton.CommandLine

/-- The files of the computer as a disk. What cannot be done ends the program. -/
def computerDisk : Disk IO where
  find? path := do
    let path := System.mkFilePath [path]
    if ← path.isDir then pure (some .directory)
    else if ← path.pathExists then
      let content ← IO.FS.readBinFile path
      pure (some (.file content.toList))
    else pure none
  makeDirectories path := do
    IO.FS.createDirAll (System.mkFilePath [path])
    pure (.ok ())
  write path content := do
    IO.FS.writeBinFile (System.mkFilePath [path]) ⟨content.toArray⟩
    pure (.ok ())

/-- The present time, which is that of a file that is made now. -/
def presentTime : IO DateTime := do
  let (_, path) ← IO.FS.createTempFile
  let made := (← path.metadata).modified
  IO.FS.removeFile path
  pure (DateTime.ofSeconds made.sec.toNat (made.nsec.toNat / 1000))

end HomeAutomaton.CommandLine

open HomeAutomaton CommandLine

/-- Carries out the command that the arguments ask for. -/
def main (arguments : List String) : IO UInt32 := do
  let outcome ← run computerDisk .whole (← presentTime) arguments
  IO.print outcome.output
  IO.eprint outcome.errors
  match outcome.ending.text? with
  | some text => IO.eprintln text
  | none => pure ()
  pure (UInt32.ofNat outcome.ending.status)
