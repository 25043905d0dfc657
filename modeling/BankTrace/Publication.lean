import BankTrace.Emission
import BankTrace.Host

/-!
# Publication

A trace is written into a partial file beside its output and renamed onto the output when it is
complete. A failure removes the partial file and leaves the output as it was.
-/

namespace BankTrace

variable {m : Type → Type} [Monad m] {Handle : Type} [Host m Handle]

/-- A writer into a file. -/
abbrev FileWriter (Handle : Type) := Writer (Buffered (FileSink Handle))

namespace FileWriter

/-- A writer into a file that is created, or emptied, for it. -/
def create (path : Path) : m (Except IoError (FileWriter Handle)) := do
  return (← Host.createFile path).map fun handle => { sink := { inner := ⟨handle⟩ } }

/-- Gives up the file, passing on what was collected as far as that is possible. -/
def abandon (file : Buffered (FileSink Handle)) : m Unit :=
  discard file.passOn

end FileWriter

namespace Publication

/-- What is added to the name of the output for the partial file. -/
def partialSuffix : List UInt8 := ".partial".toUTF8.data.toList

/-- The path of the partial file, beside the output. -/
def partialPath (output : Path) : Except ConfigError Path :=
  match output.fileName? with
  | some name => .ok (output.withFileName (name ++ partialSuffix))
  | none => .error (.invalidOutputPath output)

/-- Makes the directory of the output if it is missing. -/
def prepareDirectory (output : Path) : ExceptT Error m Unit := do
  match output.parent? with
  | none => pure ()
  | some directory =>
      if directory.bytes = [] then return
      if ← ExceptT.lift (Host.isPresent directory) then return
      Host.attempt ("create output directory " ++ directory.quoted)
        (Host.makeDirectories directory.ancestors)
      Host.note (.directoryCreated directory)

/-- Writes the whole trace with a writer and closes it. Whether or not that succeeds, the file is
given up afterwards. -/
def fill (c : Config) (writer : FileWriter Handle) : m (Except Error (Nat × Handle)) := do
  match Traversal.ofConfig c with
  | .error e =>
      FileWriter.abandon writer.sink
      pure (.error e)
  | .ok t =>
      (Emission.announcement c).forM Host.report
      match ← Emission.drainAll t writer with
      | (.error e, w) =>
          FileWriter.abandon w.sink
          pure (.error e)
      | (.ok (), w) =>
          let dataLines := w.dataLines
          match ← w.close with
          | (.error e, file) =>
              FileWriter.abandon file
              pure (.error e)
          | (.ok (), file) => pure (.ok (dataLines, file.inner.handle))

/-- Writes the partial file and renames it onto the output. -/
def writeAndRename (c : Config) (part : Path) : ExceptT Error m Nat := do
  prepareDirectory c.output
  let writer ← Host.attempt ("create " ++ part.quoted) (FileWriter.create part)
  let (dataLines, handle) ← ExceptT.mk (fill c writer)
  Host.checked (Host.syncFile handle)
  Host.attempt ("publish trace " ++ c.output.quoted) (Host.rename part c.output)
  pure dataLines

/-- Removes the partial file after a failure. One that is missing needs no removal. -/
def removePartial (part : Path) : m Unit := do
  match ← Host.removeFile part with
  | .ok () => Host.report (.partialRemoved part)
  | .error .notFound => pure ()
  | .error e => Host.report (.partialLeft part e)

/-- Writes the trace of a configuration to its output. -/
def publish (c : Config) : m (Except Error Summary) := do
  match c.validate, partialPath c.output with
  | .error e, _ => pure (.error (.config e))
  | .ok (), .error e => pure (.error (.config e))
  | .ok (), .ok part =>
      Host.report (.writing c.opcode c.output)
      match ← (writeAndRename c part).run with
      | .ok dataLines =>
          Host.report (.written dataLines c.output)
          pure (.ok ⟨dataLines, some c.output⟩)
      | .error e =>
          removePartial part
          pure (.error e)

end Publication

/-- Writes instructions to a file and closes it. -/
def writeTraceFile (path : Path) (instructions : List Instruction) : m (Except Error Nat) := do
  match ← FileWriter.create path with
  | .error e => pure (.error (.io e))
  | .ok writer =>
      match ← writer.writeAll instructions with
      | (.error e, w) =>
          FileWriter.abandon w.sink
          pure (.error e)
      | (.ok (), w) =>
          let dataLines := w.dataLines
          match ← w.close with
          | (.error e, file) =>
              FileWriter.abandon file
              pure (.error e)
          | (.ok (), _) => pure (.ok dataLines)

end BankTrace
