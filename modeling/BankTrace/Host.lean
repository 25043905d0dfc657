import BankTrace.Event
import BankTrace.Sink

/-!
# Hosts

What the library asks of the machine it runs on: files, directories and a log.
-/

namespace BankTrace

/-- Hosts that are worked with in `m` and know an open file by a `Handle`. -/
class Host (m : Type → Type) (Handle : outParam Type) where
  /-- The bytes of a file. -/
  readFile : Path → m (Except IoError ByteArray)
  /-- Whether a path leads to anything. -/
  isPresent : Path → m Bool
  /-- Whether a path leads to a directory. -/
  isDirectory : Path → m Bool
  /-- Makes one directory in a directory that exists. -/
  makeDirectory : Path → m (Except IoError Unit)
  /-- Opens a file for writing, empty. -/
  createFile : Path → m (Except IoError Handle)
  /-- Writes bytes behind those written before, as many as fit. -/
  writeFile : Handle → ByteArray → m (Except IoError Nat)
  /-- Waits until what was written cannot be lost any more. -/
  syncFile : Handle → m (Except IoError Unit)
  /-- Moves a file to another path, in place of the file that may be there. -/
  rename : Path → Path → m (Except IoError Unit)
  /-- Removes a file. -/
  removeFile : Path → m (Except IoError Unit)
  report : Event → m Unit

/-- An open file as a sink. -/
structure FileSink (Handle : Type) where
  handle : Handle

namespace Host

variable {m : Type → Type} [Monad m] {Handle : Type} [Host m Handle]

instance : Sink m (FileSink Handle) where
  write file bytes := return (← writeFile file.handle bytes, file)
  flush file := pure (.ok (), file)

/-- An operation on a file among others that may fail. -/
def checked {α : Type} (operation : m (Except IoError α)) : ExceptT Error m α :=
  ExceptT.mk do return (← operation).mapError .io

/-- An operation on a file that makes up a step. -/
def attempt {α : Type} (step : String) (operation : m (Except IoError α)) : ExceptT Error m α :=
  during step (checked operation)

/-- Reports an event between operations that may fail. -/
def note (event : Event) : ExceptT Error m Unit := ExceptT.lift (report event)

/-- The text of a file. -/
def readText (path : Path) : m (Except IoError String) := do
  match ← readFile path with
  | .error e => pure (.error e)
  | .ok bytes =>
      match String.fromUTF8? bytes with
      | some text => pure (.ok text)
      | none => pure (.error .notText)

/-- Makes a file with the given bytes. -/
def writeWhole (path : Path) (bytes : ByteArray) : m (Except IoError Unit) := do
  match ← createFile path with
  | .error e => pure (.error e)
  | .ok handle =>
      let (result, _) ← Sink.offer (FileSink.mk handle) bytes
      pure result

/-- Makes the first of the directories, given with the directories around it, innermost first.
Where one is missing those around it are made before, and one that is there already will do. -/
def makeDirectories : List Path → m (Except IoError Unit)
  | [] => pure (.error (.other "failed to create whole tree"))
  | path :: around => do
      if path.components = [] then return .ok ()
      match ← makeDirectory path with
      | .ok () => return .ok ()
      | .error .notFound =>
          match ← makeDirectories around with
          | .error e => return .error e
          | .ok () =>
              match ← makeDirectory path with
              | .ok () => return .ok ()
              | .error e => return if ← isDirectory path then .ok () else .error e
      | .error e => return if ← isDirectory path then .ok () else .error e

end Host

end BankTrace
