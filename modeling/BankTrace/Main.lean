import BankTrace.CommandLine

/-!
# The program

The machine the program runs on, as a host, and the program itself.
-/

namespace BankTrace

/-- The errors that are told by their numbers. -/
def IoError.ofNumber? : Nat → Option IoError
  | 20 => some .notDirectory
  | 21 => some .isDirectory
  | 28 => some .noSpace
  | 36 => some .nameTooLong
  | 40 => some .tooManyLinks
  | _ => none

/-- The number behind a code, which may be the number negated. -/
def errorNumber (code : UInt32) : Nat := min code.toNat (0 - code).toNat

/-- The error of a file operation that the machine reports. -/
def IoError.ofReport (e : IO.Error) : IoError :=
  match e with
  | .noFileOrDirectory .. => .notFound
  | .alreadyExists .. => .fileExists
  | .resourceBusy .. => .busy
  | .inappropriateType _ code _ | .resourceExhausted _ code _ | .invalidArgument _ code _ =>
      (ofNumber? (errorNumber code)).getD (.other (toString e))
  | e => .other (toString e)

/-- What runs on the machine knows which events are shown. -/
abbrev Machine := ReaderT CommandLine.Options IO

namespace Machine

/-- Does something and keeps the error, if one comes up. -/
def observe {α : Type} (action : IO α) : Machine (Except IoError α) :=
  fun _ => do
    match ← action.toBaseIO with
    | .ok a => pure (.ok a)
    | .error e => pure (.error (IoError.ofReport e))

/-- Does something with the text of a path. -/
def withPath {α : Type} (path : Path) (action : String → IO α) : Machine (Except IoError α) :=
  if 0 ∈ path.bytes then pure (.error .zeroInPath)
  else match path.text? with
    | some text => observe (action text)
    | none => pure (.error .notFound)

/-- Whether a path can be opened for reading, a directory included. -/
def canOpen (path : Path) : Machine Bool := do
  let opened ← withPath path fun text => discard (IO.FS.Handle.mk text .read)
  pure opened.isOk

instance : Host Machine IO.FS.Handle where
  readFile path := withPath path fun text => IO.FS.readBinFile text
  isPresent := canOpen
  isDirectory path := canOpen (path.child Path.dot)
  makeDirectory path := withPath path fun text => IO.FS.createDir text
  createFile path := withPath path fun text => IO.FS.Handle.mk text .write
  writeFile handle bytes := observe do
    handle.write bytes
    handle.flush
    pure bytes.size
  syncFile handle := observe handle.flush
  rename source target := do
    match source.text?, target.text? with
    | some source, some target => observe (IO.FS.rename source target)
    | _, _ => pure (.error .notFound)
  removeFile path := withPath path fun text => IO.FS.removeFile text
  report event := fun options => do
    if options.shows event then IO.eprintln event.line

end Machine

namespace CommandLine

/-- Runs a command on the machine. -/
def Command.perform (command : Command) : IO Outcome :=
  let options := match command with
    | .run options => options
    | .help => {}
  (command.outcome : Machine Outcome).run options

end CommandLine

end BankTrace

def main (arguments : List String) : IO UInt32 := do
  let outcome ← match BankTrace.CommandLine.parse (arguments.map fun a => a.toUTF8.data.toList) with
    | .error e => pure (BankTrace.CommandLine.Outcome.ofUsage e)
    | .ok command => command.perform
  IO.print outcome.printed
  IO.eprint outcome.complaint
  pure outcome.exitCode
