import BankTrace.FileTree
import BankTrace.Host

/-!
# Hosts in memory

A host whose files are a file tree and whose log is a list.
-/

namespace BankTrace

structure MemoryHost where
  tree : FileTree
  /-- The working directory. -/
  here : Location
  /-- What was reported, the latest first. -/
  log : List Event := []

namespace MemoryHost

instance : Inhabited MemoryHost := ⟨{ tree := default, here := [] }⟩

/-- A change of the file tree. One that fails changes nothing. -/
def edit (change : FileTree → Location → Except IoError FileTree) :
    StateM MemoryHost (Except IoError Unit) :=
  fun host =>
    match change host.tree host.here with
    | .error e => (.error e, host)
    | .ok tree => (.ok (), { host with tree })

/-- Opens a file for writing. -/
def create (p : Path) : StateM MemoryHost (Except IoError OpenFile) :=
  fun host =>
    match host.tree.create host.here p with
    | .error e => (.error e, host)
    | .ok (file, tree) => (.ok file, { host with tree })

/-- Adds bytes to an open file. -/
def write (file : OpenFile) (bytes : ByteArray) : StateM MemoryHost (Except IoError Nat) :=
  fun ⟨tree, here, log⟩ =>
    match file with
    | .full => (.error .noSpace, ⟨tree, here, log⟩)
    | .file number => (.ok bytes.size, ⟨tree.changeFile number (· ++ bytes), here, log⟩)

instance : Host (StateM MemoryHost) OpenFile where
  readFile p := return (← get).tree.read (← get).here p
  isPresent p := return ((← get).tree.find (← get).here p).isOk
  isDirectory p := do
    let host ← get
    match host.tree.find host.here p with
    | .ok (_, entry) => pure entry.isDirectory
    | .error _ => pure false
  makeDirectory p := edit fun tree here => tree.makeDirectory here p
  createFile := create
  writeFile := write
  syncFile _ := pure (.ok ())
  rename source target := edit fun tree here => tree.rename here source target
  removeFile p := edit fun tree here => tree.remove here p
  report event := modify fun host => { host with log := event :: host.log }

/-- What was reported, in order. -/
def events (host : MemoryHost) : List Event := host.log.reverse

/-- Everything below the working directory. -/
def files (host : MemoryHost) : List (Path × Entry) := host.tree.below host.here

end MemoryHost

end BankTrace
