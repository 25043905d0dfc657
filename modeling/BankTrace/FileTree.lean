import BankTrace.Error

/-!
# File trees

Directories, files and links, and what the file operations do to them. A path is followed name by
name; a symbolic link on the way puts its target in the place of its name.
-/

namespace BankTrace

/-- Where an entry is: the names that lead to it from the root, innermost first. The root itself
has no name. -/
abbrev Location := List Name

/-- What can stand at a location. -/
inductive Entry where
  | directory
  /-- A file. Entries with the same number are one file under several names, and what is written
  to it is written to all of them. -/
  | file (number : Nat) (content : ByteArray)
  /-- A symbolic link. -/
  | link (target : Path)
  /-- A device that holds nothing and never has room for anything. -/
  | full

namespace Entry

def isDirectory : Entry → Bool
  | directory => true
  | _ => false

/-- The number of a file. -/
def number? : Entry → Option Nat
  | file number _ => some number
  | _ => none

/-- The entry with a change to the content of a file, if it is that file. -/
def changeFile (number : Nat) (change : ByteArray → ByteArray) : Entry → Entry
  | file n content => if n = number then file n (change content) else file n content
  | entry => entry

end Entry

/-- A file that is open for writing. -/
inductive OpenFile where
  | file (number : Nat)
  | full
deriving DecidableEq, Repr

/-- The entries below a root directory, each at its own location. Only what is in a directory
counts, so any list makes a tree. -/
structure FileTree where
  entries : List (Location × Entry)

namespace FileTree

instance : Inhabited FileTree := ⟨⟨[]⟩⟩

/-! ### Entries -/

/-- The entry at a location, if the location is in a directory. -/
def entry? (t : FileTree) : Location → Option Entry
  | [] => some .directory
  | name :: around =>
      match t.entry? around with
      | some .directory => t.entries.lookup (name :: around)
      | _ => none

/-- Whether a directory is at a location. -/
def isDirectory (t : FileTree) (location : Location) : Bool :=
  (t.entry? location).any Entry.isDirectory

/-- Whether the file of an entry is also at a location. -/
def isAlso (t : FileTree) (location : Location) (entry : Entry) : Bool :=
  match entry.number?, t.entry? location with
  | some number, some other => other.number? == some number
  | _, _ => false

/-- The tree with a change to the content of a file, wherever the file is. -/
def changeFile (t : FileTree) (number : Nat) (change : ByteArray → ByteArray) : FileTree :=
  ⟨t.entries.map fun (location, entry) => (location, entry.changeFile number change)⟩

/-- A number that no file has. -/
def freshNumber (t : FileTree) : Nat :=
  t.entries.foldr (fun e least => max least ((e.2.number?.map (· + 1)).getD 0)) 0

/-- The tree without an entry and without everything in it. -/
def erase (t : FileTree) (location : Location) : FileTree :=
  ⟨t.entries.filter fun e => ¬ location <:+ e.1⟩

/-- The tree with an entry at a location, in place of the one that may be there. -/
def insert (t : FileTree) (location : Location) (entry : Entry) : FileTree :=
  ⟨(location, entry) :: (t.erase location).entries⟩

/-! ### Paths -/

/-- The number of bytes a name may have. -/
def maxNameLength : Nat := 255

/-- The number of bytes a path may have. -/
def maxPathLength : Nat := 4095

/-- The number of links that are followed on the way of one path. -/
def maxLinkCount : Nat := 40

/-- What a path is followed for. -/
inductive Purpose where
  | find
  | create
deriving DecidableEq, Repr

/-- The names a path is followed by. -/
def names (p : Path) : List Name := p.segments.filter fun segment => segment != []

/-- The directory a path starts from. -/
def start (here : Location) (p : Path) : Location := if p.isRooted then [] else here

/-- The location that names lead to from a directory; the last of them may be missing. Where a link
is met, `onLink` goes on from the directory and the names it is given. If `closed`, a slash follows
the last name, which can then only be a directory, and not one that is created. -/
def descend (t : FileTree) (purpose : Purpose)
    (onLink : Bool → Location → List Name → Except IoError Location) (closed : Bool) :
    Location → List Name → Except IoError Location
  | here, [] => .ok here
  | here, name :: rest =>
      if name = Path.dot then t.descend purpose onLink closed here rest
      else if name = Path.dotDot then t.descend purpose onLink closed here.tail rest
      else if rest = [] ∧ closed ∧ purpose = .create then .error .isDirectory
      else if maxNameLength < name.length then .error .nameTooLong
      else
        match t.entry? (name :: here) with
        | some .directory => t.descend purpose onLink closed (name :: here) rest
        | some (.link target) =>
            onLink (closed || (rest.isEmpty && target.endsInSlash)) (start here target)
              (names target ++ rest)
        | some _ => if rest = [] ∧ !closed then .ok (name :: here) else .error .notDirectory
        | none => if rest = [] then .ok (name :: here) else .error .notFound

/-- The location that names lead to when at most so many links are followed. -/
def follow (t : FileTree) (purpose : Purpose) :
    Nat → Bool → Location → List Name → Except IoError Location
  | 0 => t.descend purpose fun _ _ _ => .error .tooManyLinks
  | links + 1 => t.descend purpose (t.follow purpose links)

/-- Why a path leads nowhere in any tree. -/
def pathFault? (p : Path) : Option IoError :=
  if 0 ∈ p.bytes then some .zeroInPath
  else if p.bytes = [] then some .notFound
  else if maxPathLength < p.bytes.length then some .nameTooLong
  else none

/-- The location that names of a path lead to from the directory the path starts from. -/
def walk (t : FileTree) (purpose : Purpose) (closed : Bool) (here : Location) (p : Path)
    (names : List Name) : Except IoError Location :=
  match pathFault? p with
  | some fault => .error fault
  | none =>
      if t.isDirectory (start here p) then t.follow purpose maxLinkCount closed (start here p) names
      else .error .notFound

/-- The location a path leads to, links at its end being followed. -/
def locate (t : FileTree) (purpose : Purpose) (here : Location) (p : Path) :
    Except IoError Location :=
  t.walk purpose p.endsInSlash here p (names p)

/-- The entry a path leads to, links at its end being followed. -/
def find (t : FileTree) (here : Location) (p : Path) : Except IoError (Location × Entry) := do
  let location ← t.locate .find here p
  match t.entry? location with
  | some entry => .ok (location, entry)
  | none => .error .notFound

/-- The directory an entry is in and the entry's name, a link at the end of the path not being
followed. A path that ends in a dot, or leads to the root, gives no name. -/
def holder (t : FileTree) (here : Location) (p : Path) :
    Except IoError (Location × Option Name) := do
  let directory ← t.walk .find true here p (names p).dropLast
  if !t.isDirectory directory then .error .notFound
  let name := (names p).getLast?.filter fun name => name != Path.dot && name != Path.dotDot
  .ok (directory, name)

/-- Where a name in a directory is, if it is not too long. -/
def childLocation (directory : Location) (name : Name) : Except IoError Location :=
  if maxNameLength < name.length then .error .nameTooLong else .ok (name :: directory)

/-! ### File operations -/

/-- The bytes of a file. -/
def read (t : FileTree) (here : Location) (p : Path) : Except IoError ByteArray := do
  match ← t.find here p with
  | (_, .directory) => .error .isDirectory
  | (_, .file _ content) => .ok content
  | _ => .ok .empty

/-- Makes one directory. -/
def makeDirectory (t : FileTree) (here : Location) (p : Path) : Except IoError FileTree := do
  match ← t.holder here p with
  | (_, none) => .error .fileExists
  | (directory, some name) =>
      let location ← childLocation directory name
      match t.entry? location with
      | some _ => .error .fileExists
      | none => .ok (t.insert location .directory)

/-- Makes a symbolic link. -/
def makeLink (t : FileTree) (here : Location) (p target : Path) : Except IoError FileTree := do
  match ← t.holder here p with
  | (_, none) => .error .fileExists
  | (directory, some name) =>
      let location ← childLocation directory name
      match t.entry? location with
      | some _ => .error .fileExists
      | none =>
          if p.endsInSlash then .error .notFound
          else .ok (t.insert location (.link target))

/-- Opens a file for writing: makes it if it is missing and empties it if it is there. -/
def create (t : FileTree) (here : Location) (p : Path) : Except IoError (OpenFile × FileTree) := do
  let location ← t.locate .create here p
  match t.entry? location with
  | some (.file number _) => .ok (.file number, t.changeFile number fun _ => .empty)
  | some .full => .ok (.full, t)
  | some _ => .error .isDirectory
  | none =>
      let number := t.freshNumber
      .ok (.file number, t.insert location (.file number .empty))

/-- Removes a file or a link. -/
def remove (t : FileTree) (here : Location) (p : Path) : Except IoError FileTree := do
  match ← t.holder here p with
  | (_, none) => .error .isDirectory
  | (directory, some name) =>
      let location ← childLocation directory name
      match t.entry? location with
      | none => .error .notFound
      | some .directory => .error .isDirectory
      | some _ => if p.endsInSlash then .error .notDirectory else .ok (t.erase location)

/-- Moves a file or a link, in place of the one that may be at the other path. Directories stay
where they are, and two names of one file both remain. -/
def rename (t : FileTree) (here : Location) (source target : Path) : Except IoError FileTree := do
  let (sourceDirectory, sourceName?) ← t.holder here source
  let (targetDirectory, targetName?) ← t.holder here target
  match sourceName?, targetName? with
  | some sourceName, some targetName =>
      let sourceLocation ← childLocation sourceDirectory sourceName
      match t.entry? sourceLocation with
      | none => .error .notFound
      | some .directory => .error .isDirectory
      | some entry =>
          let targetLocation ← childLocation targetDirectory targetName
          if source.endsInSlash || target.endsInSlash then .error .notDirectory
          if sourceLocation = targetLocation then .ok t
          else if t.isAlso targetLocation entry then .ok t
          else if t.isDirectory targetLocation then .error .isDirectory
          else .ok ((t.erase sourceLocation).insert targetLocation entry)
  | _, _ => .error .busy

/-! ### Listing -/

/-- The names that lead to a location from a directory around it, outermost first. -/
def within? (directory location : Location) : Option (List Name) :=
  let depth := location.length - directory.length
  if depth ≠ 0 ∧ location.drop depth = directory then some (location.take depth).reverse else none

/-- Whether one path comes before another, byte by byte. -/
def pathBefore (p q : Path) : Bool := p.bytes ≤ q.bytes

/-- Everything below a directory, by paths from there in the order of their bytes. -/
def below (t : FileTree) (directory : Location) : List (Path × Entry) :=
  ((t.entries.filter fun e => t.isDirectory e.1.tail).filterMap fun (location, entry) =>
    (within? directory location).map fun names => (Path.ofSegments names, entry)).mergeSort
    fun a b => pathBefore a.1 b.1

end FileTree

end BankTrace
