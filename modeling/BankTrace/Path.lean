import BankTrace.Text.Quoted

/-!
# Paths

A path is any byte sequence. Its slashes cut it into segments; empty segments and single dots name
nothing, except a dot at the very front. File name, parent and equality all look at what is left.
-/

namespace BankTrace

/-- One name in a directory. -/
abbrev Name := List UInt8

structure Path where
  bytes : List UInt8
deriving DecidableEq, Repr, Inhabited

namespace Path

/-- The byte that separates names. -/
def slash : UInt8 := 0x2F

/-- The name of a directory in itself. -/
def dot : Name := [0x2E]

/-- The name of a directory's parent in the directory. -/
def dotDot : Name := [0x2E, 0x2E]

def ofString (s : String) : Path := ⟨s.toUTF8.data.toList⟩

/-- The path as text, when it is well-formed UTF-8. -/
def text? (p : Path) : Option String := String.fromUTF8? ⟨p.bytes.toArray⟩

/-- The path in quotes. -/
def quoted (p : Path) : String := Quoted.bytes p.bytes

/-- The path as it is shown to a reader who need not be able to type it. -/
def readable (p : Path) : String := Utf8.readable p.bytes

/-- Whether the path starts at the root directory. -/
def isRooted (p : Path) : Bool := p.bytes.head? == some slash

/-- Whether the path ends in a slash. -/
def endsInSlash (p : Path) : Bool := p.bytes.getLast? == some slash

/-- The stretches between slashes. There is always at least one. -/
def segments (p : Path) : List Name := p.bytes.splitOn slash

/-- Whether a segment behind a slash names nothing. -/
def isIdle (segment : Name) : Bool := segment == [] || segment == dot

/-- A list of segments without the idle ones at its end. -/
def trimIdle (segments : List Name) : List Name := (segments.reverse.dropWhile isIdle).reverse

/-- What a path is made of. -/
inductive Component where
  | root
  | here
  | parent
  | name (n : Name)
deriving DecidableEq, Repr

/-- What a segment behind a slash stands for. -/
def Component.ofSegment? (segment : Name) : Option Component :=
  if isIdle segment then none
  else if segment = dotDot then some .parent
  else some (.name segment)

/-- What the first segment of a path stands for, `more` telling whether a slash follows it. -/
def Component.ofFirst? (segment : Name) (more : Bool) : Option Component :=
  if segment = [] then (if more then some .root else none)
  else if segment = dot then some .here
  else ofSegment? segment

/-- The components of a path, outermost first. -/
def components (p : Path) : List Component :=
  match p.segments with
  | [] => []
  | first :: rest =>
      (Component.ofFirst? first (!rest.isEmpty)).toList ++ rest.filterMap Component.ofSegment?

/-- Two spellings of one path: the same components. -/
def SameAs (p q : Path) : Prop := p.components = q.components

instance (p q : Path) : Decidable (SameAs p q) :=
  inferInstanceAs (Decidable (p.components = q.components))

/-- The last component, when it is a name. -/
def fileName? (p : Path) : Option Name :=
  match p.components.getLast? with
  | some (.name n) => some n
  | _ => none

/-- The path of segments, with a slash between neighbours. -/
def ofSegments (segments : List Name) : Path := ⟨[slash].intercalate segments⟩

/-- The path without its last component. The root and the empty path have no parent. -/
def parent? (p : Path) : Option Path :=
  match p.segments with
  | [] => none
  | first :: rest =>
      match trimIdle rest with
      | [] => if first = [] then none else some ⟨[]⟩
      | named =>
          let outer := trimIdle named.dropLast
          if first = [] ∧ outer = [] then some ⟨[slash]⟩ else some (ofSegments (first :: outer))

/-- The path of an entry of the directory `p`. -/
def child (p : Path) (n : Name) : Path :=
  if p.bytes = [] ∨ p.endsInSlash then ⟨p.bytes ++ n⟩ else ⟨p.bytes ++ slash :: n⟩

/-- The path with its file name, if it has one, replaced. -/
def withFileName (p : Path) (n : Name) : Path :=
  match p.fileName?, p.parent? with
  | some _, some directory => directory.child n
  | _, _ => p.child n

/-- The first `count` of: the path, its parent, the parent of that, and so on. -/
def ancestorsWithin : Nat → Path → List Path
  | 0, _ => []
  | count + 1, p =>
      match p.parent? with
      | none => [p]
      | some directory => p :: ancestorsWithin count directory

/-- The path and all the directories around it, innermost first. A parent is shorter than its
path, so there are no more of them than bytes. -/
def ancestors (p : Path) : List Path := ancestorsWithin (p.bytes.length + 1) p

end Path

end BankTrace
