import BankTrace.FileTree
import BankTrace.Host
import BankTrace.Proofs.World

/-!
# Faulty hosts

A host on which every operation on files may fail. It remembers the operations and the tree behind
each of them. A process that is killed leaves one of these trees, or the one it started from.
-/

namespace BankTrace

inductive Fault where
  | none
  /-- A write takes no more than so many of the bytes. -/
  | short (most : Nat)
  /-- The operation fails. A write has put so many of the bytes into the file before that. -/
  | failure (cause : IoError) (written : Nat)

inductive Operation where
  /-- Looks at what is at a path. -/
  | look (p : Path)
  | makeDirectory (p : Path)
  | createFile (p : Path)
  | writeFile (file : OpenFile) (bytes : ByteArray)
  | syncFile (file : OpenFile)
  | rename (source target : Path)
  | removeFile (p : Path)

structure Step where
  operation : Operation
  succeeded : Bool
  /-- The tree behind the operation. -/
  tree : FileTree

structure FaultyHost where
  tree : FileTree
  /-- The working directory. -/
  here : Location
  /-- What meets the first operation, the second, and so on. -/
  faults : Nat → Fault
  /-- What was carried out, the latest first. -/
  history : List Step := []

namespace FaultyHost

def after (host : FaultyHost) (operation : Operation) (succeeded : Bool) (tree : FileTree) :
    FaultyHost :=
  { host with tree, history := ⟨operation, succeeded, tree⟩ :: host.history }

/-- Carries an operation out. The fault that meets it has a say in what it does. -/
def perform {α : Type} (operation : Operation)
    (work : Fault → FileTree → Location → Except IoError α × FileTree) :
    StateM FaultyHost (Except IoError α) :=
  fun host =>
    let (result, tree) := work (host.faults host.history.length) host.tree host.here
    (result, host.after operation result.isOk tree)

/-- A change of the tree that is made as a whole or not at all. -/
def whole {α : Type} (change : FileTree → Location → Except IoError (α × FileTree)) (fault : Fault)
    (tree : FileTree) (here : Location) : Except IoError α × FileTree :=
  match fault, change tree here with
  | .failure cause _, _ => (.error cause, tree)
  | _, .error cause => (.error cause, tree)
  | _, .ok (a, tree) => (.ok a, tree)

/-- Bytes that are added to a file as far as the fault lets them. -/
def appended (file : OpenFile) (bytes : ByteArray) (fault : Fault) (tree : FileTree)
    (_ : Location) : Except IoError Nat × FileTree :=
  match file, fault with
  | .full, _ => (.error .noSpace, tree)
  | .file number, .none => (.ok bytes.size, tree.changeFile number (· ++ bytes))
  | .file number, .short most =>
      let taken := min most bytes.size
      (.ok taken, tree.changeFile number (· ++ bytes.extract 0 taken))
  | .file number, .failure cause written =>
      (.error cause, tree.changeFile number (· ++ bytes.extract 0 written))

def look {α : Type} (p : Path) (answer : FileTree → Location → Except IoError α) :
    StateM FaultyHost (Except IoError α) :=
  perform (.look p) (whole fun tree here => (answer tree here).map (·, tree))

def edit (operation : Operation) (change : FileTree → Location → Except IoError FileTree) :
    StateM FaultyHost (Except IoError Unit) :=
  perform operation (whole fun tree here => (change tree here).map ((), ·))

/-- A question that a fault meets gets the answer no. -/
instance : Host (StateM FaultyHost) OpenFile where
  readFile p := look p fun tree here => tree.read here p
  isPresent p := return (← look p fun tree here => tree.find here p).isOk
  isDirectory p := do
    match ← look p fun tree here => tree.find here p with
    | .ok (_, entry) => pure entry.isDirectory
    | .error _ => pure false
  makeDirectory p := edit (.makeDirectory p) fun tree here => tree.makeDirectory here p
  createFile p := perform (.createFile p) (whole fun tree here => tree.create here p)
  writeFile file bytes := perform (.writeFile file bytes) (appended file bytes)
  syncFile file := edit (.syncFile file) fun tree _ => .ok tree
  rename source target :=
    edit (.rename source target) fun tree here => tree.rename here source target
  removeFile p := edit (.removeFile p) fun tree here => tree.remove here p
  report _ := pure ()

/-! ## What operations do -/

open World (run)

theorem run_perform_of_none {α : Type} (operation : Operation)
    (work : Fault → FileTree → Location → Except IoError α × FileTree) {host : FaultyHost}
    (h : host.faults host.history.length = .none) :
    run (perform operation work) host = ((work .none host.tree host.here).1,
      host.after operation (work .none host.tree host.here).1.isOk
        (work .none host.tree host.here).2) := by
  rw [← h]
  rfl

theorem run_look_of_none {α : Type} (p : Path) (answer : FileTree → Location → Except IoError α)
    {host : FaultyHost} (h : host.faults host.history.length = .none) :
    run (look p answer) host = (answer host.tree host.here,
      host.after (.look p) (answer host.tree host.here).isOk host.tree) := by
  rw [look, run_perform_of_none _ _ h]
  cases hanswer : answer host.tree host.here <;> simp [whole, hanswer, Except.map]

/-- An operation that is made as a whole or not at all has done what it was asked or nothing. -/
theorem run_whole {α : Type} (operation : Operation)
    (change : FileTree → Location → Except IoError (α × FileTree)) (host : FaultyHost) :
    ∃ result tree, run (perform operation (whole change)) host =
        (result, host.after operation result.isOk tree) ∧
      (∀ a, result = .ok a → change host.tree host.here = .ok (a, tree)) ∧
      ∀ e, result = .error e → tree = host.tree := by
  refine ⟨_, _, rfl, ?_⟩
  cases host.faults host.history.length <;> cases h : change host.tree host.here <;> simp

theorem run_edit (operation : Operation)
    (change : FileTree → Location → Except IoError FileTree) (host : FaultyHost) :
    ∃ result tree, run (edit operation change) host =
        (result, host.after operation result.isOk tree) ∧
      (result = .ok () → change host.tree host.here = .ok tree) ∧
      ∀ e, result = .error e → tree = host.tree := by
  obtain ⟨result, tree, hrun, hok, herror⟩ := run_whole operation
    (fun tree here => (change tree here).map ((), ·)) host
  refine ⟨result, tree, hrun, fun hresult => ?_, herror⟩
  have hchange := hok () hresult
  cases h : change host.tree host.here with
  | error e => simp [h, Except.map] at hchange
  | ok tree' =>
      obtain rfl : tree' = tree := by simpa [h, Except.map] using hchange
      rfl

theorem run_look {α : Type} (p : Path) (answer : FileTree → Location → Except IoError α)
    (host : FaultyHost) :
    ∃ result, run (look p answer) host = (result, host.after (.look p) result.isOk host.tree) := by
  obtain ⟨result, tree, hrun, hok, herror⟩ := run_whole (.look p)
    (fun tree here => (answer tree here).map (·, tree)) host
  refine ⟨result, ?_⟩
  cases result with
  | error e => rw [← herror e rfl]; exact hrun
  | ok a =>
      have hanswer := hok a rfl
      cases h : answer host.tree host.here with
      | error e => simp [h, Except.map] at hanswer
      | ok a' =>
          obtain ⟨-, rfl⟩ : a' = a ∧ host.tree = tree := by simpa [h, Except.map] using hanswer
          exact hrun

/-- A write puts some of the bytes behind the content of the file, those it counts if it
succeeds. -/
theorem run_writeFile (number : Nat) (bytes : ByteArray) (host : FaultyHost) :
    ∃ result taken, run (Host.writeFile (m := StateM FaultyHost) (.file number) bytes) host =
        (result, host.after (.writeFile (.file number) bytes) result.isOk
          (host.tree.changeFile number (· ++ taken))) ∧
      ∀ count, result = .ok count → count ≤ bytes.size ∧ taken = bytes.extract 0 count := by
  change ∃ result taken,
    (_, host.after _ (Except.isOk (appended _ bytes _ host.tree host.here).1) _) = _ ∧ _
  cases hfault : host.faults host.history.length with
  | none =>
      refine ⟨.ok bytes.size, bytes, rfl, fun count h => ?_⟩
      obtain rfl := Except.ok.inj h
      simp
  | short most =>
      refine ⟨.ok (min most bytes.size), bytes.extract 0 (min most bytes.size), rfl,
        fun count h => ?_⟩
      obtain rfl := Except.ok.inj h
      exact ⟨Nat.min_le_right _ _, rfl⟩
  | failure cause written =>
      exact ⟨.error cause, bytes.extract 0 written, rfl, by simp⟩

end FaultyHost

end BankTrace
