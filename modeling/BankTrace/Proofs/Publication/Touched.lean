import BankTrace.Proofs.FileTree.Meets
import BankTrace.Proofs.Publication.Course
import BankTrace.Proofs.Publication.Failures

/-!
# What steps touch

A step touches a location if what it does depends on what is there, or changes it. Without faults, a
new file is filled with the whole trace, and a device that never has room with nothing.
-/

namespace BankTrace

open World (run Keeps)

/-! ## What a step touches -/

/-- Whether what an operation does depends on what is at a location, or changes it. -/
def Operation.Touches (t : FileTree) (here l : Location) : Operation → Prop
  | .look p | .createFile p => t.Visits here p l
  | .makeDirectory p | .removeFile p => t.Handles here p l
  | .writeFile file _ =>
      ∃ number content, file = .file number ∧ t.entry? l = some (.file number content)
  | .syncFile _ => False
  | .rename source target => t.Handles here source l ∨ t.Handles here target l

def treeBehind (initial : FileTree) : List Step → FileTree
  | [] => initial
  | step :: _ => step.tree

def touchedIn (initial : FileTree) (here l : Location) : List Step → Prop
  | [] => False
  | step :: earlier =>
      step.operation.Touches (treeBehind initial earlier) here l ∨ touchedIn initial here l earlier

namespace FaultyHost

def Touched (initial : FileTree) (l : Location) (host : FaultyHost) : Prop :=
  touchedIn initial host.here l host.history

/-- Whether a host has worked on another one's tree, with the same faults. -/
structure Later (initial : FileTree) (host host' : FaultyHost) : Prop where
  here_eq : host'.here = host.here
  faults_eq : host'.faults = host.faults
  tree_eq : treeBehind initial host.history = host.tree →
    treeBehind initial host'.history = host'.tree

theorem Later.refl (initial : FileTree) (host : FaultyHost) : Later initial host host :=
  ⟨rfl, rfl, id⟩

theorem Later.after {initial : FileTree} {host host' : FaultyHost} (h : Later initial host host')
    (operation : Operation) (succeeded : Bool) (tree : FileTree) :
    Later initial host (host'.after operation succeeded tree) :=
  ⟨h.here_eq, h.faults_eq, fun _ => rfl⟩

end FaultyHost

open FaultyHost (Touched Later)

/-! ## Filling a file without faults -/

namespace Publication

section

variable {c : Config} {host : FaultyHost} {initial : FileTree}

theorem keeps_fill (hc : c.IsValid) (l : Location) (file : FileSink OpenFile) :
    Keeps (Touched initial l) (fill (m := StateM FaultyHost) c { sink := { inner := file } }) := by
  have hfails : Sink.FailsFor (StateM FaultyHost)
      (fun (_ : FileSink OpenFile) host => Touched initial l host) fun _ => True := {
    write := fun _ _ htouched => ⟨_, _, _, rfl, .inr htouched, fun _ _ => trivial⟩
    flush := fun htouched => ⟨_, _, _, rfl, htouched, fun _ _ => trivial⟩ }
  intro host htouched
  obtain ⟨result, host', hrun, ⟨-, htouched'⟩, -⟩ :=
    fill_fails hfails (fun _ _ _ htouched => htouched) hc file htouched
  rwa [hrun]

/-- A host that has put bytes behind the content of a file since. -/
structure Wrote (initial : FileTree) (host : FaultyHost) (number : Nat) (bytes : ByteArray)
    (host' : FaultyHost) : Prop where
  later : Later initial host host'
  tree_eq : host'.tree = host.tree.changeFile number (· ++ bytes)

theorem Wrote.write {number : Nat} {bytes : ByteArray} {host' : FaultyHost}
    (h : Wrote initial host number bytes host') (operation : Operation) (succeeded : Bool)
    (taken : ByteArray) :
    Wrote initial host number (bytes ++ taken)
      (host'.after operation succeeded (host'.tree.changeFile number (· ++ taken))) := by
  refine ⟨h.later.after _ _ _, ?_⟩
  rw [FaultyHost.after, h.tree_eq, FileTree.changeFile_changeFile]
  simp only [Function.comp_def, ByteArray.append_assoc]

theorem run_fill_file (hc : c.IsValid) (initial : FileTree)
    (hfaultless : ∀ i, host.faults i = .none) {l : Location} {number : Nat}
    (he : host.tree.entry? l = some (.file number .empty)) :
    ∃ host', run (fill (m := StateM FaultyHost) c { sink := { inner := ⟨.file number⟩ } }) host =
        (.ok (c.lineCount, .file number), host') ∧ Wrote initial host number c.trace host' := by
  have hstart : Wrote initial host number .empty host :=
    ⟨.refl initial host, (FileTree.changeFile_append_empty _ _).symm⟩
  have hcontent (bytes : ByteArray) (host' : FaultyHost)
      (h : Wrote initial host number bytes host') : contentIn l host'.tree = bytes := by
    rw [h.tree_eq, contentIn_eq (FileTree.entry?_changeFile_self he _), ByteArray.empty_append]
  -- What is in the file when the filling ends well is one thing, that no write fails another.
  have hrecords := records_of_keeps hcontent fun _ _ _ _ taken h => h.write _ _ taken
  have hfails : Sink.FailsFor (StateM FaultyHost)
      (fun (file : FileSink OpenFile) host' =>
        file.handle = .file number ∧ Later initial host host')
      fun _ => False := {
    write := by
      rintro ⟨handle⟩ host' bytes hsize ⟨rfl, hlater⟩
      have hnone : host'.faults host'.history.length = .none := by
        rw [hlater.faults_eq, hfaultless]
      have hwrite : run (Host.writeFile (m := StateM FaultyHost) (.file number) bytes) host' =
          (.ok bytes.size, host'.after (.writeFile (.file number) bytes) true
            (host'.tree.changeFile number (· ++ bytes))) :=
        FaultyHost.run_perform_of_none _ _ hnone
      have hsink : run (Sink.write (m := StateM FaultyHost) (FileSink.mk (OpenFile.file number))
          bytes) host' = ((.ok bytes.size, ⟨.file number⟩),
            host'.after (.writeFile (.file number) bytes) true
              (host'.tree.changeFile number (· ++ bytes))) := by
        simp only [Sink.write, World.run_bind, World.run_pure, hwrite]
      obtain ⟨size, hsucc⟩ := Nat.exists_eq_succ_of_ne_zero hsize
      exact ⟨_, _, _, hsink, ⟨rfl, hlater.after _ _ _⟩, by simp [hsucc, Sink.refusal?]⟩
    flush := fun hvalid => ⟨.ok (), _, _, rfl, hvalid, by simp⟩ }
  obtain ⟨result, host', hrun, -, hnever⟩ :=
    fill_fails hfails (fun _ _ _ hvalid => hvalid) hc ⟨.file number⟩
      ⟨rfl, .refl initial host⟩
  have hends : World.Ends _ _
      (ExceptT.mk (fill (m := StateM FaultyHost) c { sink := { inner := ⟨.file number⟩ } })) host :=
    ends_fill_records hrecords hc ⟨rfl, _, hstart⟩ (contentIn_eq he)
  unfold World.Ends at hends
  rw [ExceptT.run_mk, hrun] at hends
  cases result with
  | error e =>
      obtain ⟨-, -, hfalse⟩ := hnever e rfl
      exact hfalse.elim
  | ok out =>
      obtain ⟨⟨handle⟩, rfl, ⟨rfl, bytes, hwrote⟩, hwhole⟩ := hends
      obtain rfl : c.trace = bytes := hwhole.symm.trans (hcontent _ _ hwrote)
      exact ⟨host', hrun, hwrote⟩

theorem run_fill_full (hc : c.IsValid) (initial : FileTree) (host : FaultyHost) :
    ∃ host', run (fill (m := StateM FaultyHost) c { sink := { inner := ⟨.full⟩ } }) host =
        (.error (.io .noSpace), host') ∧ Later initial host host' ∧ host'.tree = host.tree := by
  have hfails : Sink.FailsFor (StateM FaultyHost)
      (fun (file : FileSink OpenFile) host' => file.handle = .full ∧ Later initial host host' ∧
        host'.tree = host.tree)
      (· = .noSpace) := {
    write := by
      rintro ⟨handle⟩ host' bytes hsize ⟨rfl, hlater, htree⟩
      refine ⟨.error .noSpace, ⟨.full⟩, host'.after (.writeFile .full bytes) false host'.tree, rfl,
        ⟨rfl, hlater.after _ _ _, htree⟩, ?_⟩
      rintro _ ⟨⟩
      rfl
    flush := fun hvalid => ⟨.ok (), _, _, rfl, hvalid, by simp⟩ }
  obtain ⟨result, host', hrun, ⟨-, -, hlater, htree⟩, hreason⟩ :=
    fill_fails hfails (fun _ _ _ hvalid => hvalid) hc ⟨.full⟩
      ⟨rfl, .refl initial host, rfl⟩
  have hends : World.Ends _ _
      (ExceptT.mk (fill (m := StateM FaultyHost) c { sink := { inner := ⟨.full⟩ } })) host :=
    ends_fill_records (full_records host fun _ => True) hc ⟨rfl, rfl, trivial⟩ rfl
  unfold World.Ends at hends
  rw [ExceptT.run_mk, hrun] at hends
  cases result with
  | error e =>
      obtain ⟨cause, rfl, rfl⟩ := hreason e rfl
      exact ⟨host', hrun, hlater, htree⟩
  | ok out =>
      obtain ⟨-, -, -, hwhole⟩ := hends
      exact absurd hwhole.symm c.trace_ne_empty

end

/-! ## Creating a file and filling it -/

def fillNew (c : Config) (step : String) (part : Path) :
    ExceptT Error (StateM FaultyHost) (Nat × OpenFile) := do
  let writer ← Host.attempt step (FileWriter.create part)
  ExceptT.mk (fill c writer)

def fillOpened (c : Config) (step : String) :
    Except IoError OpenFile → StateM FaultyHost (Except Error (Nat × OpenFile))
  | .error e => pure (.error (.inStep step (.io e)))
  | .ok file => fill c { sink := { inner := ⟨file⟩ } }

theorem run_fillNew (c : Config) (step : String) (part : Path) (host : FaultyHost) :
    run (fillNew c step part).run host =
      run (fillOpened c step (run (Host.createFile (m := StateM FaultyHost) part) host).1)
        (run (Host.createFile (m := StateM FaultyHost) part) host).2 := by
  rw [fillNew, World.run_bind_except, World.run_attempt, FileWriter.create, World.run_bind,
    World.run_pure]
  rcases run (Host.createFile (m := StateM FaultyHost) part) host with ⟨e | file, host'⟩ <;> rfl

theorem keeps_fillOpened (hc : c.IsValid) (l : Location) (step : String)
    (opened : Except IoError OpenFile) :
    Keeps (Touched initial l) (fillOpened c step opened) := by
  cases opened with
  | error e => exact Keeps.pure _
  | ok file => exact keeps_fill hc l _

/-- Creating the partial file and filling it are one stage among the others. -/
theorem writeAndRename_eq (c : Config) (part : Path) :
    writeAndRename (m := StateM FaultyHost) c part = (do
      prepareDirectory c.output
      let (dataLines, file) ← fillNew c ("create " ++ part.quoted) part
      Host.checked (Host.syncFile file)
      Host.attempt ("publish trace " ++ c.output.quoted) (Host.rename part c.output)
      pure dataLines) := by
  simp only [writeAndRename, fillNew, bind_assoc]

end Publication

end BankTrace
