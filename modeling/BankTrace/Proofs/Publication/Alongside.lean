import BankTrace.Proofs.FileTree.Beside
import BankTrace.Proofs.Publication.Touched

/-!
# Publications side by side

The same publication on two trees of which one has a further file. As long as no step on the first
tree touches the place of that file, both go the same way and leave trees that again differ in
nothing else.
-/

namespace BankTrace

open World (run Keeps)

open FaultyHost (Touched Later)

/-! ## Two runs -/

/-- A file that a second tree has besides what a first one has, and the tree the first run began
with. -/
structure Further where
  initial : FileTree
  location : Location
  number : Nat
  content : ByteArray

/-- Two hosts that meet no faults, of which the second has a further file. -/
structure Further.Pairs (d : Further) (host host' : FaultyHost) : Prop where
  here_eq : host'.here = host.here
  faultless : ∀ i, host.faults i = .none
  faultless' : ∀ i, host'.faults i = .none
  tree_eq : treeBehind d.initial host.history = host.tree
  beside : ∃ f, FileTree.Beside d.location d.number d.content f host.tree host'.tree

theorem Further.Pairs.later {d : Further} {host host' next next' : FaultyHost}
    (h : d.Pairs host host') {initial : FileTree} (hlater : Later d.initial host next)
    (hlater' : Later initial host' next')
    (hbeside : ∃ f, FileTree.Beside d.location d.number d.content f next.tree next'.tree) :
    d.Pairs next next' where
  here_eq := by rw [hlater.here_eq, hlater'.here_eq, h.here_eq]
  faultless := by rw [hlater.faults_eq]; exact h.faultless
  faultless' := by rw [hlater'.faults_eq]; exact h.faultless'
  tree_eq := hlater.tree_eq h.tree_eq
  beside := hbeside

/-- What the first computation does, the second does alike, unless the place of the further file is
touched. -/
structure Further.Alongside {α β : Type} (d : Further) (V : α → β → Prop)
    (x : StateM FaultyHost α) (x' : StateM FaultyHost β) : Prop where
  keeps : Keeps (Touched d.initial d.location) x
  runs {host host' : FaultyHost} (hpairs : d.Pairs host host')
    (huntouched : ¬ Touched d.initial d.location (run x host).2) :
    V (run x host).1 (run x' host').1 ∧ d.Pairs (run x host).2 (run x' host').2

namespace Further

variable {d : Further} {α β γ δ : Type} {V : α → β → Prop} {V' : γ → δ → Prop}

theorem Alongside.pure {a : α} {b : β} (h : V a b) :
    d.Alongside V (Pure.pure a) (Pure.pure b) :=
  ⟨Keeps.pure a, fun hpairs _ => ⟨h, hpairs⟩⟩

theorem Alongside.bind {x : StateM FaultyHost α} {x' : StateM FaultyHost β}
    {f : α → StateM FaultyHost γ} {f' : β → StateM FaultyHost δ} (hx : d.Alongside V x x')
    (hkeeps : ∀ a, Keeps (Touched d.initial d.location) (f a))
    (hf : ∀ a b, V a b → d.Alongside V' (f a) (f' b)) : d.Alongside V' (x >>= f) (x' >>= f') where
  keeps := hx.keeps.bind hkeeps
  runs {host host'} hpairs huntouched := by
    rw [World.run_bind] at huntouched
    rw [World.run_bind, World.run_bind]
    obtain ⟨hvalue, hpairs'⟩ := hx.runs hpairs fun htouched => huntouched (hkeeps _ _ htouched)
    exact (hf _ _ hvalue).runs hpairs' huntouched

theorem Alongside.bind_eq {x x' : StateM FaultyHost α} {f : α → StateM FaultyHost γ}
    {f' : α → StateM FaultyHost δ} (hx : d.Alongside Eq x x')
    (hf : ∀ a, d.Alongside V' (f a) (f' a)) : d.Alongside V' (x >>= f) (x' >>= f') :=
  hx.bind (fun a => (hf a).keeps) fun a _ heq => heq ▸ hf a

/-- One operation goes alongside another one if it does so on trees of which one has the further
file. -/
theorem alongside_perform {operation operation' : Operation}
    {work : Fault → FileTree → Location → Except IoError α × FileTree}
    {work' : Fault → FileTree → Location → Except IoError β × FileTree}
    {V : Except IoError α → Except IoError β → Prop}
    (h : ∀ t t' here f, FileTree.Beside d.location d.number d.content f t t' →
      ¬ operation.Touches t here d.location →
        V (work .none t here).1 (work' .none t' here).1 ∧
          ∃ g, FileTree.Beside d.location d.number d.content g (work .none t here).2
            (work' .none t' here).2) :
    d.Alongside V (FaultyHost.perform operation work) (FaultyHost.perform operation' work') where
  keeps _ htouched := .inr htouched
  runs {host host'} hpairs huntouched := by
    obtain ⟨f, hbeside⟩ := hpairs.beside
    have hnot : ¬ operation.Touches host.tree host.here d.location := fun htouches =>
      huntouched (.inl (hpairs.tree_eq ▸ htouches))
    obtain ⟨hvalue, hbeside'⟩ := h _ _ host.here f hbeside hnot
    rw [FaultyHost.run_perform_of_none operation work (hpairs.faultless _),
      FaultyHost.run_perform_of_none operation' work' (hpairs.faultless' _), hpairs.here_eq]
    exact ⟨hvalue, hpairs.later ((Later.refl d.initial _).after _ _ _)
      ((Later.refl d.initial _).after _ _ _) hbeside'⟩

/-! ## Single operations -/

theorem alongside_look {p : Path} {answer : FileTree → Location → Except IoError α}
    {answer' : FileTree → Location → Except IoError β}
    {V : Except IoError α → Except IoError β → Prop}
    (h : ∀ t t' here f, FileTree.Beside d.location d.number d.content f t t' →
      ¬ t.Visits here p d.location → V (answer t here) (answer' t' here)) :
    d.Alongside V (FaultyHost.look p answer) (FaultyHost.look p answer') := by
  refine alongside_perform fun t t' here f hbeside huntouched => ?_
  have hanswer := h t t' here f hbeside huntouched
  simp only [FaultyHost.whole]
  generalize answer t here = result, answer' t' here = result' at hanswer ⊢
  cases result <;> cases result' <;> exact ⟨hanswer, f, hbeside⟩

theorem alongside_find (p : Path) :
    d.Alongside (Matches fun found found' => found'.2.isDirectory = found.2.isDirectory)
      (FaultyHost.look p fun tree here => tree.find here p)
      (FaultyHost.look p fun tree here => tree.find here p) :=
  alongside_look fun _ _ _ _ h huntouched => (h.find huntouched).mono fun _ _ hfound => by
    rw [hfound, Entry.isDirectory_renumber]

theorem alongside_readFile (p : Path) :
    d.Alongside Eq (Host.readFile (m := StateM FaultyHost) p)
      (Host.readFile (m := StateM FaultyHost) p) :=
  alongside_look fun _ _ _ _ h huntouched => (h.read_eq huntouched).symm

theorem alongside_readText (p : Path) :
    d.Alongside Eq (Host.readText (m := StateM FaultyHost) p)
      (Host.readText (m := StateM FaultyHost) p) := by
  refine (alongside_readFile p).bind_eq fun result => ?_
  cases result with
  | error e => exact .pure rfl
  | ok bytes =>
      dsimp only
      cases String.fromUTF8? bytes <;> exact .pure rfl

theorem alongside_isPresent (p : Path) :
    d.Alongside Eq (Host.isPresent (m := StateM FaultyHost) p)
      (Host.isPresent (m := StateM FaultyHost) p) := by
  refine (alongside_find p).bind (fun _ => Keeps.pure _) fun found found' hfound => .pure ?_
  cases hfound <;> rfl

theorem alongside_isDirectory (p : Path) :
    d.Alongside Eq (Host.isDirectory (m := StateM FaultyHost) p)
      (Host.isDirectory (m := StateM FaultyHost) p) := by
  refine (alongside_find p).bind (fun found => ?_) fun found found' hfound => ?_
  · cases found <;> exact Keeps.pure _
  · cases hfound with
    | error e => exact .pure rfl
    | ok hentry => exact .pure hentry.symm

theorem alongside_edit {operation operation' : Operation}
    {change change' : FileTree → Location → Except IoError FileTree}
    (h : ∀ t t' here f, FileTree.Beside d.location d.number d.content f t t' →
      ¬ operation.Touches t here d.location →
        Matches (fun t t' => ∃ g, FileTree.Beside d.location d.number d.content g t t')
          (change t here) (change' t' here)) :
    d.Alongside Eq (FaultyHost.edit operation change) (FaultyHost.edit operation' change') := by
  refine alongside_perform fun t t' here f hbeside huntouched => ?_
  have hchange := h t t' here f hbeside huntouched
  simp only [FaultyHost.whole]
  generalize change t here = result, change' t' here = result' at hchange ⊢
  cases hchange with
  | error e => exact ⟨rfl, f, hbeside⟩
  | ok hbeside' => exact ⟨rfl, hbeside'⟩

theorem alongside_makeDirectory (p : Path) :
    d.Alongside Eq (Host.makeDirectory (m := StateM FaultyHost) p)
      (Host.makeDirectory (m := StateM FaultyHost) p) :=
  alongside_edit fun _ _ _ f h huntouched => (h.makeDirectory huntouched).mono fun _ _ h => ⟨f, h⟩

theorem alongside_removeFile (p : Path) :
    d.Alongside Eq (Host.removeFile (m := StateM FaultyHost) p)
      (Host.removeFile (m := StateM FaultyHost) p) :=
  alongside_edit fun _ _ _ f h huntouched => (h.remove huntouched).mono fun _ _ h => ⟨f, h⟩

theorem alongside_rename (source target : Path) :
    d.Alongside Eq (Host.rename (m := StateM FaultyHost) source target)
      (Host.rename (m := StateM FaultyHost) source target) :=
  alongside_edit fun _ _ _ f h huntouched =>
    (h.rename (fun h => huntouched (.inl h)) fun h => huntouched (.inr h)).mono fun _ _ h => ⟨f, h⟩

theorem alongside_syncFile (file file' : OpenFile) :
    d.Alongside Eq (Host.syncFile (m := StateM FaultyHost) file)
      (Host.syncFile (m := StateM FaultyHost) file') :=
  alongside_edit fun _ _ _ f h _ => .ok ⟨f, h⟩

theorem alongside_report (event : Event) :
    d.Alongside Eq (Host.report (m := StateM FaultyHost) event)
      (Host.report (m := StateM FaultyHost) event) :=
  .pure rfl

/-! ## Operations among others -/

/-- What follows after a failure is nothing. -/
theorem Alongside.bindExcept {x x' : ExceptT Error (StateM FaultyHost) α}
    {f f' : α → ExceptT Error (StateM FaultyHost) β} (hx : d.Alongside Eq x.run x'.run)
    (hf : ∀ a, d.Alongside Eq (f a).run (f' a).run) :
    d.Alongside Eq (x >>= f).run (x' >>= f').run := by
  rw [ExceptT.run_bind, ExceptT.run_bind]
  refine hx.bind_eq fun result => ?_
  cases result with
  | error e => exact .pure rfl
  | ok a => exact hf a

theorem Alongside.checked {x x' : StateM FaultyHost (Except IoError α)}
    (hx : d.Alongside Eq x x') :
    d.Alongside Eq (Host.checked x).run (Host.checked x').run :=
  hx.bind_eq fun _ => .pure rfl

theorem Alongside.during {x x' : ExceptT Error (StateM FaultyHost) α} {step : String}
    (hx : d.Alongside Eq x.run x'.run) :
    d.Alongside Eq (during step x).run (during step x').run :=
  hx.bind_eq fun _ => .pure rfl

theorem Alongside.attempt {x x' : StateM FaultyHost (Except IoError α)} {step : String}
    (hx : d.Alongside Eq x x') :
    d.Alongside Eq (Host.attempt step x).run (Host.attempt step x').run :=
  hx.checked.during

theorem Alongside.lift {x x' : StateM FaultyHost α} (hx : d.Alongside Eq x x') :
    d.Alongside Eq (ExceptT.lift x : ExceptT Error (StateM FaultyHost) α).run
      (ExceptT.lift x' : ExceptT Error (StateM FaultyHost) α).run := by
  rw [ExceptT.run_lift, ExceptT.run_lift, map_eq_pure_bind, map_eq_pure_bind]
  exact hx.bind_eq fun _ => .pure rfl

/-! ## The directory of the output -/

/-- The induction is on the directories around the one that is made. -/
theorem alongside_makeDirectories (paths : List Path) :
    d.Alongside Eq (Host.makeDirectories (m := StateM FaultyHost) paths)
      (Host.makeDirectories (m := StateM FaultyHost) paths) := by
  induction paths with
  | nil => exact .pure rfl
  | cons p around ih =>
      have hasked (e : IoError) : d.Alongside Eq
          (do return if ← Host.isDirectory p then .ok () else .error e :
            StateM FaultyHost (Except IoError Unit))
          (do return if ← Host.isDirectory p then .ok () else .error e :
            StateM FaultyHost (Except IoError Unit)) :=
        (alongside_isDirectory p).bind_eq fun _ => .pure rfl
      unfold Host.makeDirectories
      split_ifs
      · exact .pure rfl
      · refine (alongside_makeDirectory p).bind_eq fun result => ?_
        split
        · exact .pure rfl
        · refine ih.bind_eq fun result => ?_
          split
          · exact .pure rfl
          · refine (alongside_makeDirectory p).bind_eq fun result => ?_
            split
            · exact .pure rfl
            · exact hasked _
        · exact hasked _

theorem alongside_prepareDirectory (output : Path) :
    d.Alongside Eq (Publication.prepareDirectory (m := StateM FaultyHost) output).run
      (Publication.prepareDirectory (m := StateM FaultyHost) output).run := by
  unfold Publication.prepareDirectory
  cases output.parent? with
  | none => exact .pure rfl
  | some directory =>
      dsimp only
      split_ifs
      · exact .pure rfl
      · refine (alongside_isPresent directory).lift.bindExcept fun present => ?_
        split_ifs
        · exact .pure rfl
        · exact (alongside_makeDirectories _).attempt.bindExcept fun _ =>
            (alongside_report _).lift

end Further

/-! ## The whole publication -/

namespace Further

open Publication (fillNew fillOpened run_fillNew keeps_fillOpened writeAndRename writeAndRename_eq
  removePartial publish partialPath)

variable {d : Further} {c : Config}

theorem runs_fillOpened (hc : c.IsValid) (step : String) {t : FileTree} {here : Location}
    {part : Path} {file : OpenFile} {host host' : FaultyHost} (hpairs : d.Pairs host host')
    (hcreate : t.create here part = .ok (file, host.tree)) {f : Equiv.Perm Nat}
    (hbeside : FileTree.Beside d.location d.number d.content f host.tree host'.tree) :
    Matches (fun out out' => out'.1 = out.1) (run (fillOpened c step (.ok file)) host).1
        (run (fillOpened c step (.ok (file.renumber f))) host').1 ∧
      d.Pairs (run (fillOpened c step (.ok file)) host).2
        (run (fillOpened c step (.ok (file.renumber f))) host').2 := by
  cases file with
  | full =>
      obtain ⟨next, hrun, hlater, htree⟩ := Publication.run_fill_full hc d.initial host
      obtain ⟨next', hrun', hlater', htree'⟩ := Publication.run_fill_full hc d.initial host'
      simp only [fillOpened, OpenFile.renumber, hrun, hrun']
      exact ⟨.error _, hpairs.later hlater hlater' ⟨f, by rwa [htree, htree']⟩⟩
  | file number =>
      obtain ⟨l, -, hcreated⟩ := FileTree.create_eq_ok_iff.mp hcreate
      have he := hcreated.entry?
      obtain ⟨next, hrun, hwrote⟩ :=
        Publication.run_fill_file hc d.initial hpairs.faultless he
      obtain ⟨next', hrun', hwrote'⟩ :=
        Publication.run_fill_file hc d.initial hpairs.faultless' (hbeside.entry? he)
      simp only [fillOpened, OpenFile.renumber, hrun, hrun']
      refine ⟨.ok rfl, hpairs.later hwrote.later hwrote'.later ⟨f, ?_⟩⟩
      rw [hwrote.tree_eq, hwrote'.tree_eq]
      exact hbeside.changeFile he rfl _

theorem alongside_fillNew (hc : c.IsValid) (step : String) (part : Path) :
    d.Alongside (Matches fun out out' => out'.1 = out.1) (fillNew c step part).run
      (fillNew c step part).run := by
  have hcreate {host : FaultyHost} (hfaultless : ∀ i, host.faults i = .none) :=
    FaultyHost.run_perform_of_none (.createFile part)
      (FaultyHost.whole fun tree here => tree.create here part) (hfaultless host.history.length)
  refine ⟨fun host htouched => ?_, fun {host host'} hpairs huntouched => ?_⟩
  · rw [run_fillNew]
    exact keeps_fillOpened hc _ _ _ _ (.inr htouched)
  · simp only [run_fillNew, Host.createFile, hcreate hpairs.faultless, hcreate hpairs.faultless',
      hpairs.here_eq, FaultyHost.whole] at huntouched ⊢
    obtain ⟨f, hbeside⟩ := hpairs.beside
    have hnot : ¬ host.tree.Visits host.here part d.location := fun hvisits =>
      huntouched (keeps_fillOpened hc _ _ _ _ (.inl (hpairs.tree_eq ▸ hvisits)))
    have hmade := hbeside.create hnot
    generalize hopened : host.tree.create host.here part = opened at hmade ⊢
    generalize host'.tree.create host.here part = opened' at hmade ⊢
    cases hmade with
    | error e =>
        exact ⟨.error _, hpairs.later ((Later.refl d.initial _).after _ _ _)
          ((Later.refl d.initial _).after _ _ _) ⟨f, hbeside⟩⟩
    | @ok made made' hfile =>
        obtain ⟨⟨file, tree⟩, ⟨_, tree'⟩⟩ := made, made'
        obtain ⟨g, rfl, hbeside'⟩ := hfile
        exact runs_fillOpened hc step (hpairs.later ((Later.refl d.initial _).after _ _ _)
          ((Later.refl d.initial _).after _ _ _) ⟨g, hbeside'⟩) hopened hbeside'

theorem alongside_writeAndRename (hc : c.IsValid) (part : Path) :
    d.Alongside Eq (writeAndRename (m := StateM FaultyHost) c part).run
      (writeAndRename (m := StateM FaultyHost) c part).run := by
  have hpublish (dataLines : Nat) (file file' : OpenFile) : d.Alongside Eq
      (do
        Host.checked (Host.syncFile (m := StateM FaultyHost) file)
        Host.attempt ("publish trace " ++ c.output.quoted) (Host.rename part c.output)
        pure dataLines : ExceptT Error (StateM FaultyHost) Nat).run
      (do
        Host.checked (Host.syncFile (m := StateM FaultyHost) file')
        Host.attempt ("publish trace " ++ c.output.quoted) (Host.rename part c.output)
        pure dataLines : ExceptT Error (StateM FaultyHost) Nat).run :=
    (alongside_syncFile file file').checked.bindExcept fun _ =>
      (alongside_rename part c.output).attempt.bindExcept fun _ => .pure rfl
  rw [writeAndRename_eq]
  refine (alongside_prepareDirectory c.output).bindExcept fun _ => ?_
  rw [ExceptT.run_bind]
  refine (alongside_fillNew hc _ part).bind (fun result => ?_) fun result result' hresult => ?_
  · cases result with
    | error e => exact Keeps.pure _
    | ok out => exact (hpublish out.1 out.2 out.2).keeps
  · cases hresult with
    | error e => exact .pure rfl
    | @ok out out' hlines =>
        obtain ⟨⟨dataLines, file⟩, ⟨_, file'⟩⟩ := out, out'
        obtain rfl := hlines
        exact hpublish _ file file'

theorem alongside_removePartial (part : Path) :
    d.Alongside Eq (removePartial (m := StateM FaultyHost) part)
      (removePartial (m := StateM FaultyHost) part) := by
  refine (alongside_removeFile part).bind_eq fun result => ?_
  match result with
  | .ok () => exact alongside_report _
  | .error e => cases e <;> exact .pure rfl

theorem alongside_publish (c : Config) :
    d.Alongside Eq (publish (m := StateM FaultyHost) c) (publish (m := StateM FaultyHost) c) := by
  unfold publish
  cases hvalidate : c.validate with
  | error e => exact .pure rfl
  | ok _ =>
      have hc := (Config.validate_eq_ok_iff c).mp hvalidate
      cases partialPath c.output with
      | error e => exact .pure rfl
      | ok part =>
          refine (alongside_report _).bind_eq fun _ => ?_
          refine (alongside_writeAndRename hc part).bind_eq fun result => ?_
          cases result with
          | error e => exact (alongside_removePartial part).bind_eq fun _ => .pure rfl
          | ok dataLines => exact (alongside_report _).bind_eq fun _ => .pure rfl

end Further

end BankTrace
