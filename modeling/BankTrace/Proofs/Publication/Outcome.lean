import BankTrace.Proofs.FileTree.Enlarged
import BankTrace.Proofs.Publication.Directories
import BankTrace.Proofs.Publication.Opened
import BankTrace.Proofs.Publication.Touched

/-!
# What a publication without faults does

On a tree without links, whether a publication without faults succeeds and what it leaves depends on
the paths and on the directories that can be made around the output. What was at the output and at
the partial path has no say in it.
-/

namespace BankTrace.Publication

open World (run)
open FileTree

/-! ## Trees to start from -/

/-- Whether nothing or a file is at a location. -/
def Loose (t : FileTree) (l : Location) : Prop :=
  t.entry? l = none ∨ ∃ number content, t.entry? l = some (.file number content)

/-- A tree without links in which a publication can be started, the output and its partial file
being files or missing. -/
structure Ground (t : FileTree) (here : Location) (output part : Path) : Prop where
  path : partialPath output = .ok part
  back : Path.dotDot ∉ output.steps
  begins : t.entry? (start here output) = some .directory
  linkless : t.Linkless
  at_output : Loose t (direct here output)
  at_part : Loose t (direct here part)

structure Accepts (t : FileTree) (here : Location) (output part : Path) : Prop where
  free : t.Free (start here output) output.steps.dropLast
  fault : pathFault? part = none
  short : IsShort (direct here part)

/-- Whether a file can be moved onto a path, as far as that depends on the path. -/
structure Movable (output : Path) : Prop where
  fault : pathFault? output = none
  tidy : IsTidy output
  slash : output.endsInSlash = false

section

variable {t t' : FileTree} {here l : Location} {output part : Path}

theorem Loose.ne_directory (h : Loose t l) : t.entry? l ≠ some .directory := by
  rcases h with hnone | ⟨number, content, hfile⟩ <;> simp [*]

theorem vacant_iff_of_enlarged (h : Enlarged t t') : t'.Vacant l ↔ t.Vacant l := by
  refine and_congr_right fun _ => ?_
  rcases h l with hsame | ⟨hnone, hnew⟩
  · rw [hsame]
  · simp [hnone, hnew]

theorem accepts_iff_of_enlarged (h : Enlarged t t') :
    Accepts t' here output part ↔ Accepts t here output part := by
  constructor <;>
    · rintro ⟨hfree, hfault, hshort⟩
      exact ⟨hfree.imp fun l hl => by simpa [vacant_iff_of_enlarged h] using hl, hfault, hshort⟩

/-- Where the partial file can be asked for, so can the directory it is in. -/
theorem askable_of_pathFault? (hpath : partialPath output = .ok part)
    (hfault : pathFault? part = none) : Askable output := by
  intro directory hparent hne
  refine pathFault?_of_prefix ?_ hne hfault
  unfold partialPath at hpath
  split at hpath
  next name hname =>
    obtain rfl := Except.ok.inj hpath
    simp only [Path.withFileName, hname, hparent, Path.child]
    split <;> exact List.prefix_append _ _
  next => simp at hpath

theorem Prepared.enlarged (h : Prepared t here output t') : Enlarged t t' := by
  intro l
  by_cases hask : Askable output
  · exact (h.made hask).entry?_eq_or l |>.imp_right And.right
  · exact .inl (by rw [h.kept hask])

/-- The output and the partial file are behind all directories that are made. -/
theorem Prepared.entry?_eq (h : Prepared t here output t') {p : Path} {outer : List Name}
    {name : Name} (hs : Sibling output part outer name) (hp : p ∈ [output, part]) :
    t'.entry? (direct here p) = t.entry? (direct here p) := by
  by_cases hask : Askable output
  · refine (h.made hask).kept _ fun hfront => ?_
    have hlength := hfront.length.2
    rw [hs.dropLast_output] at hlength
    rcases List.mem_pair.mp hp with rfl | rfl
    · simp [hs.direct_output] at hlength
    · simp [hs.direct_part] at hlength
  · rw [h.kept hask]

theorem Ground.prepared (h : Ground t here output part) (hprepared : Prepared t here output t') :
    Ground t' here output part := by
  obtain ⟨outer, name, hs⟩ := partialPath_eq_ok h.path
  have houtput := h.at_output
  have hpart := h.at_part
  rw [Loose, ← hprepared.entry?_eq hs (by simp)] at houtput hpart
  exact ⟨h.path, h.back, hprepared.enlarged.entry? h.begins, hprepared.enlarged.linkless h.linkless,
    houtput, hpart⟩

theorem Prepared.clear (h : Prepared t here output t') (hpath : partialPath output = .ok part)
    (haccepts : Accepts t here output part) :
    t'.Clear (start here output) output.steps.dropLast :=
  (h.made (askable_of_pathFault? hpath haccepts.fault)).clear haccepts.free

/-! ## The operations on the partial file -/

theorem Ground.approach_part (h : Ground t here output part) (hfault : pathFault? part = none) :
    t.Approach here part := by
  obtain ⟨outer, name, hs⟩ := partialPath_eq_ok h.path
  exact ⟨hs.start_eq here ▸ h.begins, hfault, hs.dotDot_not_mem h.back,
    fun _ => by simp [hs.last, hs.part_steps]⟩

theorem Ground.clear_part (h : Ground t here output part)
    (hclear : t.Clear (start here output) output.steps.dropLast) :
    t.Clear (start here part) part.steps.dropLast := by
  obtain ⟨outer, name, hs⟩ := partialPath_eq_ok h.path
  rwa [hs.start_eq, hs.dropLast_part, ← hs.dropLast_output]

theorem Ground.create_of_accepts (h : Ground t here output part)
    (haccepts : Accepts t here output part)
    (hclear : t.Clear (start here output) output.steps.dropLast) :
    ∃ number t', t.create here part = .ok (.file number, t') ∧
      Opened t here part (direct here part) number .empty t' := by
  obtain ⟨outer, name, hs⟩ := partialPath_eq_ok h.path
  have hlocate := (h.approach_part haccepts.fault).locate_eq (h.clear_part hclear)
    (by simp [hs.part_steps]) haccepts.short hs.slash h.linkless.not_link .create
  obtain ⟨number, t', hcreated⟩ : ∃ number t', t.Created (direct here part) (.file number) t' := by
    rcases h.at_part with hnone | ⟨number, content, hfile⟩
    · exact ⟨_, _, .made hnone (hs.tail_part here ▸ hclear.ends h.begins)⟩
    · exact ⟨_, _, .emptied hfile⟩
  exact ⟨number, t', create_eq_ok_iff.mpr ⟨_, hlocate, hcreated⟩, .of_created hlocate hcreated⟩

theorem Ground.accepts_of_create (h : Ground t here output part) {file : OpenFile}
    (hcreate : t.create here part = .ok (file, t')) :
    Accepts t here output part ∧ t.Clear (start here output) output.steps.dropLast ∧
      t.Created (direct here part) file t' := by
  obtain ⟨outer, name, hs⟩ := partialPath_eq_ok h.path
  obtain ⟨hfault, hshort, hopen, hcreated⟩ := create_eq_ok (hs.dotDot_not_mem h.back)
    (Along.of_length fun l _ => h.linkless.not_link l) hs.slash hcreate
  rw [hs.start_eq, hs.dropLast_part] at hopen
  rw [hs.part_steps] at hshort
  have hclear : t.Clear (start here output) output.steps.dropLast := by
    rw [hs.dropLast_output]
    exact clear_iff.mpr ⟨hopen, fun n hn => hshort n (List.mem_append_left _ hn)⟩
  refine ⟨⟨hclear.free, hfault, ?_⟩, hclear, hcreated⟩
  rw [hs.direct_part, isShort_cons]
  exact hshort _ (by simp)

/-- What can be removed at the partial path could be created there. -/
theorem Ground.accepts_of_remove (h : Ground t here output part)
    (hremove : t.remove here part = .ok t') : Accepts t here output part := by
  obtain ⟨outer, name, hs⟩ := partialPath_eq_ok h.path
  obtain ⟨left, directory, n, hstands, hshort, -, -⟩ := remove_at hremove
  have hdirect := hstands.direct (hs.dotDot_not_mem h.back)
    (Along.of_length fun l _ => h.linkless.not_link l)
  have hopen := hdirect.passed
  have hshorts := hdirect.short
  rw [hs.start_eq, hs.dropLast_part] at hopen
  rw [hs.dropLast_part] at hshorts
  refine ⟨?_, hdirect.fault, ?_⟩
  · rw [hs.dropLast_output]
    exact (clear_iff.mpr ⟨hopen, hshorts⟩).free
  · rw [hdirect.direct_eq, isShort_cons]
    exact hshort

end

/-! ## The operations on the file that was written -/

section

variable {t t' t'' : FileTree} {here l : Location} {output part : Path} {number : Nat}
  {content : ByteArray}

/-- A tree in which the partial file was written, that could be created there. -/
structure FilledPart (t : FileTree) (here : Location) (output part : Path) (number : Nat)
    (content : ByteArray) (t' : FileTree) : Prop where
  ground : Ground t here output part
  accepts : Accepts t here output part
  clear : t.Clear (start here output) output.steps.dropLast
  opened : Opened t here part (direct here part) number content t'

theorem FilledPart.linkless (h : FilledPart t here output part number content t') : t'.Linkless :=
  h.opened.linkless h.ground.linkless

theorem FilledPart.clear' (h : FilledPart t here output part number content t') :
    t'.Clear (start here output) output.steps.dropLast :=
  h.clear.imp fun _ hl => ⟨hl.1, h.opened.alike.forth.directory hl.2⟩

theorem FilledPart.approach_part (h : FilledPart t here output part number content t') :
    t'.Approach here part :=
  let happroach := h.ground.approach_part h.accepts.fault
  ⟨h.opened.alike.forth.directory happroach.begins, happroach.fault, happroach.back,
    happroach.tidy⟩

theorem FilledPart.clear_part (h : FilledPart t here output part number content t') :
    t'.Clear (start here part) part.steps.dropLast := by
  obtain ⟨outer, name, hs⟩ := partialPath_eq_ok h.ground.path
  rw [hs.start_eq, hs.dropLast_part, ← hs.dropLast_output]
  exact h.clear'

theorem FilledPart.remove_eq (h : FilledPart t here output part number content t') :
    t'.remove here part = .ok (t'.erase (direct here part)) := by
  obtain ⟨outer, name, hs⟩ := partialPath_eq_ok h.ground.path
  exact h.approach_part.remove_eq h.clear_part (by simp [hs.part_steps]) h.accepts.short hs.slash
    h.opened.entry_eq

theorem FilledPart.rename_eq (h : FilledPart t here output part number content t')
    (hmovable : Movable output) : t'.rename here part output =
      .ok ((t'.erase (direct here part)).insert (direct here output) (.file number content)) := by
  obtain ⟨outer, name, hs⟩ := partialPath_eq_ok h.ground.path
  have hne := hs.direct_ne here
  have houtput : t'.entry? (direct here output) = t.entry? (direct here output) :=
    h.opened.entry?_of_ne h.ground.linkless hne.symm
  have happroach : t'.Approach here output :=
    ⟨h.opened.alike.forth.directory h.ground.begins, hmovable.fault, h.ground.back, hmovable.tidy⟩
  have hshort : IsShort (direct here output) := by
    have hshort := h.accepts.short
    rw [hs.direct_part, isShort_cons, List.length_append] at hshort
    rw [hs.direct_output, isShort_cons]
    omega
  refine h.approach_part.rename_eq happroach h.clear_part h.clear' (by simp [hs.part_steps])
    (by simp [hs.output_steps]) h.accepts.short hshort hs.slash hmovable.slash h.opened.entry_eq hne
    ?_ ?_
  · rw [Bool.eq_false_iff]
    intro halso
    obtain ⟨e, he, hnumber⟩ := isAlso_file_iff.mp halso
    refine hne (h.linkless.single _ _ number ?_ ?_)
    · rw [h.opened.entry_eq]
      rfl
    · rw [he]
      exact hnumber
  · rw [houtput]
    exact h.ground.at_output.ne_directory

theorem FilledPart.movable_of_rename (h : FilledPart t here output part number content t')
    (hrename : t'.rename here part output = .ok t'') : Movable output := by
  obtain ⟨outer, name, hs⟩ := partialPath_eq_ok h.ground.path
  have hlinks (start : Location) (steps : List Name) : t'.NoLinks start steps :=
    Along.of_length fun l _ => h.linkless.not_link l
  have hrenamed := rename_eq_ok (hs.dotDot_not_mem h.ground.back) (hlinks _ _) h.ground.back
    (hlinks _ _) hrename
  obtain ⟨last, hlast, hsteps⟩ := hrenamed.last
  refine ⟨hrenamed.fault, fun _ => ?_, hrenamed.slash⟩
  rw [hlast, hsteps, List.getLast?_concat]

end

/-! ## The whole publication -/

/-- What a publication without faults leaves of a tree. -/
structure Leaves (t : FileTree) (here : Location) (output part : Path) (trace : ByteArray)
    (t' : FileTree) : Prop where
  prepared : ∃ u, Prepared t here output u ∧
    ∀ l, l ≠ direct here output → l ≠ direct here part → t'.entry? l = u.entry? l
  linkless : t'.Linkless
  removed : Accepts t here output part → t'.entry? (direct here part) = none
  untouched : ¬ Accepts t here output part →
    t'.entry? (direct here part) = t.entry? (direct here part)
  published : Accepts t here output part → Movable output →
    ∃ number, t'.entry? (direct here output) = some (.file number trace)
  unpublished : ¬ (Accepts t here output part ∧ Movable output) →
    t'.entry? (direct here output) = t.entry? (direct here output)

section

variable {t u t' : FileTree} {here : Location} {output part : Path} {number : Nat}
  {content : ByteArray}

/-- Where the partial file cannot be created only directories are made. -/
theorem leaves_of_not_accepts (h : Ground t here output part) (hprepared : Prepared t here output u)
    (hnot : ¬ Accepts t here output part) (trace : ByteArray) :
    Leaves t here output part trace u := by
  obtain ⟨outer, name, hs⟩ := partialPath_eq_ok h.path
  exact ⟨⟨u, hprepared, fun _ _ _ => rfl⟩, hprepared.enlarged.linkless h.linkless,
    fun haccepts => absurd haccepts hnot, fun _ => hprepared.entry?_eq hs (by simp),
    fun haccepts => absurd haccepts hnot, fun _ => hprepared.entry?_eq hs (by simp)⟩

theorem FilledPart.leaves_of_rename (h : FilledPart u here output part number content t')
    (hprepared : Prepared t here output u) (hmovable : Movable output) :
    Leaves t here output part content
      ((t'.erase (direct here part)).insert (direct here output) (.file number content)) := by
  obtain ⟨outer, name, hs⟩ := partialPath_eq_ok h.ground.path
  have hroot : direct here output ≠ [] := by simp [hs.direct_output]
  have hroot' : direct here part ≠ [] := by simp [hs.direct_part]
  have haccepts := (accepts_iff_of_enlarged hprepared.enlarged).mp h.accepts
  have hfile : t'.entry? (direct here part) ≠ some .directory := by simp [h.opened.entry_eq]
  have htarget : t'.entry? (direct here output) ≠ some .directory := by
    rw [h.opened.entry?_of_ne h.ground.linkless (hs.direct_ne here).symm]
    exact h.ground.at_output.ne_directory
  have htail : t'.entry? (direct here output).tail = some .directory :=
    hs.tail_output here ▸ h.clear'.ends (h.opened.alike.forth.directory h.ground.begins)
  refine ⟨⟨u, hprepared, fun l hl hlPart => ?_⟩, ?_, fun _ => ?_, fun hnot => absurd haccepts hnot,
    fun _ _ => ⟨number, entry?_move_target hfile hroot htail⟩,
    fun hnot => absurd ⟨haccepts, hmovable⟩ hnot⟩
  · rw [entry?_move_of_ne hfile htarget hlPart hl, h.opened.entry?_of_ne h.ground.linkless hlPart]
  · exact h.linkless.move h.opened.entry_eq hroot' hroot (hs.direct_ne here)
  · exact entry?_move_source hroot' hroot (hs.direct_ne here)

theorem FilledPart.leaves_of_remove (h : FilledPart u here output part number content t')
    (hprepared : Prepared t here output u) (hnot : ¬ Movable output) (trace : ByteArray) :
    Leaves t here output part trace (t'.erase (direct here part)) := by
  obtain ⟨outer, name, hs⟩ := partialPath_eq_ok h.ground.path
  have hne := hs.direct_ne here
  have hroot : direct here part ≠ [] := by simp [hs.direct_part]
  have haccepts := (accepts_iff_of_enlarged hprepared.enlarged).mp h.accepts
  have hfile : t'.entry? (direct here part) ≠ some .directory := by simp [h.opened.entry_eq]
  refine ⟨⟨u, hprepared, fun l hl hlPart => ?_⟩, h.linkless.erase hroot,
    fun _ => entry?_erase_self hroot, fun hnot => absurd haccepts hnot,
    fun _ hmovable => absurd hmovable hnot, fun _ => ?_⟩
  · rw [entry?_erase_of_ne hfile hlPart, h.opened.entry?_of_ne h.ground.linkless hlPart]
  · rw [entry?_erase_of_ne hfile hne.symm, h.opened.entry?_of_ne h.ground.linkless hne.symm,
      hprepared.entry?_eq hs (by simp)]

end

/-- The state in which a publication without faults fails: with a partial file that was written and
cannot be moved, or without one. -/
inductive Stuck (t : FileTree) (here : Location) (output part : Path) (trace : ByteArray) :
    FileTree → Prop where
  | unopened {u : FileTree} (hprepared : Prepared t here output u)
      (hnot : ¬ Accepts t here output part) : Stuck t here output part trace u
  | unmoved {u t' : FileTree} {number : Nat} (hprepared : Prepared t here output u)
      (hfilled : FilledPart u here output part number trace t') (hnot : ¬ Movable output) :
      Stuck t here output part trace t'

section

variable {c : Config} {t u t' : FileTree} {here : Location} {host : FaultyHost} {part : Path}
  {number : Nat}

theorem run_createFile_ok (h : Calm here t host) {file : OpenFile}
    (hcreate : t.create here part = .ok (file, t')) :
    ∃ host', run (Host.createFile (m := StateM FaultyHost) part) host = (.ok file, host') ∧
      Calm here t' host' :=
  ⟨_, h.run_whole_ok hcreate, h.after _ _ _⟩

theorem run_createFile_error (h : Calm here t host) {e : IoError}
    (hcreate : t.create here part = .error e) :
    ∃ host', run (Host.createFile (m := StateM FaultyHost) part) host = (.error e, host') ∧
      Calm here t host' :=
  ⟨_, h.run_whole_error hcreate, h.after _ _ _⟩

theorem run_fillNew_of_create (hc : c.IsValid) (h : Calm here t host)
    (hcreate : t.create here part = .ok (.file number, t')) (step : String) :
    ∃ host', run (fillNew c step part).run host = (.ok (c.lineCount, .file number), host') ∧
      Calm here (t'.changeFile number (· ++ c.trace)) host' := by
  obtain ⟨l, -, hcreated⟩ := create_eq_ok_iff.mp hcreate
  obtain ⟨host', hrun, hcalm⟩ := run_createFile_ok h hcreate
  have he : host'.tree.entry? l = some (.file number .empty) := by
    rw [hcalm.tree_eq]
    exact hcreated.entry?
  obtain ⟨host'', hfill, hwrote⟩ := run_fill_file hc t hcalm.faultless he
  refine ⟨host'', ?_, ?_, ?_, fun i => ?_⟩
  · rw [run_fillNew, hrun]
    exact hfill
  · rw [hwrote.later.here_eq, hcalm.here_eq]
  · rw [hwrote.tree_eq, hcalm.tree_eq]
  · rw [hwrote.later.faults_eq]
    exact hcalm.faultless i

theorem run_fillNew_of_accepts (hc : c.IsValid) (h : Calm here t host)
    (hground : Ground t here c.output part) (haccepts : Accepts t here c.output part)
    (hclear : t.Clear (start here c.output) c.output.steps.dropLast) (step : String) :
    ∃ number host' t', run (fillNew c step part).run host =
        (.ok (c.lineCount, .file number), host') ∧ Calm here t' host' ∧
      FilledPart t here c.output part number c.trace t' := by
  obtain ⟨number, t', hcreate, hopened⟩ := hground.create_of_accepts haccepts hclear
  obtain ⟨host', hrun, hcalm⟩ := run_fillNew_of_create hc h hcreate step
  have hwritten := hopened.changeFile (· ++ c.trace)
  rw [ByteArray.empty_append] at hwritten
  exact ⟨number, host', _, hrun, hcalm, hground, haccepts, hclear, hwritten⟩

theorem run_fillNew_of_not_accepts (h : Calm here t host) (hground : Ground t here c.output part)
    (hnot : ¬ Accepts t here c.output part) (step : String) :
    ∃ e host', run (fillNew c step part).run host = (.error e, host') ∧ Calm here t host' := by
  cases hcreate : t.create here part with
  | ok made => exact absurd (hground.accepts_of_create hcreate).1 hnot
  | error e =>
      obtain ⟨host', hrun, hcalm⟩ := run_createFile_error h hcreate
      rw [run_fillNew, hrun]
      exact ⟨_, host', rfl, hcalm⟩

/-- The end of a writing without faults: the whole trace is at the output, or the publication is
stuck. -/
def Concludes (t : FileTree) (here : Location) (c : Config) (part : Path)
    (result : Except Error Nat) (t' : FileTree) : Prop :=
  result = .ok c.lineCount ∧ (Accepts t here c.output part ∧ Movable c.output) ∧
      Leaves t here c.output part c.trace t' ∨
    (∃ e, result = .error e) ∧ Stuck t here c.output part c.trace t'

/-- The file that was filled is moved onto the output where it can be. -/
theorem FilledPart.run_move (h : Calm here t' host)
    (hfilled : FilledPart u here c.output part number c.trace t')
    (hprepared : Prepared t here c.output u) (step : String) :
    ∃ result host' t'', run (ExceptT.run (m := StateM FaultyHost) do
        Host.checked (Host.syncFile (.file number))
        Host.attempt step (Host.rename part c.output)
        pure c.lineCount) host = (result, host') ∧ Calm here t'' host' ∧
      Concludes t here c part result t'' := by
  obtain ⟨host₁, hsync, hcalm⟩ : ∃ host₁,
      run (Host.syncFile (m := StateM FaultyHost) (OpenFile.file number)) host = (.ok (), host₁) ∧
        Calm here t' host₁ :=
    h.edit_ok rfl
  rw [World.run_bind_except, World.run_checked, hsync]
  dsimp only [Except.mapError]
  rw [World.run_bind_except, World.run_attempt]
  by_cases hmovable : Movable c.output
  · obtain ⟨host₂, hrename, hcalm'⟩ : ∃ host₂,
        run (Host.rename (m := StateM FaultyHost) part c.output) host₁ = (.ok (), host₂) ∧
          Calm here _ host₂ :=
      hcalm.edit_ok (hfilled.rename_eq hmovable)
    have haccepts := (accepts_iff_of_enlarged hprepared.enlarged).mp hfilled.accepts
    rw [hrename]
    exact ⟨_, host₂, _, rfl, hcalm', .inl ⟨rfl, ⟨haccepts, hmovable⟩,
      hfilled.leaves_of_rename hprepared hmovable⟩⟩
  · cases hmove : t'.rename here part c.output with
    | ok t'' => exact absurd (hfilled.movable_of_rename hmove) hmovable
    | error e =>
        obtain ⟨host₂, hrename, hcalm'⟩ : ∃ host₂,
            run (Host.rename (m := StateM FaultyHost) part c.output) host₁ = (.error e, host₂) ∧
              Calm here t' host₂ :=
          hcalm.edit_error hmove
        rw [hrename]
        exact ⟨_, host₂, t', rfl, hcalm', .inr ⟨⟨_, rfl⟩, .unmoved hprepared hfilled hmovable⟩⟩

theorem run_writeAndRename_calm (hc : c.IsValid) (h : Calm here t host)
    (hground : Ground t here c.output part) :
    ∃ result host' t', run (writeAndRename (m := StateM FaultyHost) c part).run host =
        (result, host') ∧ Calm here t' host' ∧ Concludes t here c part result t' := by
  obtain ⟨result, host₁, u, hrun, hcalm, hprepared, hresult⟩ :=
    run_prepareDirectory hground.linkless.not_link h hground.begins hground.back
  have hground₁ := hground.prepared hprepared
  have hiff : Accepts u here c.output part ↔ Accepts t here c.output part :=
    accepts_iff_of_enlarged hprepared.enlarged
  rw [writeAndRename_eq, World.run_bind_except, hrun]
  by_cases haccepts : Accepts t here c.output part
  · obtain rfl := hresult (askable_of_pathFault? hground.path haccepts.fault) haccepts.free
    obtain ⟨number, host₂, u', hfill, hcalm', hfilled⟩ := run_fillNew_of_accepts hc hcalm hground₁
      (hiff.mpr haccepts) (hprepared.clear hground.path haccepts) ("create " ++ part.quoted)
    dsimp only
    rw [World.run_bind_except, hfill]
    exact FilledPart.run_move hcalm' hfilled hprepared ("publish trace " ++ c.output.quoted)
  · cases result with
    | error e => exact ⟨_, host₁, u, rfl, hcalm, .inr ⟨⟨e, rfl⟩, .unopened hprepared haccepts⟩⟩
    | ok _ =>
        obtain ⟨e, host₂, hfill, hcalm'⟩ := run_fillNew_of_not_accepts hcalm hground₁
          (mt hiff.mp haccepts) ("create " ++ part.quoted)
        dsimp only
        rw [World.run_bind_except, hfill]
        exact ⟨_, host₂, u, rfl, hcalm', .inr ⟨⟨e, rfl⟩, .unopened hprepared haccepts⟩⟩

theorem Stuck.not (h : Stuck t here c.output part c.trace t') :
    ¬ (Accepts t here c.output part ∧ Movable c.output) := by
  cases h with
  | unopened _ hnot => exact fun hboth => hnot hboth.1
  | unmoved _ _ hnot => exact fun hboth => hnot hboth.2

theorem run_removePartial_calm (h : Calm here t host) (part : Path) :
    (∃ t', t.remove here part = .ok t' ∧
        Calm here t' (run (removePartial (m := StateM FaultyHost) part) host).2) ∨
      (∃ e, t.remove here part = .error e) ∧
        Calm here t (run (removePartial (m := StateM FaultyHost) part) host).2 := by
  unfold removePartial
  rw [World.run_bind]
  cases hremove : t.remove here part with
  | ok t' =>
      obtain ⟨host', hrun, hcalm⟩ : ∃ host',
          run (Host.removeFile (m := StateM FaultyHost) part) host = (.ok (), host') ∧
            Calm here t' host' :=
        h.edit_ok hremove
      rw [hrun]
      exact .inl ⟨t', rfl, hcalm⟩
  | error e =>
      obtain ⟨host', hrun, hcalm⟩ : ∃ host',
          run (Host.removeFile (m := StateM FaultyHost) part) host = (.error e, host') ∧
            Calm here t host' :=
        h.edit_error hremove
      rw [hrun]
      exact .inr ⟨⟨e, rfl⟩, by cases e <;> exact hcalm⟩

theorem run_removePartial_stuck (h : Calm here t' host) (hground : Ground t here c.output part)
    (hstuck : Stuck t here c.output part c.trace t') :
    ∃ t'', Calm here t'' (run (removePartial (m := StateM FaultyHost) part) host).2 ∧
      Leaves t here c.output part c.trace t'' := by
  cases hstuck with
  | unopened hprepared hnot =>
      rcases run_removePartial_calm h part with ⟨t'', hremove, -⟩ | ⟨-, hcalm⟩
      · refine absurd ?_ hnot
        exact (accepts_iff_of_enlarged hprepared.enlarged).mp
          ((hground.prepared hprepared).accepts_of_remove hremove)
      · exact ⟨t', hcalm, leaves_of_not_accepts hground hprepared hnot c.trace⟩
  | unmoved hprepared hfilled hnot =>
      rcases run_removePartial_calm h part with ⟨t'', hremove, hcalm⟩ | ⟨⟨e, hremove⟩, -⟩
      · obtain rfl := Except.ok.inj (hfilled.remove_eq.symm.trans hremove)
        exact ⟨_, hcalm, hfilled.leaves_of_remove hprepared hnot c.trace⟩
      · simp [hfilled.remove_eq] at hremove

/-- A publication without faults succeeds where the partial file can be created and moved. -/
theorem run_publish_calm (hok : c.validate = .ok ()) (h : Calm here t host)
    (hground : Ground t here c.output part) :
    ∃ result host' t', run (publish (m := StateM FaultyHost) c) host = (result, host') ∧
      Calm here t' host' ∧ Leaves t here c.output part c.trace t' ∧
      (result = .ok ⟨c.lineCount, some c.output⟩ ∧
          (Accepts t here c.output part ∧ Movable c.output) ∨
        (∃ e, result = .error e) ∧ ¬ (Accepts t here c.output part ∧ Movable c.output)) := by
  obtain ⟨result, host', t', hrun, hcalm, hends⟩ :=
    run_writeAndRename_calm ((Config.validate_eq_ok_iff c).mp hok) h hground
  rw [run_publish hok hground.path, hrun]
  rcases hends with ⟨rfl, hboth, hleaves⟩ | ⟨⟨e, rfl⟩, hstuck⟩
  · exact ⟨_, host', t', rfl, hcalm, hleaves, .inl ⟨rfl, hboth⟩⟩
  · obtain ⟨t'', hcalm', hleaves⟩ := run_removePartial_stuck hcalm hground hstuck
    exact ⟨_, _, t'', rfl, hcalm', hleaves, .inr ⟨⟨e, rfl⟩, hstuck.not⟩⟩

end

end BankTrace.Publication
