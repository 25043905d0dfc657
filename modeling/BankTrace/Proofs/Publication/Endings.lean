import BankTrace.Proofs.Path.FileNames
import BankTrace.Proofs.Publication.Outcome

/-!
# How the path of an output may end

The file name of a path does not depend on idle segments behind it, but nothing can be moved onto a
path that ends in one. An output that is written so has a trace made for it that is then thrown
away.
-/

namespace BankTrace

open World (run)

/-! ## The last segment -/

namespace FileTree

variable {p : Path} {name : Name}

/-- What is the last segment of a path, if it is not idle, is its last name and has no slash behind
it. -/
theorem getLast?_segments_iff (hidle : Path.isIdle name = false) :
    p.segments.getLast? = some name ↔ p.endsInSlash = false ∧ (names p).getLast? = some name := by
  have hne : name ≠ [] := by
    rintro rfl
    simp [Path.isIdle] at hidle
  constructor
  · intro h
    obtain ⟨before, hsegments⟩ := List.getLast?_eq_some_iff.mp h
    refine ⟨Path.endsInSlash_eq_false hsegments hidle, ?_⟩
    rw [names, hsegments, List.filter_append]
    simp [hne]
  · rintro ⟨hslash, hlast⟩
    obtain ⟨before, last, hsegments⟩ := (List.eq_nil_or_concat' p.segments).resolve_left
      (List.splitOn_ne_nil Path.slash p.bytes)
    by_cases hnil : last = []
    · subst hnil
      have hbytes : p.bytes = [] := by
        by_contra hbytes
        simp [Path.endsInSlash_of_segments hsegments hbytes] at hslash
      obtain ⟨bytes⟩ := p
      obtain rfl : bytes = [] := hbytes
      simp [names, Path.segments] at hlast
    · rw [names, hsegments, List.filter_append] at hlast
      rw [hsegments]
      simpa [hnil] using hlast

end FileTree

namespace Publication

open FileTree

/-! ## Room for an output -/

/-- The directory an output is made in: the one its parent leads to, and the working directory if
there is nothing in front of the file name. -/
def IsAround (t : FileTree) (here : Location) (output : Path) (directory : Location) : Prop :=
  ∃ d, output.parent? = some d ∧
    if d.bytes = [] then directory = here ∧ t.entry? here = some .directory
    else t.find here d = .ok (directory, .directory)

/-- There is room for an output and its partial file: their directory is there, neither of them is,
and no limit of names and paths is met. -/
structure Room (t : FileTree) (here : Location) (output part : Path) (directory : Location)
    (name : Name) : Prop where
  fileName : output.fileName? = some name
  path : partialPath output = .ok part
  around : IsAround t here output directory
  noZero : 0 ∉ output.bytes
  length_le : output.bytes.length ≤ maxPathLength
  partLength_le : part.bytes.length ≤ maxPathLength
  nameLength_le : (name ++ partialSuffix).length ≤ maxNameLength
  vacant : t.entry? (name :: directory) = none
  vacantPart : t.entry? ((name ++ partialSuffix) :: directory) = none

section

variable {t t' : FileTree} {here directory l : Location} {output part : Path} {name : Name}
  {number : Nat} {content : ByteArray}

theorem IsAround.isDirectory (h : IsAround t here output directory) :
    t.entry? directory = some .directory := by
  obtain ⟨d, -, h⟩ := h
  split_ifs at h
  · exact h.1 ▸ h.2
  · exact (find_eq_ok_iff.mp h).2

theorem IsAround.begins (h : IsAround t here output directory) :
    t.entry? (start here output) = some .directory := by
  obtain ⟨d, hparent, h⟩ := h
  have hstart : start here d = start here output := by
    simp [start, (Path.parent?_eq_some hparent).2]
  rw [← hstart]
  split_ifs at h with hnil
  · rw [start, Path.isRooted, hnil]
    exact h.2
  · exact (locate_eq_ok_iff_leads.mp (find_eq_ok_iff.mp h).1).2.1

theorem IsAround.reaches (h : IsAround t here output directory) :
    ∃ left, Reaches t maxLinkCount (start here output) output.steps.dropLast left directory := by
  obtain ⟨d, hparent, h⟩ := h
  obtain ⟨hsteps, hrooted⟩ := Path.parent?_eq_some hparent
  have hstart : start here d = start here output := by simp [start, hrooted]
  split_ifs at h with hnil
  · obtain ⟨rfl, -⟩ := h
    rw [← hsteps, ← hstart, Path.steps_eq_nil hnil, start, Path.isRooted, hnil]
    exact ⟨_, .nil⟩
  · obtain ⟨hlocate, hdirectory⟩ := find_eq_ok_iff.mp h
    obtain ⟨left, hreaches⟩ := (locate_eq_ok_iff_leads.mp hlocate).2.2.reaches (.inl hdirectory)
    rw [moves_names, hsteps, hstart] at hreaches
    exact ⟨left, hreaches⟩

theorem Room.sibling (h : Room t here output part directory name) :
    ∃ outer, Sibling output part outer name := by
  obtain ⟨outer, name', hs⟩ := partialPath_eq_ok h.path
  obtain ⟨outer', hsteps⟩ := Path.fileName?_eq_some h.fileName
  obtain ⟨-, hname⟩ := List.append_inj' (hs.output_steps.symm.trans hsteps) rfl
  exact ⟨outer, List.singleton_inj.mp hname ▸ hs⟩

theorem Room.not_isIdle (h : Room t here output part directory name) :
    Path.isIdle name = false := by
  obtain ⟨outer, hs⟩ := h.sibling
  exact Path.not_isIdle_of_mem_steps (p := output) (by simp [hs.output_steps])

theorem Room.fault (h : Room t here output part directory name) :
    pathFault? output = none := by
  have hne : output.bytes ≠ [] := by
    intro hnil
    obtain ⟨outer, hs⟩ := h.sibling
    simpa [Path.steps_eq_nil hnil] using hs.output_steps
  rw [pathFault?, if_neg h.noZero, if_neg hne, if_neg (Nat.not_lt_of_le h.length_le)]

theorem Room.partFault (h : Room t here output part directory name) : pathFault? part = none := by
  obtain ⟨outer, hs⟩ := h.sibling
  have hne : part.bytes ≠ [] := by
    intro hnil
    simpa [Path.steps_eq_nil hnil] using hs.part_steps
  have hpart : part = output.withFileName (name ++ partialSuffix) := by
    have hpath := h.path
    rw [partialPath, h.fileName] at hpath
    exact (Except.ok.inj hpath).symm
  have hzero : 0 ∉ part.bytes := by
    intro hmem
    rw [hpart] at hmem
    have hname : name ∈ output.segments :=
      List.mem_of_mem_filter (p := fun segment => !Path.isIdle segment)
        (by rw [← Path.steps, hs.output_steps]; simp)
    rcases Path.mem_bytes_withFileName h.fileName hmem with hold | hslash | hnew
    · exact h.noZero hold
    · exact absurd hslash (by decide)
    · rcases List.mem_append.mp hnew with hnew | hnew
      · exact h.noZero (Path.subset_of_mem_splitOn name hname hnew)
      · exact absurd hnew (by decide +kernel)
  rw [pathFault?, if_neg hzero, if_neg hne, if_neg (Nat.not_lt_of_le h.partLength_le)]

/-! ## Where the output and the partial file are -/

theorem Room.stands_part (h : Room t here output part directory name) :
    ∃ left, t.Stands here part left directory (name ++ partialSuffix) := by
  obtain ⟨outer, hs⟩ := h.sibling
  obtain ⟨left, hreaches⟩ := h.around.reaches
  have hdot : name ++ partialSuffix ≠ Path.dot := append_partialSuffix_ne_short (by decide)
  have hdotDot : name ++ partialSuffix ≠ Path.dotDot := append_partialSuffix_ne_short (by decide)
  refine ⟨left, h.partFault, hs.start_eq here ▸ h.around.begins, hs.last, hdot, hdotDot,
    h.around.isDirectory, ?_⟩
  obtain ⟨hinit, -⟩ := List.append_inj' ((steps_of_last hs.last hdot).symm.trans hs.part_steps) rfl
  rwa [hinit, hs.start_eq, ← hs.dropLast_output]

theorem Room.stands_output (h : Room t here output part directory name)
    (hlast : (names output).getLast? = some name) :
    ∃ left, t.Stands here output left directory name := by
  obtain ⟨outer, hs⟩ := h.sibling
  obtain ⟨left, hreaches⟩ := h.around.reaches
  have hdot : name ≠ Path.dot := by
    rintro rfl
    exact absurd h.not_isIdle (by decide)
  refine ⟨left, h.fault, h.around.begins, hlast, hdot, Path.fileName?_ne_dotDot h.fileName,
    h.around.isDirectory, ?_⟩
  obtain ⟨hinit, -⟩ := List.append_inj' ((steps_of_last hlast hdot).symm.trans hs.output_steps) rfl
  rwa [hinit, ← hs.dropLast_output]

theorem Room.short (h : Room t here output part directory name) :
    name.length ≤ maxNameLength := by
  have hlength := h.nameLength_le
  rw [List.length_append] at hlength
  omega

/-- A location where nothing is can be created and written to without a change elsewhere. -/
theorem Opened.entry?_of_vacant (h : Opened t here part l number content t')
    (hnone : t.entry? l = none) {l' : Location} (hl : l' ≠ l) : t'.entry? l' = t.entry? l' := by
  refine h.entry?_of_not_shared ?_
  rintro (⟨heq, -⟩ | ⟨n, -, hn⟩)
  · exact hl heq
  · simp [hnone] at hn

theorem Room.create (h : Room t here output part directory name) :
    ∃ number t', t.create here part = .ok (.file number, t') ∧
      Opened t here part ((name ++ partialSuffix) :: directory) number .empty t' := by
  obtain ⟨outer, hs⟩ := h.sibling
  obtain ⟨left, hstands⟩ := h.stands_part
  have hlocate : t.locate .create here part = .ok ((name ++ partialSuffix) :: directory) :=
    hstands.locate_of_not_turns h.nameLength_le hs.slash (by simp [Turns, h.vacantPart])
  have hcreated := Created.made h.vacantPart h.around.isDirectory
  exact ⟨_, _, create_eq_ok_iff.mpr ⟨_, hlocate, hcreated⟩, .of_created hlocate hcreated⟩

/-! ## The operations on the file that was written -/

theorem Room.remove_eq (h : Room t here output part directory name)
    (hopened : Opened t here part ((name ++ partialSuffix) :: directory) number content t') :
    t'.remove here part = .ok (t'.erase ((name ++ partialSuffix) :: directory)) := by
  obtain ⟨outer, hs⟩ := h.sibling
  obtain ⟨left, hstands⟩ := h.stands_part
  exact (hstands.mono hopened.alike.forth).remove_eq h.nameLength_le hs.slash hopened.entry_eq

theorem Room.entry?_erase (h : Room t here output part directory name)
    (hopened : Opened t here part ((name ++ partialSuffix) :: directory) number content t')
    (l : Location) :
    entry? (t'.erase ((name ++ partialSuffix) :: directory)) l = t.entry? l := by
  by_cases hl : l = (name ++ partialSuffix) :: directory
  · rw [hl, entry?_erase_self (List.cons_ne_nil _ _), h.vacantPart]
  · rw [entry?_erase_of_ne (by simp [hopened.entry_eq]) hl,
      hopened.entry?_of_vacant h.vacantPart hl]

theorem Room.read_part (h : Room t here output part directory name)
    (hopened : Opened t here part ((name ++ partialSuffix) :: directory) number content t') :
    t'.read here part = .ok content := by
  obtain ⟨outer, hs⟩ := h.sibling
  obtain ⟨left, hstands⟩ := h.stands_part
  have hlocate : t'.locate .find here part = .ok ((name ++ partialSuffix) :: directory) :=
    (hstands.mono hopened.alike.forth).locate_of_not_turns h.nameLength_le hs.slash
      (by simp [Turns, hopened.entry_eq])
  exact read_eq_ok_iff.mpr ⟨_, _, hlocate, hopened.entry_eq, rfl⟩

theorem Room.rename_eq (h : Room t here output part directory name)
    (hopened : Opened t here part ((name ++ partialSuffix) :: directory) number content t')
    (hend : output.segments.getLast? = some name) :
    t'.rename here part output = .ok ((t'.erase ((name ++ partialSuffix) :: directory)).insert
      (name :: directory) (.file number content)) := by
  obtain ⟨hslash, hlast⟩ := (getLast?_segments_iff h.not_isIdle).mp hend
  obtain ⟨outer, hs⟩ := h.sibling
  obtain ⟨left, hpart⟩ := h.stands_part
  obtain ⟨left', houtput⟩ := h.stands_output hlast
  refine (hpart.mono hopened.alike.forth).rename_eq (houtput.mono hopened.alike.forth)
    h.nameLength_le h.short hs.slash hslash hopened.entry_eq ?_
  rw [hopened.entry?_of_vacant h.vacantPart (place_ne name directory).symm, h.vacant]

theorem Room.read_moved (h : Room t here output part directory name)
    (hopened : Opened t here part ((name ++ partialSuffix) :: directory) number content t')
    (hend : output.segments.getLast? = some name) :
    ((t'.erase ((name ++ partialSuffix) :: directory)).insert (name :: directory)
      (.file number content)).read here output = .ok content := by
  obtain ⟨hslash, hlast⟩ := (getLast?_segments_iff h.not_isIdle).mp hend
  obtain ⟨left, houtput⟩ := h.stands_output hlast
  have hguides : Guides t ((t'.erase ((name ++ partialSuffix) :: directory)).insert
      (name :: directory) (.file number content)) :=
    hopened.alike.forth.move (by simp [Turns, h.vacantPart]) (by simp [Turns, h.vacant]) _
  have hfile : t'.entry? ((name ++ partialSuffix) :: directory) ≠ some .directory := by
    simp [hopened.entry_eq]
  have he := entry?_move_target (e := .file number content) hfile (List.cons_ne_nil name directory)
    (hopened.alike.forth.directory h.around.isDirectory)
  refine read_eq_ok_iff.mpr ⟨_, _, ?_, he, rfl⟩
  exact (houtput.mono hguides).locate_of_not_turns h.short hslash (by simp [Turns, he])

theorem Room.rename_error (h : Room t here output part directory name)
    (hend : output.segments.getLast? ≠ some name) :
    ∃ e, t'.rename here part output = .error e := by
  cases hrename : t'.rename here part output with
  | error e => exact ⟨e, rfl⟩
  | ok t'' =>
      -- A rename that succeeds has found a place for the output, whose name ends it.
      obtain ⟨outer, hs⟩ := h.sibling
      obtain ⟨-, -, -, left, directory', name', -, houtput, -, hslash, -⟩ := rename_at hrename
      obtain ⟨rfl, -⟩ := hs.stands_output houtput
      exact absurd ((getLast?_segments_iff h.not_isIdle).mpr ⟨hslash, houtput.last⟩) hend

end

/-! ## The whole publication -/

section

variable {c : Config} {t : FileTree} {here directory : Location} {host : FaultyHost} {part : Path}
  {name : Name}

theorem Room.run_prepareDirectory {output : Path} (h : Room t here output part directory name)
    (hcalm : Calm here t host) :
    ∃ host', run (prepareDirectory (m := StateM FaultyHost) output).run host = (.ok (), host') ∧
      Calm here t host' := by
  obtain ⟨d, hparent, haround⟩ := h.around
  unfold prepareDirectory
  rw [hparent]
  dsimp only
  split_ifs at haround with hnil
  · rw [if_pos hnil]
    exact ⟨host, World.run_pure _ _, hcalm⟩
  · obtain ⟨host', hlook, hcalm'⟩ := hcalm.isPresent d
    have hpresent : run (ExceptT.lift (Host.isPresent d) :
        ExceptT Error (StateM FaultyHost) Bool).run host = (.ok true, host') := by
      simp [hlook, haround, Except.isOk, Except.toBool]
    rw [if_neg hnil, World.run_bind_except, hpresent]
    exact ⟨host', World.run_pure _ _, hcalm'⟩

/-- A writing into a room comes to the point where the whole trace is in the partial file and the
rename decides. -/
theorem Room.run_writeAndRename (hc : c.IsValid) (h : Room t here c.output part directory name)
    (hcalm : Calm here t host) :
    ∃ number t' host', Calm here t' host' ∧
      Opened t here part ((name ++ partialSuffix) :: directory) number c.trace t' ∧
      run (writeAndRename (m := StateM FaultyHost) c part).run host =
        run (ExceptT.run (m := StateM FaultyHost) do
          Host.attempt ("publish trace " ++ c.output.quoted) (Host.rename part c.output)
          pure c.lineCount) host' := by
  obtain ⟨number, t₁, hcreate, hopened⟩ := h.create
  obtain ⟨host₁, hprepare, hcalm₁⟩ := h.run_prepareDirectory hcalm
  obtain ⟨host₂, hfill, hcalm₂⟩ := run_fillNew_of_create hc hcalm₁ hcreate
    ("create " ++ part.quoted)
  have hwritten := hopened.changeFile (· ++ c.trace)
  rw [ByteArray.empty_append] at hwritten
  obtain ⟨host₃, hsync, hcalm₃⟩ : ∃ host₃,
      run (Host.syncFile (m := StateM FaultyHost) (OpenFile.file number)) host₂ = (.ok (), host₃) ∧
        Calm here (t₁.changeFile number (· ++ c.trace)) host₃ :=
    hcalm₂.edit_ok rfl
  refine ⟨number, _, host₃, hcalm₃, hwritten, ?_⟩
  rw [writeAndRename_eq, World.run_bind_except, hprepare]
  dsimp only
  rw [World.run_bind_except, hfill]
  dsimp only
  rw [World.run_bind_except, World.run_checked, hsync]
  rfl

/-- An output that is written with its file name at the end gets the whole trace. -/
theorem Room.run_publish_of_ends (hok : c.validate = .ok ())
    (h : Room t here c.output part directory name) (hcalm : Calm here t host)
    (hend : c.output.segments.getLast? = some name) :
    ∃ t' host', run (publish (m := StateM FaultyHost) c) host =
        (.ok ⟨c.lineCount, some c.output⟩, host') ∧ Calm here t' host' ∧
      t'.read here c.output = .ok c.trace := by
  obtain ⟨number, t₁, host₁, hcalm₁, hopened, hrun⟩ :=
    h.run_writeAndRename ((Config.validate_eq_ok_iff c).mp hok) hcalm
  obtain ⟨host₂, hrename, hcalm₂⟩ : ∃ host₂,
      run (Host.rename (m := StateM FaultyHost) part c.output) host₁ = (.ok (), host₂) ∧
        Calm here _ host₂ :=
    hcalm₁.edit_ok (h.rename_eq hopened hend)
  refine ⟨_, host₂, ?_, hcalm₂, h.read_moved hopened hend⟩
  rw [run_publish hok h.path, hrun, World.run_bind_except, World.run_attempt, hrename]
  rfl

/-- Whether the whole trace was in the partial file when it was to be moved onto the output, which
failed. -/
def Discards (here : Location) (part output : Path) (trace : ByteArray) (host : FaultyHost) :
    Prop :=
  ∃ step ∈ host.history, step.operation = .rename part output ∧ step.succeeded = false ∧
    step.tree.read here part = .ok trace

/-- An output that is written otherwise costs the whole trace, which is not moved, and everything
is as it was. -/
theorem Room.run_publish_of_not_ends (hok : c.validate = .ok ())
    (h : Room t here c.output part directory name) (hcalm : Calm here t host)
    (hend : c.output.segments.getLast? ≠ some name) :
    ∃ e t' host', run (publish (m := StateM FaultyHost) c) host =
        (.error (.inStep ("publish trace " ++ c.output.quoted) (.io e)), host') ∧
      Calm here t' host' ∧ (∀ l, t'.entry? l = t.entry? l) ∧
      Discards here part c.output c.trace host' := by
  obtain ⟨number, t₁, host₁, hcalm₁, hopened, hrun⟩ :=
    h.run_writeAndRename ((Config.validate_eq_ok_iff c).mp hok) hcalm
  obtain ⟨e, hmove⟩ : ∃ e, t₁.rename here part c.output = .error e := h.rename_error hend
  have hrename : run (Host.rename (m := StateM FaultyHost) part c.output) host₁ =
      (.error e, host₁.after (.rename part c.output) false t₁) :=
    hcalm₁.run_edit_error hmove
  obtain ⟨t₂, hremove, hcalm₂⟩ :=
    (run_removePartial_calm (hcalm₁.after (.rename part c.output) false t₁) part).resolve_right
      fun ⟨⟨e, herror⟩, _⟩ => by simp [h.remove_eq hopened] at herror
  obtain rfl := Except.ok.inj ((h.remove_eq hopened).symm.trans hremove)
  refine ⟨e, _, _, ?_, hcalm₂, h.entry?_erase hopened, ?_⟩
  · rw [run_publish hok h.path, hrun, World.run_bind_except, World.run_attempt, hrename]
    rfl
  · -- The removal is the one operation behind the rename, which the history still has.
    obtain ⟨succeeded, tree, hlast, -⟩ :=
      run_removePartial part (host₁.after (.rename part c.output) false t₁)
    rw [hlast]
    refine ⟨⟨.rename part c.output, false, t₁⟩, ?_, rfl, rfl, h.read_part hopened⟩
    exact List.mem_cons_of_mem _ List.mem_cons_self

end

/-- Where there is room for an output, its publication without faults depends on how the output is
written. With the file name at its end it gets the whole trace. With anything behind the file name
the whole trace is made for nothing. -/
theorem publish_in_room (c : Config) (t : FileTree) (here directory : Location) (part : Path)
    (name : Name) (hok : c.validate = .ok ()) (hroom : Room t here c.output part directory name) :
    let out := run (publish (m := StateM FaultyHost) c)
      { tree := t, here, faults := fun _ => .none }
    (c.output.segments.getLast? = some name →
        out.1 = .ok ⟨c.lineCount, some c.output⟩ ∧
        out.2.tree.read here c.output = .ok (Emission.bytes c)) ∧
      (c.output.segments.getLast? ≠ some name →
        (∃ e, out.1 = .error (.inStep ("publish trace " ++ c.output.quoted) (.io e))) ∧
        (∀ l, out.2.tree.entry? l = t.entry? l) ∧
        Discards here part c.output (Emission.bytes c) out.2) := by
  have hcalm : Calm here t { tree := t, here, faults := fun _ => .none } :=
    ⟨rfl, rfl, fun _ => rfl⟩
  rw [Emission.bytes_eq_trace ((Config.validate_eq_ok_iff c).mp hok)]
  constructor
  · intro hend
    obtain ⟨t', host', hrun, hcalm', hread⟩ := hroom.run_publish_of_ends hok hcalm hend
    rw [hrun]
    exact ⟨rfl, hcalm'.tree_eq ▸ hread⟩
  · intro hend
    obtain ⟨e, t', host', hrun, hcalm', hkept, hdiscards⟩ :=
      hroom.run_publish_of_not_ends hok hcalm hend
    rw [hrun]
    exact ⟨⟨e, rfl⟩, hcalm'.tree_eq ▸ hkept, hdiscards⟩

/-- An output behind a step back and a dot, in a directory that is there. -/
theorem publish_in_room_behind_steps :
    let c : Config := {
      output := .ofString "a/../d/./t"
      rowCount := 1
      burstCount := 1
      bankOrder := [3] }
    let part := Path.ofString "a/../d/t.partial"
    let t : FileTree := ⟨[([[0x61]], .directory), ([[0x64]], .directory)]⟩
    let out := run (publish (m := StateM FaultyHost) c)
      { tree := t, here := [], faults := fun _ => .none }
    c.validate = .ok () ∧ Room t [] c.output part [[0x64]] [0x74] ∧
      out.1 = .ok ⟨1, some c.output⟩ ∧ out.2.tree.read [] c.output = .ok (Emission.bytes c) := by
  intro c part t out
  have hok : c.validate = .ok () := by decide +kernel
  have hroom : Room t [] c.output part [[0x64]] [0x74] := by
    refine ⟨by decide +kernel, by decide +kernel, ⟨.ofString "a/../d", by decide +kernel, ?_⟩,
      by decide +kernel, by decide +kernel, by decide +kernel, by decide +kernel, rfl, ?_⟩
    · rw [if_neg (by decide +kernel)]
      rfl
    · rfl
  have hend : c.output.segments.getLast? = some [0x74] := by decide +kernel
  have hcount : c.lineCount = 1 := by decide +kernel
  clear_value c part t
  obtain ⟨hresult, hread⟩ := (publish_in_room c t [] [[0x64]] part [0x74] hok hroom).1 hend
  exact ⟨hok, hroom, hcount ▸ hresult, hread⟩

/-- A slash behind the file name is no fault of a configuration, but nothing is published. -/
theorem publish_with_slash_at_end :
    let c : Config := {
      output := ⟨[0x74, Path.slash]⟩
      rowCount := 1
      burstCount := 1
      bankOrder := [3] }
    let t : FileTree := ⟨[]⟩
    let out := run (publish (m := StateM FaultyHost) c)
      { tree := t, here := [], faults := fun _ => .none }
    c.validate = .ok () ∧ Room t [] c.output ⟨[0x74] ++ partialSuffix⟩ [] [0x74] ∧
      out.1 = .error (.inStep "publish trace \"t/\"" (.io .notDirectory)) := by
  intro c t out
  have hok : c.validate = .ok () := by decide +kernel
  have hroom : Room t [] c.output ⟨[0x74] ++ partialSuffix⟩ [] [0x74] := by
    refine ⟨by decide +kernel, by decide +kernel, ⟨⟨[]⟩, by decide +kernel, ?_⟩,
      by decide +kernel, by decide +kernel, by decide +kernel, by decide +kernel, rfl, rfl⟩
    rw [if_pos rfl]
    exact ⟨rfl, rfl⟩
  exact ⟨hok, hroom, by decide +kernel⟩

end Publication

end BankTrace
