import BankTrace.Proofs.Publication.Course
import BankTrace.Proofs.Publication.Partial

/-!
# What a publication changes in a tree

On every tree without links a publication changes the entry at the output, that at the partial path,
and nothing else, except that directories appear around the output where nothing was. This is true
whatever operation fails.
-/

namespace BankTrace.Publication

open World (run)
open FileTree

/-! ## The frame -/

/-- The locations of the directories around the output: those that a part of the path of its
directory leads to. -/
def Around (here : Location) (output : Path) (l : Location) : Prop :=
  ∃ directory steps, output.parent? = some directory ∧ steps ≠ [] ∧ steps <+: directory.steps ∧
    l = steps.reverse ++ start here directory

/-- A tree that differs from another at some locations and by directories around the output. -/
def Framed (initial : FileTree) (here : Location) (output : Path) (touched : List Location)
    (t : FileTree) : Prop :=
  ∀ l, l ∉ touched → t.entry? l = initial.entry? l ∨
    Around here output l ∧ initial.entry? l = none ∧ t.entry? l = some .directory

section

variable {initial t t' : FileTree} {here l : Location} {output part p : Path} {outer : List Name}
  {name : Name} {touched touched' : List Location}

theorem framed_refl (initial : FileTree) (here : Location) (output : Path)
    (touched : List Location) : Framed initial here output touched initial :=
  fun _ _ => .inl rfl

theorem Framed.mono (h : Framed initial here output touched t) (hsub : touched ⊆ touched') :
    Framed initial here output touched' t :=
  fun l hl => h l fun hmem => hl (hsub hmem)

theorem Framed.of_entry?_eq (h : Framed initial here output touched t)
    (hsame : ∀ l, l ∉ touched → t'.entry? l = t.entry? l) :
    Framed initial here output touched t' := by
  intro l hl
  rw [hsame l hl]
  exact h l hl

theorem Framed.entry?_eq (h : Framed initial here output touched t) (hl : l ∉ touched)
    (haround : ¬ Around here output l) : t.entry? l = initial.entry? l :=
  (h l hl).resolve_right fun hnew => haround hnew.1

/-- What is new around the output is neither a link nor a file. -/
theorem Framed.old_of_ne_directory (h : Framed initial here output touched t) (hl : l ∉ touched)
    {e : Entry} (he : t.entry? l = some e) (hdirectory : e ≠ .directory) :
    initial.entry? l = some e := by
  rcases h l hl with hsame | ⟨-, -, hnew⟩
  · rw [← hsame, he]
  · exact absurd (Option.some.inj (he.symm.trans hnew)) hdirectory

theorem Framed.not_link (h : Framed initial here output touched t) (hlinkless : initial.Linkless)
    (htouched : ∀ l ∈ touched, ∀ target, t.entry? l ≠ some (.link target)) (l : Location)
    (target : Path) : t.entry? l ≠ some (.link target) := by
  by_cases hl : l ∈ touched
  · exact htouched l hl target
  · exact fun he => hlinkless.not_link l target (h.old_of_ne_directory hl he (by simp))

theorem Framed.old_number (h : Framed initial here output touched t) (hl : l ∉ touched)
    {number : Nat} (hnumber : (t.entry? l).bind Entry.number? = some number) :
    (initial.entry? l).bind Entry.number? = some number := by
  obtain ⟨e, he, hnumber⟩ := Option.bind_eq_some_iff.mp hnumber
  obtain ⟨content, rfl⟩ := number?_eq_some_iff.mp hnumber
  rw [h.old_of_ne_directory hl he (by simp), Option.bind_some, hnumber]

theorem noLinks_of_forall (h : ∀ l target, t.entry? l ≠ some (.link target)) (here : Location)
    (names : List Name) : t.NoLinks here names :=
  Along.of_length fun l _ => h l

/-! ## The locations around the output -/

theorem around_iff : Around here output l ↔
    ∃ steps, steps ≠ [] ∧ steps <+: output.steps.dropLast ∧
      l = steps.reverse ++ start here output := by
  constructor
  · rintro ⟨directory, steps, hparent, hne, hpre, rfl⟩
    obtain ⟨hsteps, hrooted⟩ := Path.parent?_eq_some hparent
    exact ⟨steps, hne, hsteps ▸ hpre, by simp [start, hrooted]⟩
  · rintro ⟨steps, hne, hpre, rfl⟩
    have hsome : output.parent? ≠ none := by
      refine Path.parent?_ne_none fun hnil => hne ?_
      simpa [hnil] using hpre
    obtain ⟨directory, hparent⟩ := Option.ne_none_iff_exists'.mp hsome
    obtain ⟨hsteps, hrooted⟩ := Path.parent?_eq_some hparent
    exact ⟨directory, steps, hparent, hne, hsteps.symm ▸ hpre, by simp [start, hrooted]⟩

theorem Around.length_le (h : Around here output l) :
    l.length ≤ output.steps.dropLast.length + (start here output).length := by
  obtain ⟨steps, -, hpre, rfl⟩ := around_iff.mp h
  have := hpre.length_le
  simpa using this

theorem Sibling.length_direct (hs : Sibling output part outer name) (hp : p ∈ [output, part]) :
    (direct here p).length = outer.length + (start here output).length + 1 := by
  rcases List.mem_pair.mp hp with rfl | rfl
  · simp [hs.direct_output]
  · simp [hs.direct_part]

/-- Neither the output nor the partial file is around the output, nor is anything in them. -/
theorem Sibling.not_around (hs : Sibling output part outer name) (hp : p ∈ [output, part])
    (names : List Name) : ¬ Around here output (names ++ direct here p) := by
  intro haround
  have hle := haround.length_le
  rw [hs.dropLast_output, List.length_append, hs.length_direct hp] at hle
  omega

/-- What is in the output or in the partial file, where one of them is a directory, is kept. -/
theorem Framed.inside_eq (hs : Sibling output part outer name)
    (h : Framed initial here output [direct here output, direct here part] t)
    (hp : p ∈ [output, part]) {names : List Name} (hne : names ≠ []) :
    t.entry? (names ++ direct here p) = initial.entry? (names ++ direct here p) := by
  refine h.entry?_eq (fun hmem => hne ?_) (hs.not_around hp names)
  obtain ⟨q, hq, heq⟩ : ∃ q ∈ [output, part], direct here q = names ++ direct here p := by
    simpa [eq_comm] using hmem
  have hlength := congrArg List.length heq
  rw [List.length_append, hs.length_direct hp, hs.length_direct hq] at hlength
  exact List.eq_nil_of_length_eq_zero (by omega)

end

/-! ## The kinds of trees -/

/-- Whether a file is at a location where nothing was, or the same file with another content. -/
def Refilled (initial : FileTree) (l : Location) (number : Nat) (t : FileTree) : Prop :=
  (initial.entry? l = none ∨ ∃ old, initial.entry? l = some (.file number old)) ∧
    ∃ content, t.entry? l = some (.file number content)

/-- A tree in which the file at the partial path is written, which is at no other location. -/
structure Written (initial : FileTree) (here : Location) (output part : Path) (l : Location)
    (number : Nat) (content : ByteArray) (t : FileTree) : Prop where
  frame : Framed initial here output [direct here part] t
  at_part : l = direct here part
  part_initial : initial.entry? (direct here part) = none ∨
    ∃ old, initial.entry? (direct here part) = some (.file number old)
  entry : t.entry? l = some (.file number content)
  single : ∀ l', (t.entry? l').bind Entry.number? = some number → l' = l

/-- A tree in which the output is as it was, and at the partial path is what was there or the
partial file. -/
structure Unmoved (initial : FileTree) (here : Location) (output part : Path) (t : FileTree) :
    Prop where
  frame : Framed initial here output [direct here part] t
  part : t.entry? (direct here part) = initial.entry? (direct here part) ∨
    ∃ number, Refilled initial (direct here part) number t

/-- What is left of a tree by a publication that succeeds. -/
structure Delivered (initial : FileTree) (here : Location) (output part : Path) (trace : ByteArray)
    (t : FileTree) : Prop where
  frame : Framed initial here output [direct here output, direct here part] t
  around : ∀ l, Around here output l → t.entry? l = some .directory
  /-- A file with the whole trace is at the output, and its path leads there. -/
  output_eq : ∃ number, t.entry? (direct here output) = some (.file number trace) ∧
    t.held? here output = some (.file number trace)
  part_eq : t.entry? (direct here part) = none
  output_initial : initial.entry? (direct here output) ≠ some .directory
  part_initial : initial.entry? (direct here part) ≠ some .directory

/-- Whether the last operation was to remove a file and failed. -/
def RemovalFailed (part : Path) (host : FaultyHost) : Prop :=
  ∃ older, host.history = ⟨.removeFile part, false, host.tree⟩ :: older

/-- What a publication leaves that fails, on the host it was started on. -/
structure Withdrawn (initial : FileTree) (here : Location) (output part : Path)
    (host : FaultyHost) : Prop where
  frame : Framed initial here output [direct here part] host.tree
  output_eq : host.tree.entry? (direct here output) = initial.entry? (direct here output)
  directory : initial.entry? (direct here part) = some .directory →
    host.tree.entry? (direct here part) = some .directory
  /-- A partial file is left, old or new, only where it could not be removed. -/
  removed : initial.entry? (direct here part) ≠ some .directory →
    host.tree.entry? (direct here part) = none ∨ RemovalFailed part host ∧
      (host.tree.entry? (direct here part) = initial.entry? (direct here part) ∨
        ∃ number, Refilled initial (direct here part) number host.tree)

section

variable {initial t t' : FileTree} {here l : Location} {output part : Path} {outer : List Name}
  {name : Name} {number : Nat} {content : ByteArray} {file : OpenFile}

theorem Refilled.ne_directory (h : Refilled initial l number t) :
    initial.entry? l ≠ some .directory := by
  rcases h.1 with hnone | ⟨old, hfile⟩
  · simp [hnone]
  · simp [hfile]

theorem Framed.entry?_part (h : Framed initial here output [] t)
    (hs : Sibling output part outer name) :
    t.entry? (direct here part) = initial.entry? (direct here part) :=
  h.entry?_eq List.not_mem_nil (hs.not_around (by simp) [])

theorem Framed.unmoved (h : Framed initial here output [] t)
    (hs : Sibling output part outer name) : Unmoved initial here output part t :=
  ⟨h.mono (List.nil_subset _), .inl (h.entry?_part hs)⟩

theorem Written.refilled (h : Written initial here output part l number content t) :
    Refilled initial (direct here part) number t :=
  ⟨h.part_initial, content, h.at_part ▸ h.entry⟩

theorem Written.unmoved (h : Written initial here output part l number content t) :
    Unmoved initial here output part t :=
  ⟨h.frame, .inr ⟨number, h.refilled⟩⟩

theorem Unmoved.not_link (h : Unmoved initial here output part t) (hlinkless : initial.Linkless)
    (l : Location) (target : Path) : t.entry? l ≠ some (.link target) := by
  refine h.frame.not_link hlinkless (fun l hl target => ?_) l target
  obtain rfl := List.mem_singleton.mp hl
  rcases h.part with hsame | ⟨number, -, content, hfile⟩
  · rw [hsame]
    exact hlinkless.not_link _ target
  · simp [hfile]

theorem Framed.entry?_output (h : Framed initial here output [direct here part] t)
    (hs : Sibling output part outer name) :
    t.entry? (direct here output) = initial.entry? (direct here output) :=
  h.entry?_eq (by simpa using (hs.direct_ne here).symm) (hs.not_around (by simp) [])

/-! ## Single operations -/

/-- A directory is made only around the output and only where nothing was. -/
theorem Framed.makeDirectory (h : Framed initial here output [] t) (hlinkless : initial.Linkless)
    (hback : Path.dotDot ∉ output.steps) {p : Path} (hsteps : p.steps <+: output.steps.dropLast)
    (hrooted : p.isRooted = output.isRooted) (hmake : t.makeDirectory here p = .ok t') :
    Framed initial here output [] t' := by
  have hback' : Path.dotDot ∉ p.steps := fun hmem =>
    hback (List.dropLast_subset _ (hsteps.subset hmem))
  have hlink := h.not_link hlinkless (by simp)
  obtain ⟨hnone, htail, hne, rfl⟩ :=
    makeDirectory_eq_ok hback' (noLinks_of_forall hlink _ _) hmake
  have hstart : start here p = start here output := by simp [start, hrooted]
  have haround : Around here output (direct here p) :=
    around_iff.mpr ⟨p.steps, hne, hsteps, by rw [direct, hstart]⟩
  intro l hl
  by_cases heq : l = direct here p
  · subst heq
    refine .inr ⟨haround, ?_, entry?_insert_self (by simp [direct, hne]) htail _⟩
    rcases h _ hl with hsame | ⟨-, hmissing, -⟩
    · rw [← hsame, hnone]
    · exact hmissing
  · rw [entry?_insert_of_ne (by simp [hnone]) heq]
    exact h l hl

theorem Written.changeFile (h : Written initial here output part l number content t)
    (change : ByteArray → ByteArray) :
    Written initial here output part l number (change content) (t.changeFile number change) := by
  have hsame (l' : Location) (hl' : l' ≠ l) :
      entry? (t.changeFile number change) l' = t.entry? l' := by
    refine entry?_changeFile_of_number?_ne (fun e he hnumber => hl' (h.single l' ?_)) change
    rw [he]
    exact hnumber
  refine ⟨h.frame.of_entry?_eq fun l' hl' => hsame l' ?_, h.at_part, h.part_initial,
    entry?_changeFile_self h.entry change, fun l' hl' => ?_⟩
  · rw [h.at_part]
    simpa using hl'
  · by_contra hne
    rw [hsame l' hne] at hl'
    exact hne (h.single l' hl')

/-- The partial file is emptied or made, as a file of its own, or it is a device. -/
theorem Framed.create (h : Framed initial here output [] t) (hlinkless : initial.Linkless)
    (hs : Sibling output part outer name) (hback : Path.dotDot ∉ output.steps)
    (hcreate : t.create here part = .ok (file, t')) :
    (∃ number, file = .file number ∧
        Written initial here output part (direct here part) number .empty t') ∨
      file = .full ∧ t' = t := by
  have hlink := h.not_link hlinkless (by simp)
  obtain ⟨-, -, -, hcreated⟩ := create_eq_ok (hs.dotDot_not_mem hback)
    (noLinks_of_forall hlink _ _) hs.slash hcreate
  have hframe : Framed initial here output [direct here part] t := h.mono (List.nil_subset _)
  have hpart := h.entry?_part hs
  cases hcreated with
  | full he => exact .inr ⟨rfl, rfl⟩
  | @emptied number content he =>
      have hwritten :
          Written initial here output part (direct here part) number content t := by
        refine ⟨hframe, rfl, .inr ⟨content, hpart ▸ he⟩, he, fun l' hl' => ?_⟩
        refine hlinkless.single _ _ number (h.old_number List.not_mem_nil hl') ?_
        rw [← hpart, he]
        rfl
      exact .inl ⟨number, rfl, hwritten.changeFile fun _ => .empty⟩
  | made he htail =>
      have hroot : direct here part ≠ [] := by simp [hs.direct_part]
      have hsame {l' : Location} (hl' : l' ≠ direct here part) :
          entry? (t.insert (direct here part) (.file t.freshNumber .empty)) l' = t.entry? l' :=
        entry?_insert_of_ne (by simp [he]) hl' _
      refine .inl ⟨t.freshNumber, rfl, hframe.of_entry?_eq fun l' hl' => ?_, rfl,
        .inl (hpart ▸ he), entry?_insert_self hroot htail _, fun l' hl' => ?_⟩
      · exact hsame (by simpa using hl')
      · by_contra hne
        rw [hsame hne] at hl'
        obtain ⟨e, he, hnumber⟩ := Option.bind_eq_some_iff.mp hl'
        exact number?_ne_freshNumber he hnumber

theorem Written.rename (h : Written initial here output part l number content t)
    (hlinkless : initial.Linkless) (hs : Sibling output part outer name)
    (hback : Path.dotDot ∉ output.steps) (hrename : t.rename here part output = .ok t') :
    Delivered initial here output part content t' := by
  have hlink := h.unmoved.not_link hlinkless
  have houtput := h.frame.entry?_output hs
  obtain rfl := h.at_part
  have hrenamed := rename_eq_ok (hs.dotDot_not_mem hback) (noLinks_of_forall hlink _ _) hback
    (noLinks_of_forall hlink _ _) hrename
  obtain ⟨hdirectory, rfl⟩ := hrenamed.moved.eq_of_file h.entry (hs.direct_ne here)
    fun other hother hnumber =>
      hs.direct_ne here (h.single _ (by rw [hother]; exact hnumber)).symm
  have hroot : direct here output ≠ [] := by simp [hs.direct_output]
  have hrootPart : direct here part ≠ [] := by simp [hs.direct_part]
  have hfile : t.entry? (direct here part) ≠ some .directory := by simp [h.entry]
  have hkept (l : Location) (hl : l ∉ [direct here output, direct here part]) :
      entry? ((t.erase (direct here part)).insert (direct here output) (.file number content)) l =
        t.entry? l := by
    obtain ⟨hl, hl'⟩ : l ≠ direct here output ∧ l ≠ direct here part := by simpa using hl
    exact entry?_move_of_ne hfile hdirectory hl' hl
  have hopen := hs.open_move hfile hdirectory hrenamed.passed (.file number content)
  constructor
  case frame => exact (h.frame.mono (by simp)).of_entry?_eq hkept
  case around =>
    intro l haround
    obtain ⟨steps, hne, hpre, rfl⟩ := around_iff.mp haround
    exact (hopen.of_prefix hpre).last hne
  case output_eq =>
    have hentry := entry?_move_target (e := .file number content) hfile hroot
      hrenamed.moved.around
    exact ⟨number, hentry, hrenamed.held? hback hopen hentry⟩
  case part_eq => exact entry?_move_source hrootPart hroot (hs.direct_ne here)
  case output_initial => rwa [← houtput]
  case part_initial => exact h.refilled.ne_directory

theorem Unmoved.remove (h : Unmoved initial here output part t) (hlinkless : initial.Linkless)
    (hs : Sibling output part outer name) (hback : Path.dotDot ∉ output.steps)
    (hremove : t.remove here part = .ok t') :
    initial.entry? (direct here part) ≠ some .directory ∧ t'.entry? (direct here part) = none ∧
      Framed initial here output [direct here part] t' := by
  have hlink := h.not_link hlinkless
  obtain ⟨hroot, hdirectory, rfl⟩ := remove_eq_ok (hs.dotDot_not_mem hback)
    (noLinks_of_forall hlink _ _) hremove
  refine ⟨?_, entry?_erase_self hroot, h.frame.of_entry?_eq fun l hl => ?_⟩
  · rcases h.part with hsame | ⟨number, hrefilled⟩
    · rwa [← hsame]
    · exact hrefilled.ne_directory
  · exact entry?_erase_of_ne hdirectory (by simpa using hl)

theorem Sibling.framed_course (hs : Sibling output part outer name)
    (hback : Path.dotDot ∉ output.steps) (hlinkless : initial.Linkless) :
    Course here output part (Framed initial here output []) (Written initial here output part)
      (Unmoved initial here output part) where
  makeDirectory p t t' hsteps hrooted hframed hmake :=
    hframed.makeDirectory hlinkless hback hsteps hrooted hmake
  create t t' number hframed hcreate := by
    rcases hframed.create hlinkless hs hback hcreate with ⟨number', heq, hwritten⟩ | ⟨heq, -⟩
    · obtain rfl := OpenFile.file.inj heq
      exact ⟨_, hwritten⟩
    · cases heq
  device t t' hframed hcreate := by
    rcases hframed.create hlinkless hs hback hcreate with ⟨number, heq, -⟩ | ⟨-, rfl⟩
    · cases heq
    · exact hframed.unmoved hs
  write t l number content change hwritten := hwritten.changeFile change
  entry_eq t l number content hwritten := hwritten.entry
  failed_of_prepared t hframed := hframed.unmoved hs
  failed_of_filled t l number content hwritten := hwritten.unmoved

theorem withdrawn_removePartial {start host : FaultyHost} (hlinkless : initial.Linkless)
    (hs : Sibling output part outer name) (hback : Path.dotDot ∉ output.steps)
    (h : HasTree start (Unmoved initial start.here output part) host) :
    Withdrawn initial start.here output part
      (run (removePartial (m := StateM FaultyHost) part) host).2 := by
  obtain ⟨succeeded, tree, hrun, hok, herror⟩ := run_removePartial part host
  rw [hrun]
  cases succeeded with
  | true =>
      have hremove := hok rfl
      rw [h.here_eq] at hremove
      obtain ⟨hinitial, hnone, hframe⟩ := h.tree.remove hlinkless hs hback hremove
      exact ⟨hframe, hframe.entry?_output hs, fun hdirectory => absurd hdirectory hinitial,
        fun _ => .inl hnone⟩
  | false =>
      obtain rfl := herror rfl
      have hframe := h.tree.frame
      refine ⟨hframe, hframe.entry?_output hs, fun hdirectory => ?_, fun _ => .inr ⟨?_, ?_⟩⟩
      · rcases h.tree.part with hsame | ⟨number, hrefilled⟩
        · exact hsame.trans hdirectory
        · exact absurd hdirectory hrefilled.ne_directory
      · exact ⟨host.history, rfl⟩
      · exact h.tree.part

end

/-! ## Whole publications -/

/-- On a tree without links, whatever faults meet a publication: a configuration that is not valid
leaves the tree as it is. Otherwise the entries at the output and at the partial path are the only
ones that change, the first only when the publication succeeds, and directories are added around the
output. What is in a directory at one of the two paths is kept. -/
theorem publish_frame (c : Config) (start : FaultyHost) (hback : .parent ∉ c.output.components)
    (hlinkless : start.tree.Linkless) :
    let out := run (publish (m := StateM FaultyHost) c) start
    (∀ e, c.validate = .error e → out = (.error (.config e), start)) ∧
    (c.validate = .ok () → ∃ part, partialPath c.output = .ok part ∧
      (∀ summary, out.1 = .ok summary →
        Delivered start.tree start.here c.output part c.trace out.2.tree) ∧
      (∀ e, out.1 = .error e → Withdrawn start.tree start.here c.output part out.2) ∧
      ∀ p ∈ [c.output, part], ∀ names, names ≠ [] →
        out.2.tree.entry? (names ++ direct start.here p) =
          start.tree.entry? (names ++ direct start.here p)) := by
  refine ⟨fun e he => ?_, fun hok => ?_⟩
  · unfold publish
    rw [he]
    rfl
  have hc := (Config.validate_eq_ok_iff c).mp hok
  obtain ⟨part, hpart⟩ : ∃ part, partialPath c.output = .ok part := by
    obtain ⟨name, hname⟩ := Option.isSome_iff_exists.mp hc.hasFileName
    exact ⟨_, by rw [partialPath, hname]⟩
  obtain ⟨outer, name, hs⟩ := partialPath_eq_ok hpart
  have hback' := Path.dotDot_not_mem_steps hback
  have hcourse : Course start.here c.output part (Framed start.tree start.here c.output [])
      (Written start.tree start.here c.output part) (Unmoved start.tree start.here c.output part) :=
    hs.framed_course hback' hlinkless
  have hends := hcourse.ends_writeAndRename hc (framed_refl start.tree start.here c.output [])
  refine ⟨part, hpart, ?_⟩
  rw [run_publish hok hpart]
  unfold World.Ends at hends
  rcases hrun : run (writeAndRename (m := StateM FaultyHost) c part).run start with
    ⟨e | dataLines, host⟩
  · rw [hrun] at hends
    have hwithdrawn := withdrawn_removePartial hlinkless hs hback' hends
    exact ⟨by simp, fun _ _ => hwithdrawn, fun p hp names hne =>
      (hwithdrawn.frame.mono (by simp)).inside_eq hs hp hne⟩
  · rw [hrun] at hends
    obtain ⟨l, number, t, hwritten, hrename⟩ := hends
    have hdelivered := hwritten.rename hlinkless hs hback' hrename
    exact ⟨fun _ _ => hdelivered, by simp, fun p hp names hne =>
      hdelivered.frame.inside_eq hs hp hne⟩

/-- The directory of the output is new, and its path has a doubled slash and a dot. Where the last
step fails the directory stays, the file in it does not. -/
theorem publish_frame_without_rename :
    let c : Config := {
      output := ⟨[0x64, 0x2F, 0x2F, 0x6E, 0x2F, 0x2E, 0x2F, 0x74]⟩
      rowCount := 1
      burstCount := 1
      bankOrder := [3] }
    let start : FaultyHost := {
      tree := ⟨[([[0x64]], .directory), ([[0x6B], [0x64]], .file 0 ⟨#[0x6F]⟩),
        ([[0x74]], .file 1 ⟨#[0x70]⟩)]⟩
      here := []
      faults := fun i => if i = 5 then .failure .noSpace 0 else .none }
    let out := run (publish (m := StateM FaultyHost) c) start
    .parent ∉ c.output.components ∧ start.tree.Linkless ∧ c.validate = .ok () ∧
      out.1.isOk = false ∧ start.tree.entry? [[0x6E], [0x64]] = none ∧
      out.2.tree.entry? [[0x6E], [0x64]] = some .directory ∧
      ∃ part, partialPath c.output = .ok part ∧
        Withdrawn start.tree start.here c.output part out.2 := by
  intro c start out
  have hback : .parent ∉ c.output.components := by decide
  have hlinkless : start.tree.Linkless := linkless_of_entries (by simp [start]) (by decide)
  have hok : c.validate = .ok () := by decide
  have hresult : (run (publish (m := StateM FaultyHost) c) start).1.isOk = false := by
    decide +kernel
  have hmissing : start.tree.entry? [[0x6E], [0x64]] = none := rfl
  have hmade : (run (publish (m := StateM FaultyHost) c) start).2.tree.isDirectory
      [[0x6E], [0x64]] = true := by
    decide +kernel
  clear_value c start
  obtain ⟨part, hpart, -, herror, -⟩ := (publish_frame c start hback hlinkless).2 hok
  obtain ⟨e, he⟩ : ∃ e, (run (publish (m := StateM FaultyHost) c) start).1 = .error e := by
    cases h : (run (publish (m := StateM FaultyHost) c) start).1 with
    | error e => exact ⟨e, rfl⟩
    | ok summary => simp [h, Except.isOk, Except.toBool] at hresult
  exact ⟨hback, hlinkless, hok, hresult, hmissing, isDirectory_iff.mp hmade, part, hpart,
    herror e he⟩

/-- From the second operation on nothing can be changed: neither can the partial file be written nor
removed. It stays where nothing was before. -/
theorem publish_frame_without_removal :
    let c : Config := { output := ⟨[0x74]⟩, rowCount := 1, burstCount := 1, bankOrder := [3] }
    let start : FaultyHost := {
      tree := ⟨[]⟩
      here := []
      faults := fun i => if i = 0 then .none else .failure (.other "Read-only file system") 0 }
    let out := run (publish (m := StateM FaultyHost) c) start
    .parent ∉ c.output.components ∧ start.tree.Linkless ∧ c.validate = .ok () ∧
      out.1.isOk = false ∧ ∃ part, partialPath c.output = .ok part ∧
        ¬ Around start.here c.output (direct start.here part) ∧
        start.tree.entry? (direct start.here part) = none ∧ ∃ number content,
          out.2.tree.entry? (direct start.here part) = some (.file number content) := by
  intro c start out
  have hback : .parent ∉ c.output.components := by decide
  have hlinkless : start.tree.Linkless := linkless_of_entries (by simp [start]) (by simp [start])
  have hok : c.validate = .ok () := by decide
  have hresult : out.1.isOk = false := by decide +kernel
  have hpart : partialPath c.output = .ok ⟨[0x74] ++ partialSuffix⟩ := by decide +kernel
  have hdirect : direct start.here ⟨[0x74] ++ partialSuffix⟩ = [[0x74] ++ partialSuffix] := by
    decide +kernel
  have haround : ¬ Around start.here c.output (direct start.here ⟨[0x74] ++ partialSuffix⟩) := by
    obtain ⟨outer, name, hs⟩ := partialPath_eq_ok hpart
    exact hs.not_around (p := ⟨[0x74] ++ partialSuffix⟩) (by simp) []
  have hleft : (out.2.tree.entry? [[0x74] ++ partialSuffix]).bind Entry.number? = some 0 := by
    decide +kernel
  refine ⟨hback, hlinkless, hok, hresult, _, hpart, haround, ?_⟩
  rw [hdirect]
  refine ⟨rfl, ?_⟩
  obtain ⟨e, he, hnumber⟩ := Option.bind_eq_some_iff.mp hleft
  obtain ⟨content, rfl⟩ := number?_eq_some_iff.mp hnumber
  exact ⟨0, content, he⟩

end BankTrace.Publication
