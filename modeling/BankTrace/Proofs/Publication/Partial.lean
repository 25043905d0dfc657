import BankTrace.Proofs.FileTree.Operations
import BankTrace.Proofs.Path.FileNames
import BankTrace.Publication

/-!
# The partial file and the tree around it

The partial file is beside the output, under another name. What is done on the way to the partial
file and to it leaves the output as it was, as long as the two are not one file.
-/

namespace BankTrace.Publication

open FileTree

/-! ## The path beside the output -/

/-- Two paths to entries of one directory, the second under the name of the first with the suffix
of partial files. -/
structure Sibling (output part : Path) (outer : List Name) (name : Name) : Prop where
  output_steps : output.steps = outer ++ [name]
  part_steps : part.steps = outer ++ [name ++ partialSuffix]
  isRooted : part.isRooted = output.isRooted
  last : (names part).getLast? = some (name ++ partialSuffix)
  slash : part.endsInSlash = false

theorem partialSuffix_length : partialSuffix.length = 8 := by decide +kernel

theorem slash_not_mem_partialSuffix : Path.slash ∉ partialSuffix := by decide +kernel

theorem append_partialSuffix_ne (name : Name) : name ++ partialSuffix ≠ name := by
  intro heq
  have hlength := congrArg List.length heq
  simp [partialSuffix_length] at hlength

theorem append_partialSuffix_ne_short {name other : Name} (h : other.length < 8) :
    name ++ partialSuffix ≠ other := by
  intro heq
  have := congrArg List.length heq
  rw [List.length_append, partialSuffix_length] at this
  omega

theorem isFileName_partial {name : Name} (h : Path.IsFileName name) :
    Path.IsFileName (name ++ partialSuffix) where
  nonempty := append_partialSuffix_ne_short (by decide)
  slash_not_mem := by
    rw [List.mem_append, not_or]
    exact ⟨h.slash_not_mem, slash_not_mem_partialSuffix⟩
  ne_dot := append_partialSuffix_ne_short (by decide)
  ne_dotDot := append_partialSuffix_ne_short (by decide)

theorem partialPath_eq_ok {output part : Path} (h : partialPath output = .ok part) :
    ∃ outer name, Sibling output part outer name := by
  unfold partialPath at h
  split at h
  next name hname =>
    obtain rfl := Except.ok.inj h
    obtain ⟨outer, hsteps⟩ := Path.fileName?_eq_some hname
    have hpartial := isFileName_partial (Path.isFileName_of_fileName? hname)
    obtain ⟨before, hsegments, hpart, hrooted⟩ :=
      Path.withFileName_segments hname hpartial.slash_not_mem hpartial.isIdle_eq_false
    refine ⟨outer, name, hsteps, ?_, hrooted, ?_,
      Path.endsInSlash_eq_false hsegments hpartial.isIdle_eq_false⟩
    · rw [hpart, hsteps, List.dropLast_concat]
    · rw [names, hsegments, List.filter_append]
      simp [hpartial.nonempty]
  next => simp at h

section

variable {output part : Path} {outer : List Name} {name : Name} {here : Location}

theorem Sibling.start_eq (h : Sibling output part outer name) (here : Location) :
    start here part = start here output := by
  simp [start, h.isRooted]

theorem Sibling.direct_output (h : Sibling output part outer name) (here : Location) :
    direct here output = name :: (outer.reverse ++ start here output) := by
  simp [direct, h.output_steps]

theorem Sibling.direct_part (h : Sibling output part outer name) (here : Location) :
    direct here part = (name ++ partialSuffix) :: (outer.reverse ++ start here output) := by
  simp [direct, h.part_steps, h.start_eq]

theorem Sibling.direct_ne (h : Sibling output part outer name) (here : Location) :
    direct here part ≠ direct here output := by
  rw [h.direct_part, h.direct_output]
  exact fun heq => append_partialSuffix_ne name (List.cons.inj heq).1

theorem Sibling.around_ne (h : Sibling output part outer name) (here : Location) :
    Along (fun l => l ≠ direct here part ∧ l ≠ direct here output) (start here output) outer := by
  refine Along.of_length fun l hl => ?_
  rw [h.direct_part, h.direct_output]
  constructor <;>
    · rintro rfl
      simp at hl

theorem Sibling.dropLast_output (h : Sibling output part outer name) :
    output.steps.dropLast = outer := by
  rw [h.output_steps, List.dropLast_concat]

theorem Sibling.dropLast_part (h : Sibling output part outer name) :
    part.steps.dropLast = outer := by
  rw [h.part_steps, List.dropLast_concat]

theorem Sibling.dotDot_not_mem (h : Sibling output part outer name)
    (hback : Path.dotDot ∉ output.steps) : Path.dotDot ∉ part.steps := by
  rw [h.output_steps, List.mem_append, not_or] at hback
  rw [h.part_steps, List.mem_append, not_or, List.mem_singleton]
  exact ⟨hback.1, (append_partialSuffix_ne_short (by decide)).symm⟩

theorem Sibling.tail_output (h : Sibling output part outer name) (here : Location) :
    (direct here output).tail = output.steps.dropLast.reverse ++ start here output := by
  rw [h.direct_output, h.dropLast_output, List.tail_cons]

theorem Sibling.tail_part (h : Sibling output part outer name) (here : Location) :
    (direct here part).tail = output.steps.dropLast.reverse ++ start here output := by
  rw [h.direct_part, h.dropLast_output, List.tail_cons]

/-- The way of the output is as open as before when the partial file has been moved there. -/
theorem Sibling.open_move {t : FileTree} (h : Sibling output part outer name)
    (hfile : t.entry? (direct here part) ≠ some .directory)
    (hempty : t.entry? (direct here output) ≠ some .directory)
    (hopen : t.Open (start here output) output.steps.dropLast) (e : Entry) :
    Open ((t.erase (direct here part)).insert (direct here output) e) (start here output)
      output.steps.dropLast := by
  rw [h.dropLast_output] at hopen ⊢
  apply (hopen.and (h.around_ne here)).imp
  rintro l ⟨hl, hpart, hout⟩
  rwa [entry?_move_of_ne hfile hempty hpart hout]

end

/-- What is taken for granted of the tree a publication starts from: no link is on the way to the
output, and what is at the partial path, if anything, is a file that is not also the output. -/
structure Premises (initial : FileTree) (here : Location) (output part : Path) (outer : List Name)
    (name : Name) : Prop extends Sibling output part outer name where
  back : Path.dotDot ∉ output.steps
  links : initial.LinkFree here output
  part_file : ∀ e, initial.entry? (direct here part) = some e →
    (∃ number content, e = .file number content) ∧ initial.isAlso (direct here output) e = false

/-! ## Trees in which the output is as it was -/

/-- The entries that decide what the output holds: they are as they were, or directories where
nothing was. -/
structure Undisturbed (initial : FileTree) (here : Location) (output : Path) (t : FileTree) :
    Prop where
  around : Along (fun l => t.entry? l = initial.entry? l ∨
    initial.entry? l = none ∧ t.entry? l = some .directory)
    (start here output) output.steps.dropLast
  at_end : t.entry? (direct here output) = initial.entry? (direct here output)

section

variable {initial t t' : FileTree} {here : Location} {output part : Path} {outer : List Name}
  {name : Name}

theorem Premises.noLinks (hs : Premises initial here output part outer name) :
    initial.NoLinks (start here output) outer := by
  have hlinks := hs.links
  rw [LinkFree, hs.output_steps] at hlinks
  exact (along_concat.mp hlinks).1

theorem Premises.end_not_link (hs : Premises initial here output part outer name) (target : Path) :
    initial.entry? (direct here output) ≠ some (.link target) := by
  have hlinks := hs.links
  rw [LinkFree, hs.output_steps] at hlinks
  rw [hs.direct_output]
  exact (along_concat.mp hlinks).2 target

theorem Undisturbed.noLinks (h : Undisturbed initial here output t)
    (hs : Premises initial here output part outer name) : t.NoLinks (start here output) outer := by
  have haround := h.around
  rw [hs.dropLast_output] at haround
  apply (haround.and hs.noLinks).imp
  rintro l ⟨hsame | ⟨-, hdirectory⟩, hno⟩ target
  · rw [hsame]
    exact hno target
  · simp [hdirectory]

theorem Undisturbed.linkFree (h : Undisturbed initial here output t)
    (hs : Premises initial here output part outer name) : t.LinkFree here output := by
  rw [LinkFree, hs.output_steps]
  refine along_concat.mpr ⟨h.noLinks hs, fun target => ?_⟩
  rw [← hs.direct_output, h.at_end]
  exact hs.end_not_link target

/-- What the output holds depends on the entries on its way only. -/
theorem Undisturbed.held?_eq (h : Undisturbed initial here output t)
    (hs : Premises initial here output part outer name) :
    t.held? here output = initial.held? here output := by
  have hsteps : output.steps ≠ [] := by simp [hs.output_steps]
  refine Option.ext fun e => ?_
  rw [held?_eq_some_iff hsteps hs.back (h.linkFree hs), held?_eq_some_iff hsteps hs.back hs.links,
    h.at_end]
  refine and_congr_right fun hfault => and_congr_left fun he => ?_
  have hmoves : moves (names output) = output.steps := moves_names output
  constructor
  · rintro ⟨heq, hshort, -, hends⟩
    refine ⟨heq, hshort, ?_, h.at_end ▸ hends⟩
    rw [hmoves]
    apply open_of_entry?
    rw [← direct, he]
    simp
  · rintro ⟨heq, hshort, hpassed, hends⟩
    refine ⟨heq, hshort, ?_, h.at_end.symm ▸ hends⟩
    rw [hmoves] at hpassed ⊢
    apply (h.around.and hpassed).imp
    rintro l ⟨hsame | ⟨-, hdirectory⟩, hinitial⟩
    · rw [hsame, hinitial]
    · exact hdirectory

theorem Undisturbed.remove (h : Undisturbed initial here output t)
    (hs : Premises initial here output part outer name) (hremove : t.remove here part = .ok t') :
    Undisturbed initial here output t' := by
  have hlinks := h.noLinks hs
  rw [← hs.dropLast_part, ← hs.start_eq] at hlinks
  obtain ⟨-, hfile, rfl⟩ := remove_eq_ok (hs.dotDot_not_mem hs.back) hlinks hremove
  constructor
  · have haround := h.around
    rw [hs.dropLast_output] at haround ⊢
    apply (haround.and (hs.around_ne here)).imp
    rintro l ⟨hl, hne, -⟩
    rwa [entry?_erase_of_ne hfile hne]
  · rw [entry?_erase_of_ne hfile (hs.direct_ne here).symm, h.at_end]

/-! ## Before the partial file is there -/

/-- A tree to which directories were added, though neither at the output nor at the partial
path. -/
structure Preparing (initial : FileTree) (here : Location) (output part : Path) (t : FileTree) :
    Prop where
  grown : ∀ l, t.entry? l = initial.entry? l ∨
    initial.entry? l = none ∧ t.entry? l = some .directory
  at_end : t.entry? (direct here output) = initial.entry? (direct here output)
  at_part : t.entry? (direct here part) = initial.entry? (direct here part)

theorem preparing_refl (initial : FileTree) (here : Location) (output part : Path) :
    Preparing initial here output part initial :=
  ⟨fun _ => .inl rfl, rfl, rfl⟩

theorem Preparing.undisturbed (h : Preparing initial here output part t) :
    Undisturbed initial here output t := by
  refine ⟨?_, h.at_end⟩
  exact Along.of_length fun l _ => h.grown l

theorem Preparing.makeDirectory (h : Preparing initial here output part t)
    (hs : Premises initial here output part outer name) {p : Path} (hsteps : p.steps <+: outer)
    (hrooted : p.isRooted = output.isRooted) (hmake : t.makeDirectory here p = .ok t') :
    Preparing initial here output part t' := by
  have hstart : start here p = start here output := by simp [start, hrooted]
  have hback : Path.dotDot ∉ p.steps := by
    intro hmem
    apply hs.back
    rw [hs.output_steps]
    exact List.mem_append_left _ (hsteps.subset hmem)
  have hlinks : t.NoLinks (start here p) p.steps.dropLast := by
    rw [hstart]
    exact Along.of_prefix (h.undisturbed.noLinks hs) ((List.dropLast_prefix _).trans hsteps)
  obtain ⟨hnone, htail, hne, rfl⟩ := makeDirectory_eq_ok hback hlinks hmake
  have hsame {l : Location} (hl : l ≠ direct here p) :
      entry? (t.insert (direct here p) .directory) l = t.entry? l :=
    entry?_insert_of_ne (by simp [hnone]) hl _
  have hlength : (direct here p).length ≤ (outer.reverse ++ start here output).length := by
    have := hsteps.length_le
    rw [direct, hstart]
    simpa using this
  have hout : direct here output ≠ direct here p := by
    intro heq
    rw [← heq, hs.direct_output] at hlength
    simp at hlength
  have hpart : direct here part ≠ direct here p := by
    intro heq
    rw [← heq, hs.direct_part] at hlength
    simp at hlength
  refine ⟨fun l => ?_, by rw [hsame hout, h.at_end], by rw [hsame hpart, h.at_part]⟩
  by_cases hl : l = direct here p
  · subst hl
    have hroot : direct here p ≠ [] := by simp [direct, hne]
    refine .inr ⟨?_, entry?_insert_self hroot htail _⟩
    rcases h.grown (direct here p) with hold | ⟨hinitial, -⟩
    · rw [← hold, hnone]
    · exact hinitial
  · rw [hsame hl]
    exact h.grown l

/-! ## While the partial file is filled -/

/-- A tree with a partial file of its own, beside an output that is as it was. -/
structure Filling (initial : FileTree) (here : Location) (output part : Path) (number : Nat)
    (content : ByteArray) (t : FileTree) : Prop where
  undisturbed : Undisturbed initial here output t
  fault : pathFault? part = none
  short : ∀ n ∈ part.steps, n.length ≤ maxNameLength
  passed : t.Open (start here part) part.steps.dropLast
  entry : t.entry? (direct here part) = some (.file number content)
  apart : ∀ e, t.entry? (direct here output) = some e → e.number? ≠ some number

theorem Filling.changeFile {number : Nat} {content : ByteArray}
    (h : Filling initial here output part number content t)
    (hs : Premises initial here output part outer name) (change : ByteArray → ByteArray) :
    Filling initial here output part number (change content) (t.changeFile number change) := by
  have hpassed := h.passed
  rw [hs.dropLast_part, hs.start_eq] at hpassed
  have hend := entry?_changeFile_of_number?_ne h.apart change
  refine ⟨⟨?_, hend.trans h.undisturbed.at_end⟩, h.fault, h.short, ?_,
    entry?_changeFile_self h.entry change, fun e he => h.apart e (hend ▸ he)⟩
  · have haround := h.undisturbed.around
    rw [hs.dropLast_output] at haround ⊢
    apply (haround.and hpassed).imp
    rintro l ⟨hl, hdirectory⟩
    have hsame := (entry?_changeFile_of_directory hdirectory number change).trans hdirectory.symm
    rwa [hsame]
  · exact h.passed.imp fun l hl => entry?_changeFile_of_directory hl number change

theorem Preparing.create (h : Preparing initial here output part t)
    (hs : Premises initial here output part outer name) {file : OpenFile}
    (hcreate : t.create here part = .ok (file, t')) :
    ∃ number, file = .file number ∧ Filling initial here output part number .empty t' := by
  have hback := hs.dotDot_not_mem hs.back
  have hlinks : t.LinkFree here part := by
    rw [LinkFree, hs.part_steps, hs.start_eq]
    refine along_concat.mpr ⟨h.undisturbed.noLinks hs, fun target he => ?_⟩
    rw [← hs.direct_part, h.at_part] at he
    obtain ⟨⟨number, content, hfile⟩, -⟩ := hs.part_file _ he
    exact absurd hfile (by simp)
  obtain ⟨hfault, hshort, hpassed, hcreated⟩ := create_eq_ok hback hlinks hs.slash hcreate
  cases hcreated with
  | @emptied number content he =>
      obtain ⟨-, halso⟩ := hs.part_file _ (h.at_part ▸ he)
      have hfilling : Filling initial here output part number content t := by
        refine ⟨h.undisturbed, hfault, hshort, hpassed, he, fun e hout hnumber => ?_⟩
        rw [h.at_end] at hout
        rw [isAlso_file_iff.mpr ⟨e, hout, hnumber⟩] at halso
        exact absurd halso (by simp)
      exact ⟨number, rfl, hfilling.changeFile hs fun _ => .empty⟩
  | full he =>
      obtain ⟨⟨number, content, hfile⟩, -⟩ := hs.part_file _ (h.at_part ▸ he)
      exact absurd hfile (by simp)
  | made he htail =>
      have hsame {l : Location} (hl : l ≠ direct here part) :
          entry? (t.insert (direct here part) (.file t.freshNumber .empty)) l = t.entry? l :=
        entry?_insert_of_ne (by simp [he]) hl _
      have hend := hsame (hs.direct_ne here).symm
      refine ⟨t.freshNumber, rfl, ⟨?_, hend.trans h.at_end⟩, hfault, hshort, ?_, ?_,
        fun e hout => number?_ne_freshNumber (hend ▸ hout)⟩
      · have haround := h.undisturbed.around
        rw [hs.dropLast_output] at haround ⊢
        apply (haround.and (hs.around_ne here)).imp
        rintro l ⟨hl, hne, -⟩
        rwa [hsame hne]
      · rw [hs.dropLast_part, hs.start_eq] at hpassed ⊢
        apply (hpassed.and (hs.around_ne here)).imp
        rintro l ⟨hl, hne, -⟩
        rwa [hsame hne]
      · refine entry?_insert_self ?_ htail _
        rw [hs.direct_part]
        simp

theorem Filling.held?_part {number : Nat} {content : ByteArray}
    (h : Filling initial here output part number content t)
    (hs : Premises initial here output part outer name) :
    t.held? here part = some (.file number content) := by
  have hpassed := h.passed
  rw [hs.dropLast_part] at hpassed
  exact held?_of_open h.fault (hs.dotDot_not_mem hs.back) hs.part_steps hs.last hs.slash h.short
    hpassed h.entry

theorem Filling.rename {number : Nat} {content : ByteArray}
    (h : Filling initial here output part number content t)
    (hs : Premises initial here output part outer name)
    (hrename : t.rename here part output = .ok t') :
    t'.held? here output = some (.file number content) := by
  have hnolinks := h.undisturbed.noLinks hs
  have hlinks := hnolinks
  rw [← hs.dropLast_part, ← hs.start_eq] at hlinks
  rw [← hs.dropLast_output] at hnolinks
  have hrenamed := rename_eq_ok (hs.dotDot_not_mem hs.back) hlinks hs.back hnolinks hrename
  obtain ⟨hempty, rfl⟩ := hrenamed.moved.eq_of_file h.entry (hs.direct_ne here) h.apart
  have hfile : t.entry? (direct here part) ≠ some .directory := by simp [h.entry]
  have hroot : direct here output ≠ [] := by simp [hs.direct_output]
  exact hrenamed.held? hs.back (hs.open_move hfile hempty hrenamed.passed _)
    (entry?_move_target hfile hroot hrenamed.moved.around)

end

end BankTrace.Publication
