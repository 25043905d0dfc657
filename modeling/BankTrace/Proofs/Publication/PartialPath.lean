import BankTrace.Proofs.Config.Outputs
import BankTrace.Proofs.Path.Components
import BankTrace.Proofs.Publication.Partial

/-!
# The path of the partial file

The partial file stands in the directory of its output, whatever the path of the output looks like:
with slashes and dots wherever they mean nothing, with steps back, with names that are no text.
There is a partial path for just those outputs that validation accepts.
-/

namespace BankTrace.Publication

variable {output output' part part' : Path} {name name' : Name}

/-! ## Outputs with a partial path -/

theorem partialPath_of_fileName? (h : output.fileName? = some name) :
    ∃ d, output.parent? = some d ∧
      partialPath output = .ok (d.child (name ++ partialSuffix)) := by
  obtain ⟨outer, hsteps⟩ := Path.fileName?_eq_some h
  obtain ⟨d, hd⟩ := Option.ne_none_iff_exists'.mp
    (Path.parent?_ne_none (p := output) (by simp [hsteps]))
  exact ⟨d, hd, by simp [partialPath, Path.withFileName, h, hd]⟩

theorem partialPath_of_none (h : output.fileName? = none) :
    partialPath output = .error (.invalidOutputPath output) := by
  rw [partialPath, h]

/-- The output is the entry of its parent under its name, the partial file under another one. -/
theorem exists_of_partialPath (h : partialPath output = .ok part) :
    ∃ d name, output.fileName? = some name ∧ output.parent? = some d ∧
      part = d.child (name ++ partialSuffix) := by
  cases hname : output.fileName? with
  | none => simp [partialPath_of_none hname] at h
  | some name =>
      obtain ⟨d, hd, hpart⟩ := partialPath_of_fileName? hname
      exact ⟨d, name, rfl, hd, Except.ok.inj (h.symm.trans hpart)⟩

/-! ## Beside the output -/

/-- A path beside an output with a file name: another name, with the suffix of partial files, in
the same directory. What is made to be the directory of the one is the directory of the other. -/
structure IsBeside (output part : Path) (name : Name) : Prop where
  fileName : part.fileName? = some (name ++ partialSuffix)
  parent : ∃ d, output.parent? = some d ∧ part.parent? = some d
  directory {m : Type → Type} [Monad m] {Handle : Type} [Host m Handle] :
    prepareDirectory (m := m) part = prepareDirectory output
  apart : ¬ part.SameAs output

theorem components_beside {d : Path} (hname : output.fileName? = some name)
    (hd : output.parent? = some d) :
    output.components = d.components ++ [.name name] ∧
      (d.child (name ++ partialSuffix)).components =
        d.components ++ [.name (name ++ partialSuffix)] :=
  ⟨Path.components_of_fileName? hname hd,
    Path.components_child (isFileName_partial (Path.isFileName_of_fileName? hname))⟩

theorem isBeside_of_partialPath (h : partialPath output = .ok part)
    (hname : output.fileName? = some name) : IsBeside output part name := by
  obtain ⟨d, name', hname', hd, rfl⟩ := exists_of_partialPath h
  obtain rfl : name = name' := Option.some.inj (hname.symm.trans hname')
  have hpartial := isFileName_partial (Path.isFileName_of_fileName? hname)
  have hparent := Path.parent?_child hd hpartial
  refine ⟨Path.fileName?_child hpartial, ⟨d, hd, hparent⟩, ?_, fun hsame => ?_⟩
  · intro m _ Handle _
    rw [prepareDirectory, prepareDirectory, hparent, hd]
  · obtain ⟨houtput, hpart⟩ := components_beside hname hd
    rw [Path.SameAs, houtput, hpart] at hsame
    obtain ⟨-, hlast⟩ := List.append_inj' hsame rfl
    exact append_partialSuffix_ne name (Path.Component.name.inj (List.singleton_inj.mp hlast))

/-- Of outputs in one directory, those with one file name have one partial path. -/
theorem sameAs_partialPath_iff (h : partialPath output = .ok part)
    (h' : partialPath output' = .ok part')
    (hparents : Option.Rel Path.SameAs output.parent? output'.parent?) :
    part.SameAs part' ↔ output.fileName? = output'.fileName? := by
  obtain ⟨d, name, hname, hd, rfl⟩ := exists_of_partialPath h
  obtain ⟨d', name', hname', hd', rfl⟩ := exists_of_partialPath h'
  obtain ⟨-, hpart⟩ := components_beside hname hd
  obtain ⟨-, hpart'⟩ := components_beside hname' hd'
  rw [hd, hd'] at hparents
  cases hparents with
  | some hsame =>
      have hcomponents : d.components = d'.components := hsame
      rw [Path.SameAs, hpart, hpart', hcomponents, hname, hname']
      simp

/-- There is a partial path for an output if and only if the output has a file name, which is also
what validation asks of it, with the same error. The partial path is beside the output, and in one
directory different file names have different partial paths. -/
theorem partialPath_beside (output : Path) :
    ((∃ part, partialPath output = .ok part) ↔ ∃ name, output.fileName? = some name) ∧
    (∀ c : Config, c.validate = .ok () ∨ c.validate = .error .traceTooLarge →
      { c with output := output }.validate = (partialPath output).bind fun _ => c.validate) ∧
    ∀ part, partialPath output = .ok part →
      (∃ name, output.fileName? = some name ∧ IsBeside output part name) ∧
      ∀ output' part', partialPath output' = .ok part' →
        Option.Rel Path.SameAs output.parent? output'.parent? →
          (part.SameAs part' ↔ output.fileName? = output'.fileName?) := by
  refine ⟨⟨?_, ?_⟩, fun c hc => ?_, fun part hpart => ⟨?_, fun output' part' hpart' => ?_⟩⟩
  · rintro ⟨part, hpart⟩
    obtain ⟨_, name, hname, _⟩ := exists_of_partialPath hpart
    exact ⟨name, hname⟩
  · rintro ⟨name, hname⟩
    obtain ⟨_, _, hpart⟩ := partialPath_of_fileName? hname
    exact ⟨_, hpart⟩
  · rw [Config.validate_with_output hc]
    cases hname : output.fileName? with
    | none =>
        rw [partialPath_of_none hname]
        rfl
    | some name =>
        obtain ⟨_, _, hpart⟩ := partialPath_of_fileName? hname
        rw [hpart]
        rfl
  · obtain ⟨_, name, hname, _⟩ := exists_of_partialPath hpart
    exact ⟨name, hname, isBeside_of_partialPath hpart hname⟩
  · exact sameAs_partialPath_iff hpart hpart'

/-- Idle segments inside the output and at its end. -/
theorem partialPath_beside_idle_segments :
    let c : Config := { output := .ofString "x//y/./b/." }
    let part := Path.ofString "x//y/b.partial"
    c.validate = .ok () ∧ IsBeside c.output part [0x62] ∧
      ¬ part.SameAs (.ofString "x/./y/c.partial") := by
  intro c part
  obtain ⟨-, hvalidate, hpath⟩ := partialPath_beside c.output
  have hpart : partialPath c.output = .ok part := by decide +kernel
  have hpart' : partialPath (.ofString "x/./y/c") = .ok (.ofString "x/./y/c.partial") := by
    decide +kernel
  have hparent : c.output.parent? = some (.ofString "x//y") := by decide +kernel
  have hparent' : (Path.ofString "x/./y/c").parent? = some (.ofString "x/./y") := by decide +kernel
  have hdefault : ({} : Config).validate = .ok () := by decide +kernel
  obtain ⟨⟨name, hname, hbeside⟩, hsame⟩ := hpath part hpart
  obtain rfl : name = [0x62] :=
    Option.some.inj (hname.symm.trans (by decide +kernel : c.output.fileName? = some [0x62]))
  refine ⟨?_, hbeside, ?_⟩
  · have hgiven := hvalidate {} (.inl hdefault)
    rw [hpart] at hgiven
    exact hgiven.trans hdefault
  · rw [hsame _ _ hpart' (by rw [hparent, hparent']; exact .some (by decide +kernel))]
    decide +kernel

end BankTrace.Publication
