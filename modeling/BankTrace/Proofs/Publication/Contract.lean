import BankTrace.Proofs.Emission.Limited
import BankTrace.Proofs.Publication.Course
import BankTrace.Proofs.Publication.Opened

/-!
# What a publication leaves to a reader

On every tree, with links anywhere, in which the output and the partial file are apart: after a
publication that succeeded the output reads as an emission into memory, and after one that failed as
it did before, whatever faults there were.
-/

namespace BankTrace

open World (run Keeps Ends)

namespace Publication

open FileTree

/-! ## The course -/

/-- A tree in which the file that the partial path leads to was opened, and apart from the output
before that. -/
def Filled (initial : FileTree) (here : Location) (output part : Path) (l : Location) (number : Nat)
    (content : ByteArray) (t' : FileTree) : Prop :=
  ∃ t, Ready initial here output part t ∧ Opened t here part l number content t'

section

variable {initial t t' : FileTree} {start host : FaultyHost} {c : Config} {output part : Path}
  {outer : List Name} {name : Name} {here l : Location} {number : Nat} {content : ByteArray}

theorem Filled.pending (h : Filled initial here output part l number content t') :
    Pending initial here output part t' :=
  let ⟨_, hready, hopened⟩ := h
  hopened.pending hready

theorem Sibling.course (hs : Sibling output part outer name) (hback : Path.dotDot ∉ output.steps) :
    Course here output part (Ready initial here output part) (Filled initial here output part)
      (Pending initial here output part) where
  makeDirectory p t t' hsteps hrooted hready hmake := by
    rw [hs.dropLast_output] at hsteps
    exact hready.makeDirectory hs hback hsteps hrooted hmake
  create t t' number hready hcreate := by
    obtain ⟨l, hlocate, hcreated⟩ := create_eq_ok_iff.mp hcreate
    exact ⟨l, t, hready, .of_created hlocate hcreated⟩
  device t t' hready hcreate := by
    obtain ⟨l, -, hcreated⟩ := create_eq_ok_iff.mp hcreate
    cases hcreated
    exact hready.pending
  write t l number content change hfilled :=
    let ⟨t', hready, hopened⟩ := hfilled
    ⟨t', hready, hopened.changeFile change⟩
  entry_eq t l number content hfilled :=
    let ⟨_, _, hopened⟩ := hfilled
    hopened.entry_eq
  failed_of_prepared t := Ready.pending
  failed_of_filled t l number content := Filled.pending

theorem ends_writeAndRename_ready (hs : Sibling c.output part outer name)
    (hback : Path.dotDot ∉ c.output.steps) (hc : c.IsValid)
    (h : Ready start.tree start.here c.output part start.tree) :
    Ends (fun _ host => host.tree.read start.here c.output = .ok c.trace)
      (HasTree start (Pending start.tree start.here c.output part))
      (writeAndRename (m := StateM FaultyHost) c part) start := by
  refine ((hs.course hback).ends_writeAndRename hc h).mono ?_ fun _ h => h
  rintro dataLines host ⟨l, number, t, ⟨t', hready, hopened⟩, hrename⟩
  exact hopened.rename hready.apart hs hrename

theorem read_removePartial (h : HasTree start (Pending start.tree start.here output part) host)
    (content : ByteArray) :
    (run (removePartial (m := StateM FaultyHost) part) host).2.tree.read start.here output =
        .ok content ↔
      start.tree.read start.here output = .ok content := by
  obtain ⟨succeeded, tree, hrun, hok, herror⟩ := run_removePartial part host
  rw [hrun]
  cases succeeded with
  | true =>
      have hremoved := hok rfl
      rw [h.here_eq] at hremoved
      exact h.tree.remove hremoved content
  | false =>
      obtain rfl := herror rfl
      exact h.tree.reads content

end

/-! ## Whole publications -/

/-- On a tree in which the output and the partial file are apart, whatever faults meet a
publication: when it succeeds the output reads as the bytes of an emission, and otherwise as it did
before. -/
theorem publish_contract (c : Config) (start : FaultyHost) (hback : .parent ∉ c.output.components)
    (hapart : ∀ part, partialPath c.output = .ok part →
      Apart start.tree start.here c.output part) :
    let out := run (publish (m := StateM FaultyHost) c) start
    (∀ summary, out.1 = .ok summary →
      out.2.tree.read start.here c.output = .ok (Emission.bytes c)) ∧
    ∀ e, out.1 = .error e → ∀ content,
      out.2.tree.read start.here c.output = .ok content ↔
        start.tree.read start.here c.output = .ok content := by
  by_cases hstarts : c.validate = .ok () ∧ ∃ part, partialPath c.output = .ok part
  · obtain ⟨hok, part, hpart⟩ := hstarts
    have hc := (Config.validate_eq_ok_iff c).mp hok
    obtain ⟨outer, name, hs⟩ := partialPath_eq_ok hpart
    have hends := ends_writeAndRename_ready hs (Path.dotDot_not_mem_steps hback) hc
      ⟨fun _ => Iff.rfl, hapart part hpart⟩
    rw [run_publish hok hpart, Emission.bytes_eq_trace hc]
    unfold Ends at hends
    rcases hrun : run (writeAndRename (m := StateM FaultyHost) c part).run start with
      ⟨e | dataLines, host⟩
    · rw [hrun] at hends
      exact ⟨by simp, fun _ _ => read_removePartial hends⟩
    · rw [hrun] at hends
      exact ⟨fun _ _ => hends, by simp⟩
  · have hnothing : c.validate ≠ .ok () ∨ ∀ part, partialPath c.output ≠ .ok part :=
      (not_and_or.mp hstarts).imp_right not_exists.mp
    obtain ⟨e, hrun⟩ := run_publish_of_error hnothing start
    rw [hrun]
    exact ⟨by simp, fun _ _ _ => Iff.rfl⟩

/-- Both paths are taken by links to files, one write is cut short, and the link at the partial path
replaces that at the output. -/
theorem publish_contract_over_links :
    let c : Config := { output := ⟨[0x74]⟩, rowCount := 1, burstCount := 1, bankOrder := [3] }
    let start : FaultyHost := {
      tree := ⟨[([[0x74]], .link ⟨[0x6F]⟩), ([[0x6F]], .file 0 ⟨#[0x6F]⟩),
        ([[0x74] ++ partialSuffix], .link ⟨[0x70]⟩), ([[0x70]], .file 1 ⟨#[0x70]⟩)]⟩
      here := []
      faults := fun i => if i = 1 then .short 5 else .none }
    let out := run (publish (m := StateM FaultyHost) c) start
    .parent ∉ c.output.components ∧
      (∀ part, partialPath c.output = .ok part → Apart start.tree start.here c.output part) ∧
      out.1 = .ok ⟨1, some c.output⟩ ∧
      out.2.tree.read start.here c.output = .ok (Emission.bytes c) := by
  intro c start out
  have hback : .parent ∉ c.output.components := by decide
  have hpath : partialPath c.output = .ok ⟨[0x74] ++ partialSuffix⟩ := by decide +kernel
  have hresult : (run (publish (m := StateM FaultyHost) c) start).1 = .ok ⟨1, some c.output⟩ := by
    decide +kernel
  have hkept : (start.tree.erase [[0x74] ++ partialSuffix]).read [] c.output =
      start.tree.read [] c.output := by decide +kernel
  have hled : (start.tree.erase [[0x74]]).locate .create [] ⟨[0x74] ++ partialSuffix⟩ =
      start.tree.locate .create [] ⟨[0x74] ++ partialSuffix⟩ := by decide +kernel
  have hplace : start.tree.place? [] ⟨[0x74] ++ partialSuffix⟩ =
    some [[0x74] ++ partialSuffix] := by decide +kernel
  have hplace' : start.tree.place? [] c.output = some [[0x74]] := by decide +kernel
  have hlocate : start.tree.locate .find [] c.output = .ok [[0x6F]] := by decide +kernel
  have hlocate' : start.tree.locate .create [] ⟨[0x74] ++ partialSuffix⟩ = .ok [[0x70]] := by
    decide +kernel
  have hnumber : start.tree.entry? [[0x6F]] = some (.file 0 ⟨#[0x6F]⟩) := rfl
  have hnumber' : start.tree.entry? [[0x70]] = some (.file 1 ⟨#[0x70]⟩) := rfl
  have hhere : start.here = [] := rfl
  clear_value c start
  have hapart : ∀ part, partialPath c.output = .ok part →
      Apart start.tree start.here c.output part := by
    intro part hpart
    obtain rfl := Except.ok.inj (hpath.symm.trans hpart)
    rw [hhere]
    refine ⟨fun l hl _ content hread => ?_, fun l hl _ l' hl' => ?_, fun l l' hl hl' => ?_⟩
    · obtain rfl := Option.some.inj (hplace.symm.trans hl)
      exact hkept.trans hread
    · obtain rfl := Option.some.inj (hplace'.symm.trans hl)
      exact hled.trans hl'
    · obtain rfl := Except.ok.inj (hlocate.symm.trans hl)
      obtain rfl := Except.ok.inj (hlocate'.symm.trans hl')
      simp [Shared, hnumber, hnumber', Entry.number?]
  exact ⟨hback, hapart, hresult,
    (publish_contract c start hback hapart).1 _ hresult⟩

/-- Where the partial path is a link to the output, the trace replaces the content of the output
and the link then the output itself, which leads nowhere but to itself. -/
theorem publish_over_link_to_output :
    let c : Config := { output := ⟨[0x74]⟩, rowCount := 1, burstCount := 1, bankOrder := [3] }
    let start : FaultyHost := {
      tree := ⟨[([[0x74]], .file 0 ⟨#[0x6F]⟩), ([[0x74] ++ partialSuffix], .link ⟨[0x74]⟩)]⟩
      here := []
      faults := fun _ => .none }
    let out := run (publish (m := StateM FaultyHost) c) start
    .parent ∉ c.output.components ∧ out.1 = .ok ⟨1, some c.output⟩ ∧
      out.2.tree.read start.here c.output = .error .tooManyLinks ∧
      out.2.tree.read start.here c.output ≠ .ok (Emission.bytes c) := by
  intro c start out
  have hback : .parent ∉ c.output.components := by decide
  have hresult : (run (publish (m := StateM FaultyHost) c) start).1 = .ok ⟨1, some c.output⟩ := by
    decide +kernel
  have hread : (run (publish (m := StateM FaultyHost) c) start).2.tree.read start.here c.output =
      .error .tooManyLinks := by decide +kernel
  clear_value c start
  exact ⟨hback, hresult, hread, by rw [hread]; simp⟩

end Publication

end BankTrace
