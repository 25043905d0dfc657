import BankTrace.Proofs.Publication.Alongside
import BankTrace.Proofs.Publication.PartialPath

/-!
# What a publication spares

A trace whose output is a file name touches no other place in the working directory than the output
and the partial file.
-/

namespace BankTrace

open World (run Keeps)
open FaultyHost (Touched)

/-! ## File names -/

namespace FileTree

variable {t : FileTree} {here l : Location} {name : Name}

theorem names_of_isFileName (h : Path.IsFileName name) : names ⟨name⟩ = [name] := by
  simp [names, h.segments, h.nonempty]

theorem start_of_isFileName (h : Path.IsFileName name) (here : Location) :
    start here ⟨name⟩ = here := by
  have hhead : name.head? ≠ some Path.slash := fun hhead =>
    h.slash_not_mem (List.mem_of_head? hhead)
  simp [start, Path.isRooted, hhead]

/-- A file name that is no link is looked up in its directory and nowhere else. -/
theorem visits_of_isFileName (h : Path.IsFileName name)
    (hlink : ∀ target, t.entry? (name :: here) ≠ some (.link target))
    (hvisits : t.Visits here ⟨name⟩ l) : l = here ∨ l = name :: here := by
  rw [Visits, names_of_isFileName h, start_of_isFileName h] at hvisits
  cases hvisits with
  | stands => exact .inl rfl
  | looks hl => exact .inr hl.symm
  | dot => exact absurd rfl h.ne_dot
  | back => exact absurd rfl h.ne_dotDot
  | directory _ hrest =>
      cases hrest with
      | stands => exact .inr rfl
  | link he => exact absurd he (hlink _)

theorem handles_of_isFileName (h : Path.IsFileName name) (hhandles : t.Handles here ⟨name⟩ l) :
    l = here ∨ l = name :: here := by
  rw [Handles, names_of_isFileName h, start_of_isFileName h] at hhandles
  rcases hhandles with hmeets | hplace
  · cases hmeets with
    | stands => exact .inl rfl
  · obtain ⟨left, directory, n, hstands, rfl⟩ := place?_eq_some_iff.mp hplace
    have hlast := hstands.last
    have hreaches := hstands.reaches
    rw [names_of_isFileName h] at hlast hreaches
    rw [start_of_isFileName h] at hreaches
    obtain rfl : name = n := by simpa using hlast
    cases hreaches with
    | nil => exact .inr rfl

end FileTree

namespace Publication

variable {name : Name}

theorem partialPath_of_isFileName (h : Path.IsFileName name) :
    partialPath ⟨name⟩ = .ok ⟨name ++ partialSuffix⟩ := by
  obtain ⟨d, hd, hpart⟩ := partialPath_of_fileName? h.fileName?
  obtain rfl : ⟨[]⟩ = d := Option.some.inj (h.parent?.symm.trans hd)
  exact hpart

end Publication

/-! ## Spared places -/

/-- A host that works in a directory and has not touched the place of a further file. -/
structure Further.Spared (d : Further) (here : Location) (host : FaultyHost) : Prop where
  here_eq : host.here = here
  untouched : ¬ Touched d.initial d.location host
  pairs : ∃ host', d.Pairs host host'

namespace Further

open Publication

variable {d : Further} {here : Location} {host : FaultyHost} {α β : Type}

theorem Spared.perform {V : Except IoError α → β → Prop} {operation : Operation}
    {work : Fault → FileTree → Location → Except IoError α × FileTree} {x' : StateM FaultyHost β}
    (h : d.Spared here host) (halong : d.Alongside V (FaultyHost.perform operation work) x')
    (hnot : ¬ operation.Touches host.tree here d.location) :
    d.Spared here (run (FaultyHost.perform operation work) host).2 := by
  -- That nothing has come to the place is known from the run that goes alongside.
  obtain ⟨hhere, huntouched, host', hpairs⟩ := h
  have huntouched' :
      ¬ Touched d.initial d.location (run (FaultyHost.perform operation work) host).2 := by
    rintro (htouches | htouched)
    · rw [hpairs.tree_eq] at htouches
      exact hnot (hhere ▸ htouches)
    · exact huntouched htouched
  exact ⟨hhere, huntouched', _, (halong.runs hpairs huntouched').2⟩

theorem Spared.edit {V : Except IoError Unit → β → Prop} {operation : Operation}
    {change : FileTree → Location → Except IoError FileTree} {x' : StateM FaultyHost β}
    (h : d.Spared here host) (halong : d.Alongside V (FaultyHost.edit operation change) x')
    (hnot : ¬ operation.Touches host.tree here d.location) :
    d.Spared here (run (FaultyHost.edit operation change) host).2 :=
  h.perform halong hnot

/-- Nothing that is written to a file is written to a place where nothing is. -/
theorem untouched_fill {c : Config} (hc : c.IsValid) (file : FileSink OpenFile)
    (h : d.Spared here host) :
    (run (fill (m := StateM FaultyHost) c { sink := { inner := file } }) host).2.here = here ∧
      ¬ Touched d.initial d.location
        (run (fill (m := StateM FaultyHost) c { sink := { inner := file } }) host).2 := by
  have hfails : Sink.FailsFor (StateM FaultyHost)
      (fun (_ : FileSink OpenFile) host => treeBehind d.initial host.history = host.tree ∧
        host.tree.entry? d.location = none ∧ host.here = here ∧
        ¬ Touched d.initial d.location host)
      fun _ => True := {
    write := by
      rintro ⟨file⟩ host bytes - ⟨htree, hmissing, hhere, huntouched⟩
      refine ⟨_, _, _, rfl, ⟨rfl, ?_, hhere, ?_⟩, fun _ _ => trivial⟩
      · dsimp only [FaultyHost.after]
        split <;> simp [FileTree.entry?_changeFile, hmissing]
      · rintro (⟨number, content, -, he⟩ | htouched)
        · rw [htree, hmissing] at he
          simp at he
        · exact huntouched htouched
    flush := fun hvalid => ⟨_, _, _, rfl, hvalid, fun _ _ => trivial⟩ }
  obtain ⟨hhere, huntouched, host', hpairs⟩ := h
  obtain ⟨f, hbeside⟩ := hpairs.beside
  obtain ⟨result, host', hrun, ⟨-, -, -, hkept⟩, -⟩ :=
    fill_fails hfails (fun _ _ _ h => h) hc file
      ⟨hpairs.tree_eq, hbeside.missing, hhere, huntouched⟩
  rwa [hrun]

theorem spared_fillNew {c : Config} (hc : c.IsValid) (step : String) {part : Path}
    (h : d.Spared here host) (hnot : ¬ host.tree.Visits here part d.location) :
    d.Spared here (run (fillNew c step part).run host).2 := by
  have hcreate : d.Alongside (fun _ _ => True) (Host.createFile (m := StateM FaultyHost) part)
      (Host.createFile (m := StateM FaultyHost) part) :=
    alongside_perform fun t t' here f hbeside hnot => by
      have hmade := hbeside.create hnot
      simp only [FaultyHost.whole]
      generalize t.create here part = made, t'.create here part = made' at hmade ⊢
      cases hmade with
      | error e => exact ⟨trivial, f, hbeside⟩
      | ok hmade => exact ⟨trivial, hmade.imp fun _ h => h.2⟩
  have hcreated := h.perform hcreate hnot
  have hfilled : (run (fillNew c step part).run host).2.here = here ∧
      ¬ Touched d.initial d.location (run (fillNew c step part).run host).2 := by
    rw [run_fillNew]
    generalize (run (Host.createFile (m := StateM FaultyHost) part) host).1 = opened
    cases opened with
    | error e => exact ⟨hcreated.here_eq, hcreated.untouched⟩
    | ok file => exact untouched_fill hc ⟨file⟩ hcreated
  obtain ⟨host', hpairs⟩ := h.pairs
  exact ⟨hfilled.1, hfilled.2, _, ((alongside_fillNew hc step part).runs hpairs hfilled.2).2⟩

theorem Spared.ends {x : ExceptT Error (StateM FaultyHost) α}
    (h : d.Spared here (run x.run host).2) :
    World.Ends (fun _ => d.Spared here) (d.Spared here) x host :=
  World.Ends.of_run rfl (fun _ _ => h) fun _ _ => h

section

variable {c : Config} {name : Name}

/-- Whether a place is another one than those of a trace with a file name as output. -/
structure Elsewhere (here : Location) (name : Name) (l : Location) : Prop where
  ne_here : l ≠ here
  ne_output : l ≠ name :: here
  ne_part : l ≠ (name ++ partialSuffix) :: here

theorem Elsewhere.output {l : Location} (hl : Elsewhere here name l) (hname : Path.IsFileName name)
    (t : FileTree) : ¬ t.Handles here ⟨name⟩ l := fun h =>
  (FileTree.handles_of_isFileName hname h).elim hl.ne_here hl.ne_output

theorem Elsewhere.part {l : Location} (hl : Elsewhere here name l) (hname : Path.IsFileName name)
    (t : FileTree) : ¬ t.Handles here ⟨name ++ partialSuffix⟩ l := fun h =>
  (FileTree.handles_of_isFileName (isFileName_partial hname) h).elim hl.ne_here hl.ne_part

theorem spared_writeAndRename (hc : c.IsValid) (hname : Path.IsFileName name)
    (houtput : c.output = ⟨name⟩) (hl : Elsewhere here name d.location)
    (hlink : ∀ target, host.tree.entry? ((name ++ partialSuffix) :: here) ≠
      some (.link target)) (h : d.Spared here host) :
    World.Ends (fun _ => d.Spared here) (d.Spared here)
      (writeAndRename (m := StateM FaultyHost) c ⟨name ++ partialSuffix⟩) host := by
  have hprepare : prepareDirectory (m := StateM FaultyHost) ⟨name⟩ = pure () := by
    unfold prepareDirectory
    rw [hname.parent?]
    rfl
  have hvisits : ¬ host.tree.Visits here ⟨name ++ partialSuffix⟩ d.location := fun hv =>
    (FileTree.visits_of_isFileName (isFileName_partial hname) hlink hv).elim hl.ne_here hl.ne_part
  rw [writeAndRename_eq, houtput, hprepare, pure_bind]
  refine (spared_fillNew hc _ h hvisits).ends.bind fun out host h => ?_
  refine World.Ends.bind (Q := fun _ => d.Spared here) ?_ fun _ host h => ?_
  · have hsync := h.edit (alongside_syncFile out.2 out.2) id
    exact World.Ends.checked rfl (fun _ _ => hsync) fun _ _ => hsync
  · have hrename := h.edit (alongside_rename ⟨name ++ partialSuffix⟩ ⟨name⟩)
      (not_or.mpr ⟨hl.part hname _, hl.output hname _⟩)
    exact (World.Ends.attempt rfl (fun _ _ => hrename) fun _ _ => hrename).bind
      fun _ _ h => World.Ends.pure h

/-- A trace with a file name as output touches no other places than its own. -/
theorem spared_publish (hname : Path.IsFileName name) (houtput : c.output = ⟨name⟩)
    (hl : Elsewhere here name d.location)
    (hlink : ∀ target, host.tree.entry? ((name ++ partialSuffix) :: here) ≠
      some (.link target)) (h : d.Spared here host) :
    d.Spared here (run (publish (m := StateM FaultyHost) c) host).2 := by
  by_cases hc : c.IsValid
  · have hpart : partialPath c.output = .ok ⟨name ++ partialSuffix⟩ := by
      rw [houtput, partialPath_of_isFileName hname]
    have hends := spared_writeAndRename hc hname houtput hl hlink h
    rw [run_publish ((Config.validate_eq_ok_iff c).mpr hc) hpart]
    unfold World.Ends at hends
    split at hends
    next dataLines host' hrun =>
      rw [hrun]
      exact hends
    next e host' hrun =>
      rw [hrun]
      have hremove := hends.edit (alongside_removeFile ⟨name ++ partialSuffix⟩)
        (hl.part hname _)
      unfold removePartial
      dsimp only
      rw [World.run_bind]
      split <;> exact hremove
  · obtain ⟨e, hrun⟩ := run_publish_of_error (c := c)
      (.inl (mt (Config.validate_eq_ok_iff c).mp hc)) host
    rw [hrun]
    exact h

end

end Further

end BankTrace
