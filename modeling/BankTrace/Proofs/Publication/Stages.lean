import BankTrace.Proofs.Emission.Records
import BankTrace.Proofs.Publication.FaultyHost
import BankTrace.Proofs.Publication.Partial

/-!
# The stages of a publication

What is asked of the single operations of a stage for the whole stage to keep something of the host:
making the directory of the output, filling the partial file, and the stages in a row.
-/

namespace BankTrace.Publication

open World (run Keeps Ends)

/-! ## Looking and making directories -/

section

variable {I E : FaultyHost → Prop}

theorem keeps_look_of {α : Type}
    (hlook : ∀ host p succeeded, I host → I (host.after (.look p) succeeded host.tree)) (p : Path)
    (answer : FileTree → Location → Except IoError α) : Keeps I (FaultyHost.look p answer) := by
  intro host h
  obtain ⟨result, hrun⟩ := FaultyHost.run_look p answer host
  rw [hrun]
  exact hlook host p _ h

theorem keeps_isPresent_of
    (hlook : ∀ host p succeeded, I host → I (host.after (.look p) succeeded host.tree)) (p : Path) :
    Keeps I (Host.isPresent (m := StateM FaultyHost) p) :=
  (keeps_look_of hlook p _).bind fun _ => Keeps.pure _

theorem keeps_isDirectory_of
    (hlook : ∀ host p succeeded, I host → I (host.after (.look p) succeeded host.tree)) (p : Path) :
    Keeps I (Host.isDirectory (m := StateM FaultyHost) p) := by
  refine (keeps_look_of hlook p _).bind fun result => ?_
  cases result <;> exact Keeps.pure _

theorem keeps_edit_of {operation : Operation}
    {change : FileTree → Location → Except IoError FileTree}
    (hedit : ∀ host succeeded tree, I host →
      change host.tree host.here = .ok tree ∨ tree = host.tree →
        I (host.after operation succeeded tree)) :
    Keeps I (FaultyHost.edit operation change) := by
  intro host h
  obtain ⟨result, tree, hrun, hok, herror⟩ := FaultyHost.run_edit operation change host
  rw [hrun]
  cases result with
  | ok _ => exact hedit host _ tree h (.inl (hok rfl))
  | error e => exact hedit host _ tree h (.inr (herror e rfl))

/-- Directories are made from the outside in, each with the ways to look at it. -/
theorem keeps_makeDirectories {m : Type → Type} [Monad m] {W Handle : Type} [World m W]
    [Host m Handle] {I : W → Prop} {paths : List Path}
    (hmake : ∀ p ∈ paths, Keeps I (Host.makeDirectory (m := m) p))
    (hlook : ∀ p, Keeps I (Host.isDirectory (m := m) p)) :
    Keeps I (Host.makeDirectories (m := m) paths) := by
  induction paths with
  | nil => exact Keeps.pure _
  | cons p around ih =>
      unfold Host.makeDirectories
      split_ifs
      · exact Keeps.pure _
      · have hagain := hmake p List.mem_cons_self
        have hasked (e : IoError) : Keeps I (do
            return if ← Host.isDirectory p then .ok () else .error e : m (Except IoError Unit)) :=
          (hlook p).bind fun _ => Keeps.pure _
        refine hagain.bind fun result => ?_
        split
        · exact Keeps.pure _
        · refine (ih fun q hq => hmake q (List.mem_cons_of_mem _ hq)).bind fun result => ?_
          split
          · exact Keeps.pure _
          · refine hagain.bind fun result => ?_
            split
            · exact Keeps.pure _
            · exact hasked _
        · exact hasked _

/-- Making the directory of the output makes no other directories than those around the output. -/
theorem ends_prepareDirectory_of {output : Path} {host : FaultyHost} (h : I host)
    (himp : ∀ host, I host → E host)
    (hlook : ∀ host p succeeded, I host → I (host.after (.look p) succeeded host.tree))
    (hmake : ∀ p, p.steps <+: output.steps.dropLast → p.isRooted = output.isRooted →
      Keeps I (Host.makeDirectory (m := StateM FaultyHost) p)) :
    Ends (fun _ => I) E (prepareDirectory (m := StateM FaultyHost) output) host := by
  unfold prepareDirectory
  cases hparent : output.parent? with
  | none => exact Ends.pure h
  | some directory =>
      obtain ⟨hsteps, hrooted⟩ := Path.parent?_eq_some hparent
      have hancestors : ∀ p ∈ directory.ancestors,
          p.steps <+: output.steps.dropLast ∧ p.isRooted = output.isRooted := by
        intro p hp
        obtain ⟨hpre, hroot⟩ := Path.ancestorsWithin_steps hp
        rw [hsteps] at hpre
        exact ⟨hpre, hroot.trans hrooted⟩
      dsimp only
      split_ifs
      · exact Ends.pure h
      · refine Ends.bind (Q := fun _ => I)
          (Ends.lift (keeps_isPresent_of hlook directory host h)) fun present host h => ?_
        split_ifs
        · exact Ends.pure h
        · refine Ends.bind (Q := fun _ => I) ?_ fun _ host h => Ends.lift h
          have hkeeps := keeps_makeDirectories
            (fun p hp => hmake p (hancestors p hp).1 (hancestors p hp).2)
            (keeps_isDirectory_of hlook) host h
          exact Ends.attempt rfl (fun _ _ => hkeeps) fun _ _ => himp _ hkeeps

end

/-! ## Creating and filling a file -/

section

variable {c : Config} {host : FaultyHost} {Valid : FileSink OpenFile → FaultyHost → Prop}
  {content : FileSink OpenFile → FaultyHost → ByteArray}

theorem ends_create_of {E : FaultyHost → Prop} {step : String} {part : Path}
    (hok : ∀ succeeded file tree, host.tree.create host.here part = .ok (file, tree) →
      Valid ⟨file⟩ (host.after (.createFile part) succeeded tree))
    (herror : ∀ succeeded, E (host.after (.createFile part) succeeded host.tree)) :
    Ends (fun writer host => ∃ file, writer = { sink := { inner := file } } ∧ Valid file host) E
      (Host.attempt step (FileWriter.create (m := StateM FaultyHost) part)) host := by
  obtain ⟨result, tree, hrun, hcreate, hkept⟩ := FaultyHost.run_whole (.createFile part)
    (fun tree here => tree.create here part) host
  have hwriter : run (FileWriter.create (m := StateM FaultyHost) part) host =
      (result.map fun handle => ({ sink := { inner := ⟨handle⟩ } } : FileWriter OpenFile),
        host.after (.createFile part) result.isOk tree) := by
    have hrun' : run (Host.createFile (m := StateM FaultyHost) part) host = _ := hrun
    simp only [FileWriter.create, World.run_bind, World.run_pure, hrun']
  refine Ends.attempt hwriter (fun writer heq => ?_) fun e heq => ?_
  · cases result with
    | error e => simp [Except.map] at heq
    | ok file => exact ⟨⟨file⟩, (Except.ok.inj heq).symm, hok _ file tree (hcreate file rfl)⟩
  · cases result with
    | ok file => simp [Except.map] at heq
    | error cause =>
        rw [hkept cause rfl]
        exact herror _

/-- An open file is a sink that records, as long as what is known of its content stays true behind
each write. -/
theorem records_of_keeps {number : Nat} {I : ByteArray → FaultyHost → Prop}
    {contentOf : FileTree → ByteArray}
    (hcontent : ∀ content host, I content host → contentOf host.tree = content)
    (hwrite : ∀ content host bytes succeeded taken, I content host →
      I (content ++ taken) (host.after (.writeFile (.file number) bytes) succeeded
        (host.tree.changeFile number (· ++ taken)))) :
    Sink.Records (StateM FaultyHost)
      (fun (file : FileSink OpenFile) host => file.handle = .file number ∧
        ∃ content, I content host)
      (fun _ host => contentOf host.tree) where
  write := by
    rintro ⟨handle⟩ host bytes ⟨hhandle, content, h⟩
    obtain rfl : handle = .file number := hhandle
    obtain ⟨result, taken, hrun, hok⟩ := FaultyHost.run_writeFile number bytes host
    have hafter := hwrite content host bytes result.isOk taken h
    refine ⟨result, ⟨.file number⟩, _, ?_, ⟨rfl, content ++ taken, hafter⟩, fun count hcount => ?_⟩
    · simp only [Sink.write, World.run_bind, World.run_pure, hrun]
    · obtain ⟨hle, rfl⟩ := hok count hcount
      refine ⟨hle, ?_⟩
      rw [hcontent content host h]
      exact hcontent _ _ hafter
  flush := by
    intro file host hvalid
    exact ⟨.ok (), file, host, rfl, hvalid, fun _ => rfl⟩

theorem run_reports (events : List Event) (host : FaultyHost) :
    run (events.forM (Host.report (m := StateM FaultyHost))) host = ((), host) := by
  induction events with
  | nil => rfl
  | cons event events ih => exact ih

/-- Giving up a file that records may still write to it, and does nothing else. -/
theorem abandon_records (hrecords : Sink.Records (StateM FaultyHost) Valid content)
    (file : Buffered (FileSink OpenFile)) (hvalid : Valid file.inner host) :
    ∃ file', Valid file' (run (FileWriter.abandon (m := StateM FaultyHost) file) host).2 := by
  obtain ⟨result, file', host', hrun, hvalid', -⟩ := file.passOn_records hrecords hvalid
  have habandon : (run (FileWriter.abandon (m := StateM FaultyHost) file) host).2 =
      (run (file.passOn (m := StateM FaultyHost)) host).2 := rfl
  rw [habandon, hrun]
  exact ⟨file'.inner, hvalid'⟩

/-- A file that records and was empty holds the whole trace when it was filled without a failure. -/
theorem ends_fill_records (hrecords : Sink.Records (StateM FaultyHost) Valid content)
    (hc : c.IsValid) {file : FileSink OpenFile} (hvalid : Valid file host)
    (hempty : content file host = .empty) :
    Ends (fun out host => ∃ file', out = (c.lineCount, file'.handle) ∧ Valid file' host ∧
        content file' host = c.trace)
      (fun host => ∃ file', Valid file' host)
      (ExceptT.mk (fill (m := StateM FaultyHost) c { sink := { inner := file } })) host := by
  obtain ⟨t, ht, hgives, hcount⟩ := hc.exists_traversal
  obtain ⟨result, wr, host', hrun, hvalid', hwritten⟩ :=
    Emission.drain_records (Buffered.records hrecords) hgives hcount
      ({ sink := { inner := file } } : FileWriter OpenFile) (w := host) hvalid
      (Writer.awaits_requests _ c.requests)
  unfold fill
  rw [ht]
  unfold Ends
  simp only [ExceptT.run_mk, World.run_bind, run_reports]
  unfold Emission.drainAll
  rw [hrun]
  cases result with
  | error e =>
      simp only [World.run_bind, World.run_pure]
      exact abandon_records hrecords wr.sink hvalid'
  | ok _ =>
      obtain ⟨hcontent, hlines, hterminated⟩ := hwritten rfl
      obtain ⟨result, file', host'', hclose, hvalid'', hclosed⟩ :=
        wr.close_records hrecords hvalid' hterminated
      simp only [World.run_bind, hclose]
      cases result with
      | error e =>
          simp only [World.run_bind, World.run_pure]
          exact abandon_records hrecords file' hvalid''
      | ok _ =>
          have hwhole : content file'.inner host'' = c.trace := by
            rw [hclosed rfl, hcontent, Buffered.contentOf, hempty]
            simp [Config.trace]
          have hlines' : wr.dataLines = c.lineCount := hlines.trans (Config.length_requests c)
          simp only [World.run_pure]
          exact ⟨file'.inner, Prod.ext hlines' rfl, hvalid'', hwhole⟩

end

/-! ## The stages in a row -/

/-- A publication of a valid configuration that has a partial path removes the partial file if and
only if a stage failed. -/
theorem run_publish {c : Config} {part : Path} (hok : c.validate = .ok ())
    (hpart : partialPath c.output = .ok part) (host : FaultyHost) :
    run (publish (m := StateM FaultyHost) c) host =
      match run (writeAndRename (m := StateM FaultyHost) c part).run host with
      | (.ok dataLines, host') => (.ok ⟨dataLines, some c.output⟩, host')
      | (.error e, host') => (.error e, (run (removePartial (m := StateM FaultyHost) part) host').2)
      := by
  have hreport (event : Event) (host : FaultyHost) :
      run (Host.report (m := StateM FaultyHost) event) host = ((), host) := rfl
  unfold publish
  rw [hok, hpart]
  simp only [World.run_bind, hreport]
  rcases run (writeAndRename (m := StateM FaultyHost) c part).run host with ⟨e | dataLines, host'⟩
  · simp only [World.run_bind, World.run_pure]
  · simp only [World.run_bind, World.run_pure, hreport]

/-- A publication that has no partial path, or is not valid, does nothing. -/
theorem run_publish_of_error {c : Config}
    (h : c.validate ≠ .ok () ∨ ∀ part, partialPath c.output ≠ .ok part) (host : FaultyHost) :
    ∃ e, run (publish (m := StateM FaultyHost) c) host = (.error e, host) := by
  unfold publish
  cases hvalidate : c.validate with
  | error e => exact ⟨.config e, rfl⟩
  | ok _ =>
      cases hpart : partialPath c.output with
      | error e => exact ⟨.config e, rfl⟩
      | ok part =>
          rcases h with h | h
          · exact absurd hvalidate h
          · exact absurd hpart (h part)

end BankTrace.Publication
