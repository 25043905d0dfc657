import BankTrace.Proofs.Emission.Failures
import BankTrace.Publication

/-!
# With what a publication fails

A publication of a valid configuration has no failures of its own either: each is one of the host,
in the step in which it came up.
-/

namespace BankTrace

open World (run Keeps ResultsIn)

/-! ## Errors of input and output -/

/-- An error of input or output, in whatever steps it came up. -/
inductive Error.IsIo : Error → Prop where
  | io (cause : IoError) : IsIo (.io cause)
  | inStep (step : String) {cause : Error} (h : IsIo cause) : IsIo (.inStep step cause)

section

variable {m : Type → Type} [Monad m] {W : Type} [World m W] {α : Type} {P : α → Prop}
  {x : m (Except IoError α)}

theorem World.resultsIn_checked (h : ∀ w a, (run x w).1 = .ok a → P a) :
    ResultsIn P Error.IsIo (Host.checked x) := by
  intro w
  rw [World.run_checked]
  cases hresult : (run x w).1 with
  | error cause =>
      refine ⟨by simp [Except.mapError], ?_⟩
      rintro _ ⟨⟩
      exact .io cause
  | ok a =>
      refine ⟨?_, by simp [Except.mapError]⟩
      rintro _ ⟨⟩
      exact h w a hresult

theorem World.resultsIn_attempt {step : String} (h : ∀ w a, (run x w).1 = .ok a → P a) :
    ResultsIn P Error.IsIo (Host.attempt step x) := by
  intro w
  rw [World.run_attempt]
  cases hresult : (run x w).1 with
  | error cause =>
      refine ⟨by simp [inStep, Except.mapError], ?_⟩
      rintro _ ⟨⟩
      exact .inStep step (.io cause)
  | ok a =>
      refine ⟨?_, by simp [inStep, Except.mapError]⟩
      rintro _ ⟨⟩
      exact h w a hresult

end

/-! ## Publications -/

namespace Publication

variable {m : Type → Type} [Monad m] {W : Type} [World m W] {Handle : Type} [Host m Handle]

theorem resultsIn_prepareDirectory [LawfulMonad m] (output : Path) :
    ResultsIn (fun _ => True) Error.IsIo (prepareDirectory (m := m) output) := by
  unfold prepareDirectory
  cases output.parent? with
  | none => exact .pure trivial
  | some directory =>
      dsimp only
      split_ifs
      · exact .pure trivial
      · refine (ResultsIn.lift _).bind fun present _ => ?_
        split_ifs
        · exact .pure trivial
        · exact (World.resultsIn_attempt (P := fun _ => True) fun _ _ _ => trivial).bind
            fun _ _ => .lift _

theorem resultsIn_create (step : String) (part : Path) :
    ResultsIn (fun writer => ∃ handle, writer = { sink := { inner := ⟨handle⟩ } }) Error.IsIo
      (Host.attempt step (FileWriter.create (m := m) part)) := by
  refine World.resultsIn_attempt fun w writer hwriter => ?_
  rw [FileWriter.create, World.run_bind, World.run_pure] at hwriter
  cases hresult : (run (Host.createFile (m := m) part) w).1 with
  | error e => simp [hresult, Except.map] at hwriter
  | ok handle =>
      rw [hresult] at hwriter
      exact ⟨handle, (Except.ok.inj hwriter).symm⟩

/-- A new file is filled, or the failure is one of the file. -/
theorem fill_fails [LawfulMonad m] {Valid : FileSink Handle → W → Prop} {Reason : IoError → Prop}
    (h : Sink.FailsFor m Valid Reason)
    (hreport : ∀ event file, Keeps (Valid file) (Host.report (m := m) event)) {c : Config}
    (hc : c.IsValid) (file : FileSink Handle) {w : W} (hvalid : Valid file w) :
    ∃ result w', run (fill (m := m) c { sink := { inner := file } }) w = (result, w') ∧
      (∃ file', Valid file' w') ∧
        ∀ e, result = .error e → ∃ cause, e = .io cause ∧ Reason cause := by
  have hbuffered := Buffered.failsFor h
  obtain ⟨t, ht, hgives, hcount⟩ := hc.exists_traversal
  have hreports (events : List Event) :
      Keeps (Valid file) (events.forM (Host.report (m := m))) := by
    induction events with
    | nil => exact Keeps.pure _
    | cons event events ih => exact (hreport event file).bind fun _ => ih
  have hstart := hreports (Emission.announcement c) w hvalid
  obtain ⟨result, wr, w', hrun, hvalid', hnote, hreason⟩ :=
    Emission.drain_fails hbuffered hgives hcount ({ sink := { inner := file } } : FileWriter Handle)
      hstart (Writer.awaits_requests _ c.requests)
  unfold fill
  rw [ht]
  simp only [World.run_bind]
  unfold Emission.drainAll
  rw [hrun]
  -- Giving the file up is the last that is done after a failure.
  have habandon (b : Buffered (FileSink Handle)) {w : W} (hvalid : Valid b.inner w) :
      ∃ file', Valid file' (run (FileWriter.abandon (m := m) b) w).2 := by
    obtain ⟨result, b', w', hrun, hvalid', -⟩ := b.passOn_fails h hvalid
    rw [FileWriter.abandon, World.run_discard, hrun]
    exact ⟨b'.inner, hvalid'⟩
  cases result with
  | error e =>
      simp only [World.run_bind, World.run_pure]
      exact ⟨.error e, _, rfl, habandon _ hvalid',
        fun _ he => hreason _ (Except.error.inj he ▸ rfl)⟩
  | ok _ =>
      obtain ⟨result, file', w'', hclose, hvalid'', hreason'⟩ :=
        wr.close_fails hbuffered hvalid' (hnote rfl).2
      simp only [World.run_bind, hclose]
      cases result with
      | error e =>
          simp only [World.run_bind, World.run_pure]
          exact ⟨.error e, _, rfl, habandon _ hvalid'',
            fun _ he => hreason' _ (Except.error.inj he ▸ rfl)⟩
      | ok _ =>
          simp only [World.run_pure]
          exact ⟨_, _, rfl, ⟨_, hvalid''⟩, by simp⟩

theorem resultsIn_fill [LawfulMonad m] {c : Config} (hc : c.IsValid) (handle : Handle) :
    ResultsIn (fun _ => True) Error.IsIo
      (ExceptT.mk (fill (m := m) c { sink := { inner := ⟨handle⟩ } })) := by
  intro w
  obtain ⟨result, w', hrun, -, hreason⟩ := fill_fails (m := m) Sink.failsFor_any
    (fun _ _ _ _ => trivial) hc ⟨handle⟩ (w := w) trivial
  rw [ExceptT.run_mk, hrun]
  refine ⟨fun _ _ => trivial, fun e he => ?_⟩
  obtain ⟨cause, rfl, -⟩ := hreason e he
  exact .io cause

theorem resultsIn_writeAndRename [LawfulMonad m] {c : Config} (hc : c.IsValid) (part : Path) :
    ResultsIn (fun _ => True) Error.IsIo (writeAndRename (m := m) c part) := by
  unfold writeAndRename
  refine (resultsIn_prepareDirectory c.output).bind fun _ _ => ?_
  refine (resultsIn_create _ part).bind ?_
  rintro _ ⟨handle, rfl⟩
  refine (resultsIn_fill hc handle).bind fun _ _ => ?_
  refine (World.resultsIn_checked (P := fun _ => True) fun _ _ _ => trivial).bind fun _ _ => ?_
  exact (World.resultsIn_attempt (P := fun _ => True) fun _ _ _ => trivial).bind
    fun _ _ => .pure trivial

theorem isIo_of_publish [LawfulMonad m] {c : Config} (hc : c.IsValid) {w : W} {e : Error}
    (he : (run (publish (m := m) c) w).1 = .error e) : e.IsIo := by
  obtain ⟨name, hname⟩ := Option.isSome_iff_exists.mp hc.hasFileName
  unfold publish at he
  simp only [(Config.validate_eq_ok_iff c).mpr hc, partialPath, hname, World.run_bind] at he
  generalize (run (Host.report (m := m) (.writing c.opcode c.output)) w).2 = start at he
  rcases hrun : run (writeAndRename (m := m) c
    (c.output.withFileName (name ++ partialSuffix))).run start with ⟨cause | dataLines, w'⟩
  · simp only [hrun, World.run_bind, World.run_pure] at he
    exact Except.error.inj he ▸ (resultsIn_writeAndRename hc _ start).2 cause (by rw [hrun])
  · simp [hrun] at he

end Publication

end BankTrace
