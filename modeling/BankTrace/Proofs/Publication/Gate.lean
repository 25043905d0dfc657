import BankTrace.Proofs.Publication.Failures

/-!
# Validation as the gate

Everything that makes a trace asks for a valid configuration first, and gives back the error of
validation when it is not. Behind that only input and output can fail.
-/

namespace BankTrace

open World (run)

namespace Config

/-- What an error of validation does: nothing is traversed, emitted or published, and the error
comes back as it is. -/
structure Refused (c : Config) (e : ConfigError) : Prop where
  traversal : Traversal.ofConfig c = .error (.config e)
  emission {m : Type → Type} [Monad m] {σ : Type} [Sink m σ] (s : σ) :
    Emission.emit (m := m) c s = pure (.error (.config e), s)
  publication {m : Type → Type} [Monad m] {Handle : Type} [Host m Handle] :
    Publication.publish (m := m) c = pure (.error (.config e))

/-- What a valid configuration can rely on: none of the later checks fails, the data lines can be
counted at any time, and what fails is the sink or the host. -/
structure Admitted (c : Config) : Prop where
  traversal : ∃ t, Traversal.ofConfig c = .ok t
  lineCount : ∃ count, c.dataLineCount? = some count
  masks : ∃ masks, c.channelMode.masks = .ok masks
  partialPath : ∃ part, Publication.partialPath c.output = .ok part
  /-- Into a sink that never fails every line goes, and they are all counted. -/
  emission {m : Type → Type} [Monad m] {W : Type} [World m W] {σ : Type} [Sink m σ]
    {Valid : σ → W → Prop} {s : σ} {w : W} (hsink : Sink.FailsFor m Valid fun _ => False)
    (hvalid : Valid s w) : ∃ count s' w', c.dataLineCount? = some count ∧
      run (Emission.emit (m := m) c s) w = ((.ok ⟨count, none⟩, s'), w')
  /-- Into any sink, the writer is never refused. -/
  failure {m : Type → Type} [Monad m] {W : Type} [World m W] {σ : Type} [Sink m σ] {s : σ} {w : W}
    {e : Error} (he : (run (Emission.emit (m := m) c s) w).1.1 = .error e) : ∃ cause, e = .io cause
  /-- However many lines were tried, and whatever the sink did. -/
  counter {m : Type → Type} [Monad m] {W : Type} [World m W] {σ : Type} [Sink m σ] {t : Traversal}
    (ht : Traversal.ofConfig c = .ok t) (lines : Nat) (s : σ) (w : W) :
      (run (Emission.drain (m := m) lines t ({ sink := s } : Writer σ)) w).1.2.dataLines <
        UInt64.size
  publication {m : Type → Type} [Monad m] [LawfulMonad m] {W : Type} [World m W] {Handle : Type}
    [Host m Handle] {w : W} {e : Error}
    (he : (run (Publication.publish (m := m) c) w).1 = .error e) : e.IsIo

theorem IsValid.admitted {c : Config} (hc : c.IsValid) : c.Admitted where
  traversal := ⟨_, hc.ofConfig⟩
  lineCount := ⟨_, hc.dataLineCount?⟩
  masks := ⟨_, hc.channelMode.masks⟩
  partialPath := by
    obtain ⟨name, hname⟩ := Option.isSome_iff_exists.mp hc.hasFileName
    exact ⟨c.output.withFileName (name ++ Publication.partialSuffix),
      by simp [Publication.partialPath, hname]⟩
  emission hsink hvalid := by
    obtain ⟨result, s', w', hrun, -, hsummary, hreason⟩ := Emission.emit_fails hsink hc hvalid
    cases result with
    | error e =>
        obtain ⟨-, -, hnever⟩ := hreason e rfl
        exact hnever.elim
    | ok summary => exact ⟨_, s', w', hc.dataLineCount?, hsummary summary rfl ▸ hrun⟩
  failure {m _ W _ σ _ s w e} he := by
    obtain ⟨result, s', w', hrun, -, -, hreason⟩ :=
      Emission.emit_fails (Sink.failsFor_any (m := m)) hc (s := s) (w := w) trivial
    rw [hrun] at he
    obtain ⟨cause, hcause, -⟩ := hreason e he
    exact ⟨cause, hcause⟩
  counter ht lines s w := by
    obtain rfl := Except.ok.inj (ht.symm.trans hc.ofConfig)
    refine (Emission.dataLines_drain_le hc.gives lines _ (Writer.awaits_requests s c.requests)
      w).trans_lt ?_
    rw [length_requests]
    exact hc.lineCount_lt
  publication := Publication.isIo_of_publish hc

theorem refused_of_validate_eq_error {c : Config} {e : ConfigError} (h : c.validate = .error e) :
    c.Refused e where
  traversal := ofConfig_of_validate_eq_error h
  emission s := by
    unfold Emission.emit
    rw [ofConfig_of_validate_eq_error h]
  publication := by
    intros
    unfold Publication.publish
    rw [h]

/-- Validation decides everything that does not depend on the sink or the host. -/
theorem validate_gates (c : Config) :
    (∀ e, c.validate = .error e → c.Refused e) ∧ (c.validate = .ok () → c.Admitted) :=
  ⟨fun _ => refused_of_validate_eq_error,
    fun h => ((validate_eq_ok_iff c).mp h).admitted⟩

/-- One bank is admitted, and the same bank twice is refused. -/
theorem validate_gates_repeated_bank :
    let c : Config := { output := ⟨[0x74]⟩, rowCount := 2, burstCount := 3, bankOrder := [4] }
    let d : Config := { c with bankOrder := [4, 4] }
    c.validate = .ok () ∧ d.validate = .error (.duplicateBank 4) ∧
      (∃ count s', c.dataLineCount? = some count ∧
        run (Emission.emit (m := Id) c ({} : MemorySink)) () = ((.ok ⟨count, none⟩, s'), ())) ∧
      Emission.emit (m := Id) d ({} : MemorySink) = (.error (.config (.duplicateBank 4)), {}) := by
  intro c d
  have hc : c.validate = .ok () := by decide
  have hd : d.validate = .error (.duplicateBank 4) := by decide
  obtain ⟨count, s', w', hcount, hrun⟩ :=
    ((validate_gates c).2 hc).emission (MemorySink.failsFor_never Id) (s := {}) (w := ())
      ⟨rfl, rfl, rfl⟩
  exact ⟨hc, hd, ⟨count, s', hcount, hrun⟩, ((validate_gates d).1 _ hd).emission _⟩

end Config

end BankTrace
