import BankTrace.Proofs.Emission.Limited
import BankTrace.Proofs.Instruction.Complete
import BankTrace.Proofs.Writer.Session

/-!
# Truncated traces

An emission that a sink brings to a stop leaves the first bytes of the trace behind, and these are
not a complete text. So what a sink holds tells whether its trace was cut short.
-/

namespace BankTrace

open World (run)
open Instruction (Complete encodeAll)

theorem Config.complete_trace (c : Config) : Complete c.trace := ⟨c.requests, rfl⟩

variable {m : Type → Type} [Monad m] {W : Type} [World m W] {σ : Type} [Sink m σ]
  {Valid : σ → W → Prop} {content : σ → W → ByteArray}
  {flushes : σ → W → List (Except IoError Unit)}

/-! ## Emission into an exact sink -/

/-- A line goes in whole and is noted, or a part of it goes in that is not all. -/
theorem Writer.write_exact (h : Sink.Exact m Valid content flushes) (wr : Writer σ)
    (instruction : Instruction) {w : W} (hvalid : Valid wr.sink w) (hopen : wr.terminated = false) :
    ∃ count result wr' w',
      run (wr.write (m := m) instruction) w = ((result, wr'), w') ∧ Valid wr'.sink w' ∧
        content wr'.sink w' = content wr.sink w ++ instruction.encode.extract 0 count ∧
        flushes wr'.sink w' = flushes wr.sink w ∧
        (result = .ok () → count = instruction.encode.size ∧
          wr'.dataLines = wr.dataLines + (if instruction.isEoc then 0 else 1) ∧
          wr'.terminated = instruction.isEoc) ∧
        ∀ e, result = .error e → (∃ cause, e = .io cause) ∧ count < instruction.encode.size := by
  obtain ⟨o, wr', w', hrun, hcall, hvalid', hcontent, hflushes, hstep⟩ :=
    run_perform h wr (.write instruction) hvalid
  rw [Call.perform_eq] at hrun
  rw [hopen] at hstep
  generalize hdataLines : wr'.dataLines = dataLines at hstep
  generalize hterminated : wr'.terminated = terminated at hstep
  cases hstep with
  | whole call =>
      obtain rfl : call = .write instruction := hcall
      exact ⟨instruction.encode.size, .ok (), wr', w', hrun, hvalid',
        by rw [hcontent, ByteArray.extract_zero_size]; rfl, hflushes,
        fun _ => ⟨rfl, hdataLines, hterminated⟩, by simp⟩
  | @torn call e count hpart =>
      obtain rfl : call = .write instruction := hcall
      refine ⟨count, .error (.io e), wr', w', hrun, hvalid', hcontent, hflushes, by simp, ?_⟩
      rintro - ⟨⟩
      exact ⟨⟨e, rfl⟩, hpart⟩

/-- The lines of a traversal go in up to some byte, which is the last when they were all written. -/
theorem Emission.drain_exact (h : Sink.Exact m Valid content flushes) {t : Traversal}
    {instructions : List Instruction} (hgives : t.Gives instructions) {rounds total : Nat}
    (hrounds : instructions.length ≤ rounds) (wr : Writer σ) {w : W} (hvalid : Valid wr.sink w)
    (hawaits : wr.Awaits total instructions) :
    ∃ count result wr' w',
      run (Emission.drain (m := m) rounds t wr) w = ((result, wr'), w') ∧ Valid wr'.sink w' ∧
        content wr'.sink w' = content wr.sink w ++ (encodeAll instructions).extract 0 count ∧
        flushes wr'.sink w' = flushes wr.sink w ∧
        (result = .ok () → count = (encodeAll instructions).size ∧ wr'.terminated = true) ∧
        ∀ e, result = .error e →
          (∃ cause, e = .io cause) ∧ count < (encodeAll instructions).size := by
  generalize hbefore : flushes wr.sink w = before
  generalize hstart : content wr.sink w = start
  have hdrain := Emission.drain_induction (m := m)
    (P := fun left wr w => Valid wr.sink w ∧ flushes wr.sink w = before ∧ wr.Awaits total left ∧
      ∃ done, instructions = done ++ left ∧ content wr.sink w = start ++ encodeAll done)
    (Q := fun e wr w => Valid wr.sink w ∧ flushes wr.sink w = before ∧ (∃ cause, e = .io cause) ∧
      ∃ count < (encodeAll instructions).size,
        content wr.sink w = start ++ (encodeAll instructions).extract 0 count)
    ?_ hgives hrounds ⟨hvalid, hbefore, hawaits, [], rfl, by simp [hstart]⟩
  · obtain ⟨result, wr', w', hrun, hok, herror⟩ := hdrain
    cases result with
    | error e =>
        obtain ⟨hvalid', hflushes, hio, count, hcount, hcontent⟩ := herror e rfl
        exact ⟨count, .error e, wr', w', hrun, hvalid', hcontent, hflushes, by simp,
          fun _ he => Except.error.inj he ▸ ⟨hio, hcount⟩⟩
    | ok _ =>
        obtain ⟨hvalid', hflushes, hdone, done, hdone', hcontent⟩ := hok rfl
        obtain rfl : instructions = done := hdone'.trans (List.append_nil done)
        exact ⟨_, .ok (), wr', w', hrun, hvalid', by rw [ByteArray.extract_zero_size, hcontent],
          hflushes, fun _ => ⟨rfl, hdone.done.2⟩, by simp⟩
  · rintro instruction left wr w ⟨hvalid, hflushes, hawaits, done, hdone, hcontent⟩
    obtain ⟨count, result, wr', w', hrun, hvalid', hcontent', hflushes', hok, herror⟩ :=
      wr.write_exact h instruction hvalid hawaits.terminated_eq_false
    rw [hcontent, ByteArray.append_assoc] at hcontent'
    refine ⟨result, wr', w', hrun, fun hresult => ?_, fun e hresult => ?_⟩
    · obtain ⟨rfl, hlines, hterminated⟩ := hok hresult
      refine ⟨hvalid', hflushes'.trans hflushes, hawaits.next hlines hterminated,
        done ++ [instruction], by rw [hdone, List.append_assoc, List.singleton_append], ?_⟩
      rw [hcontent', ByteArray.extract_zero_size, Instruction.encodeAll_append]
      simp
    · obtain ⟨hio, hpart⟩ := herror e hresult
      have hsize : (encodeAll instructions).size = (encodeAll done).size +
          (instruction.encode.size + (encodeAll left).size) := by
        simp [hdone, Instruction.encodeAll_append]
      refine ⟨hvalid', hflushes'.trans hflushes, hio, (encodeAll done).size + count, by omega, ?_⟩
      have hwhole :
          (encodeAll done).extract 0 ((encodeAll done).size + count) = encodeAll done := by
        rw [ByteArray.extract_eq_extract_append_extract (encodeAll done).size (Nat.zero_le _)
          (Nat.le_add_right _ _), ByteArray.extract_zero_size,
          ByteArray.extract_eq_empty_iff.mpr (Nat.min_le_right _ _), ByteArray.append_empty]
      have hcut : (instruction.encode ++ encodeAll left).extract 0 count =
          instruction.encode.extract 0 count := by
        simp [ByteArray.extract_append, Nat.sub_eq_zero_of_le hpart.le]
      rw [hcontent', hdone, Instruction.encodeAll_append, Instruction.encodeAll_cons,
        ByteArray.extract_append, hwhole, Nat.zero_sub, Nat.add_sub_cancel_left, hcut]

/-! ## What the sink holds -/

/-- An emission of a valid configuration puts the first bytes of the trace into the sink, and makes
the one flush when these are all of them. -/
theorem Emission.emit_exact (h : Sink.Exact m Valid content flushes) {c : Config} (hc : c.IsValid)
    {s : σ} {w : W} (hvalid : Valid s w) :
    let out := run (Emission.emit (m := m) c s) w
    (∃ cause, ∃ count < c.trace.size, out.1.1 = .error (.io cause) ∧
      content out.1.2 out.2 = content s w ++ c.trace.extract 0 count ∧
      flushes out.1.2 out.2 = flushes s w) ∨
    ∃ result, content out.1.2 out.2 = content s w ++ c.trace ∧
      flushes out.1.2 out.2 = flushes s w ++ [result] := by
  intro out
  obtain ⟨count, result, wr, w', hrun, hvalid', hcontent, hflushes, hok, herror⟩ :=
    Emission.drain_exact h hc.gives c.length_instructions.le ({ sink := s } : Writer σ) hvalid
      (Writer.awaits_requests s c.requests)
  cases result with
  | error e =>
      obtain ⟨⟨cause, rfl⟩, hcount⟩ := herror e rfl
      refine .inl ⟨cause, count, hcount, ?_⟩
      simp only [out, Emission.run_emit_of_error hc.ofConfig hrun]
      exact ⟨trivial, hcontent, hflushes⟩
  | ok _ =>
      obtain ⟨rfl, hterminated⟩ := hok rfl
      obtain ⟨result, s', w'', hclose, hcontent', hflushes'⟩ :=
        wr.run_close_of_terminated h hvalid' hterminated
      refine .inr ⟨result, ?_⟩
      simp only [out, Emission.run_emit_of_ok hc.ofConfig hrun hclose]
      rw [ByteArray.extract_zero_size] at hcontent
      exact ⟨hcontent'.trans hcontent, hflushes'.trans (congrArg (· ++ [result]) hflushes)⟩

/-- Nothing comes behind the sentinel of a complete text in a complete text. So an emission that
fails before its flush leaves no complete text in the sink, and no trace is cut short to the trace
of another configuration. -/
theorem Emission.truncated_not_complete (h : Sink.Exact m Valid content flushes) :
    (∀ front behind, Complete front → Complete (front ++ behind) → behind = .empty) ∧
    (∀ (c : Config) (s : σ) (w : W), c.validate = .ok () → Valid s w →
      let out := run (Emission.emit (m := m) c s) w
      ∀ e, out.1.1 = .error e → flushes out.1.2 out.2 = flushes s w →
        (∃ cause, e = .io cause) ∧ ∃ count < (Emission.bytes c).size,
          content out.1.2 out.2 = content s w ++ (Emission.bytes c).extract 0 count ∧
          ¬ Complete ((Emission.bytes c).extract 0 count)) ∧
    ∀ c d : Config, c.validate = .ok () → d.validate = .ok () →
      ∀ count < (Emission.bytes c).size, (Emission.bytes c).extract 0 count ≠ Emission.bytes d := by
  refine ⟨fun front behind hfront => hfront.eq_empty_of_append, fun c s w hok hvalid => ?_,
    fun c d hc hd count hcount => ?_⟩
  · intro out e he hflushes
    have hc := (Config.validate_eq_ok_iff c).mp hok
    rw [Emission.bytes_eq_trace hc]
    rcases Emission.emit_exact h hc hvalid with
      ⟨cause, count, hcount, hresult, hcontent, -⟩ | ⟨result, -, hflushed⟩
    · exact ⟨⟨cause, Except.error.inj (he.symm.trans hresult)⟩, count, hcount, hcontent,
        c.complete_trace.not_extract hcount⟩
    · exact absurd (hflushed.symm.trans hflushes) (by simp)
  · rw [Emission.bytes_eq_trace ((Config.validate_eq_ok_iff c).mp hc)] at hcount ⊢
    rw [Emission.bytes_eq_trace ((Config.validate_eq_ok_iff d).mp hd)]
    exact fun heq => c.complete_trace.not_extract hcount (heq ▸ d.complete_trace)

/-- The sink is full in the middle of the sentinel. -/
theorem Emission.truncated_not_complete_in_sentinel :
    let c : Config := { output := ⟨[0x74]⟩, rowCount := 1, burstCount := 1, bankOrder := [3] }
    let s : MemorySink := { limit := some 30, chunk := some 3, silentWhenFull := true }
    let out := run (Emission.emit (m := Id) c s) ()
    c.validate = .ok () ∧ out.1.1 = .error (.io .wroteNothing) ∧
      out.1.2.flushResults = s.flushResults ∧ ∃ count < (Emission.bytes c).size,
        out.1.2.content = s.content ++ (Emission.bytes c).extract 0 count ∧
        ¬ Complete ((Emission.bytes c).extract 0 count) := by
  intro c s out
  have hok : c.validate = .ok () := by decide
  have hout : out.1.1 = .error (.io .wroteNothing) ∧ out.1.2.flushResults = s.flushResults := by
    decide +kernel
  obtain ⟨hresult, hflushes⟩ := hout
  clear_value c s
  exact ⟨hok, hresult, hflushes,
    ((Emission.truncated_not_complete (MemorySink.exact Id)).2.1 c s () hok trivial _ hresult
      hflushes).2⟩

end BankTrace
