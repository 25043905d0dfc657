import BankTrace.Proofs.Emission.Drain
import BankTrace.Proofs.Sink.Limited

/-!
# Emission into a limited sink

A limited sink ends up with the first bytes of the trace, wherever its limit cuts them, and the
result says whether the whole trace went in.
-/

namespace BankTrace

open World (run)

variable {m : Type → Type} [Monad m] {W : Type} [World m W] {σ : Type} [Sink m σ]
  {Valid : σ → W → Prop} {content : σ → W → ByteArray}
  {flushes : σ → W → List (Except IoError Unit)} {limit : Option Nat}

/-! ## One line -/

/-- A line goes in up to the limit. The writer takes note of it when all of it went in. -/
theorem Writer.write_limited (h : Sink.Limited m Valid content flushes limit) (wr : Writer σ)
    (instruction : Instruction) {w : W} (hvalid : Valid wr.sink w) (hopen : wr.terminated = false) :
    ∃ result wr' w',
      run (wr.write (m := m) instruction) w = ((result, wr'), w') ∧ Valid wr'.sink w' ∧
        content wr'.sink w' = cutAt limit (content wr.sink w ++ instruction.encode) ∧
        flushes wr'.sink w' = flushes wr.sink w ∧
        (result = .ok () ↔
          Fits limit ((content wr.sink w).size + instruction.encode.size)) ∧
        (result = .ok () →
          wr'.dataLines = wr.dataLines + (if instruction.isEoc then 0 else 1) ∧
          wr'.terminated = instruction.isEoc) := by
  obtain ⟨sink, dataLines, terminated⟩ := wr
  obtain rfl : terminated = false := hopen
  obtain ⟨result, left, s', w', hrun, hvalid', hcontent, hflushes, hok⟩ :=
    h.offer instruction.encode hvalid
  cases result with
  | error e =>
      refine ⟨.error (.io e), ⟨s', dataLines, false⟩, w', ?_, hvalid', hcontent, hflushes, ?_, ?_⟩
      · simp [Writer.write, hrun]
      · simpa using hok
      · simp
  | ok _ =>
      refine ⟨.ok (), ⟨s', dataLines + (if instruction.isEoc then 0 else 1), instruction.isEoc⟩, w',
        ?_, hvalid', hcontent, hflushes, ?_, ?_⟩
      · cases instruction <;> simp [Writer.write, hrun, Instruction.isEoc]
      · simpa using hok
      · simp

/-! ## A whole traversal -/

/-- The lines of a traversal go in up to the limit, and the writer has noted them when they all
went in. As long as they do, what went in and what is left make up the same bytes. -/
theorem Emission.drain_limited (h : Sink.Limited m Valid content flushes limit) {t : Traversal}
    {instructions : List Instruction} (hgives : t.Gives instructions) {count total : Nat}
    (hcount : instructions.length ≤ count) (wr : Writer σ) {w : W} (hvalid : Valid wr.sink w)
    (hawaits : wr.Awaits total instructions) :
    ∃ result wr' w',
      run (Emission.drain (m := m) count t wr) w = ((result, wr'), w') ∧ Valid wr'.sink w' ∧
        content wr'.sink w' =
          cutAt limit (content wr.sink w ++ Instruction.encodeAll instructions) ∧
        flushes wr'.sink w' = flushes wr.sink w ∧
        (result = .ok () ↔
          Fits limit (content wr.sink w ++ Instruction.encodeAll instructions).size) ∧
        (result = .ok () → wr'.dataLines = total ∧ wr'.terminated = true) := by
  generalize hwhole : content wr.sink w ++ Instruction.encodeAll instructions = whole
  generalize hbefore : flushes wr.sink w = before
  have hdrain := Emission.drain_induction (m := m)
    (P := fun left wr w => Valid wr.sink w ∧ flushes wr.sink w = before ∧
      content wr.sink w ++ Instruction.encodeAll left = whole ∧ wr.Awaits total left)
    (Q := fun _ wr w => Valid wr.sink w ∧ flushes wr.sink w = before ∧
      content wr.sink w = cutAt limit whole ∧ ¬ Fits limit whole.size)
    ?_ hgives hcount ⟨hvalid, hbefore, hwhole, hawaits⟩
  · obtain ⟨result, wr', w', hrun, hok, herror⟩ := hdrain
    cases result with
    | error e =>
        obtain ⟨hvalid', hflushes, hcontent, hnot⟩ := herror e rfl
        exact ⟨.error e, wr', w', hrun, hvalid', hcontent, hflushes, by simp [hnot], by simp⟩
    | ok _ =>
        obtain ⟨hvalid', hflushes, hcontent, hdone⟩ := hok rfl
        rw [Instruction.encodeAll_nil, ByteArray.append_empty] at hcontent
        have hfits : Fits limit whole.size := hcontent ▸ h.fits hvalid'
        exact ⟨.ok (), wr', w', hrun, hvalid', by rw [hcontent, cutAt_of_fits hfits], hflushes,
          by simp [hfits], fun _ => hdone.done⟩
  · rintro instruction left wr w ⟨hvalid, hflushes, hcontent, hawaits⟩
    obtain ⟨result, wr', w', hrun, hvalid', hcontent', hflushes', hok, hnote⟩ :=
      wr.write_limited h instruction hvalid hawaits.terminated_eq_false
    rw [Instruction.encodeAll_cons, ← ByteArray.append_assoc] at hcontent
    rw [← ByteArray.size_append] at hok
    refine ⟨result, wr', w', hrun, fun hresult => ?_, fun e hresult => ?_⟩
    · obtain ⟨hlines, hterminated⟩ := hnote hresult
      rw [cutAt_of_fits (hok.mp hresult)] at hcontent'
      exact ⟨hvalid', hflushes'.trans hflushes, hcontent' ▸ hcontent,
        hawaits.next hlines hterminated⟩
    · have hnot : ¬ Fits limit (content wr.sink w ++ instruction.encode).size := by
        rw [← hok, hresult]
        simp
      refine ⟨hvalid', hflushes'.trans hflushes, ?_, fun hfits => hnot (hfits.mono ?_)⟩
      · rw [hcontent', ← hcontent, cutAt_append_of_not_fits hnot]
      · simp [← hcontent]

/-! ## A whole emission -/

theorem Writer.close_limited (h : Sink.Limited m Valid content flushes limit) (wr : Writer σ)
    {w : W} (hvalid : Valid wr.sink w) (hterminated : wr.terminated = true) :
    ∃ result s' w',
      run (wr.close (m := m)) w = ((result.mapError Error.io, s'), w') ∧
        content s' w' = content wr.sink w ∧ flushes s' w' = flushes wr.sink w ++ [result] := by
  obtain ⟨result, s', w', hrun, -, hcontent, hflushes⟩ := h.flush hvalid
  exact ⟨result, s', w', by simp [Writer.close, hterminated, hrun], hcontent, hflushes⟩

theorem Emission.run_emit_of_error {c : Config} {t : Traversal} (ht : Traversal.ofConfig c = .ok t)
    {s : σ} {w w' : W} {e : Error} {wr : Writer σ}
    (hrun : run (Emission.drainAll (m := m) t ({ sink := s } : Writer σ)) w =
      ((.error e, wr), w')) :
    run (Emission.emit (m := m) c s) w = ((.error e, wr.sink), w') := by
  unfold Emission.emit
  rw [ht]
  simp [hrun]

theorem Emission.run_emit_of_ok {c : Config} {t : Traversal} (ht : Traversal.ofConfig c = .ok t)
    {s s' : σ} {w w' w'' : W} {wr : Writer σ} {result : Except Error Unit}
    (hrun : run (Emission.drainAll (m := m) t ({ sink := s } : Writer σ)) w = ((.ok (), wr), w'))
    (hclose : run (wr.close (m := m)) w' = ((result, s'), w'')) :
    run (Emission.emit (m := m) c s) w =
      ((result.map fun _ => ⟨wr.dataLines, none⟩, s'), w'') := by
  unfold Emission.emit
  rw [ht]
  simp [hrun, hclose]

/-- An emission is refused with the error of validation and without a byte, or leaves the sink with
as many of the first bytes of the trace as it takes. The sink is flushed once, and only behind the
whole trace, and the emission succeeds when that flush does. -/
theorem Emission.emit_limited (h : Sink.Limited m Valid content flushes limit) (c : Config) {s : σ}
    {w : W} (hvalid : Valid s w) (hempty : content s w = .empty) (hflushes : flushes s w = []) :
    let out := run (Emission.emit (m := m) c s) w
    (∀ e, c.validate = .error e →
      out.1.1 = .error (.config e) ∧ content out.1.2 out.2 = .empty ∧
        flushes out.1.2 out.2 = []) ∧
    (c.validate = .ok () → ∃ t instructions,
      Traversal.ofConfig c = .ok t ∧ t.Gives instructions ∧
        let text := Instruction.encodeAll instructions
        content out.1.2 out.2 = text.extract 0 (upTo limit text.size) ∧
        (Fits limit text.size → (flushes out.1.2 out.2).length = 1) ∧
        (¬ Fits limit text.size → flushes out.1.2 out.2 = []) ∧
        ∀ summary, out.1.1 = .ok summary ↔
          Fits limit text.size ∧ flushes out.1.2 out.2 = [.ok ()] ∧
            c.dataLineCount? = some summary.dataLines ∧ summary.path = none) := by
  refine ⟨fun e he => ?_, fun hok => ?_⟩
  · unfold Emission.emit
    rw [Config.ofConfig_of_validate_eq_error he]
    simp [hempty, hflushes]
  · have hc := (Config.validate_eq_ok_iff c).mp hok
    obtain ⟨t, ht, hgives, hcount⟩ := hc.exists_traversal
    refine ⟨t, c.instructions, ht, hgives, ?_⟩
    obtain ⟨result, wr', w', hrun, hvalid', hcontent, hflushes', hresult, hnote⟩ :=
      Emission.drain_limited h hgives hcount ({ sink := s } : Writer σ) hvalid
        (Writer.awaits_requests s c.requests)
    rw [hempty, ByteArray.empty_append] at hcontent hresult
    rw [hflushes] at hflushes'
    cases result with
    | error e =>
        have hnot : ¬ Fits limit (Instruction.encodeAll c.instructions).size := by
          simpa using hresult
        simp only [Emission.run_emit_of_error ht hrun]
        exact ⟨hcontent, fun hfits => absurd hfits hnot, fun _ => hflushes', by simp [hnot]⟩
    | ok _ =>
        have hfits : Fits limit (Instruction.encodeAll c.instructions).size := hresult.mp rfl
        obtain ⟨hlines, hterminated⟩ := hnote rfl
        obtain ⟨result, s', w'', hrun', hcontent', hflushes''⟩ :=
          wr'.close_limited h hvalid' hterminated
        rw [hflushes', List.nil_append] at hflushes''
        rw [Config.length_requests] at hlines
        simp only [Emission.run_emit_of_ok ht hrun hrun']
        refine ⟨hcontent'.trans hcontent, fun _ => by simp [hflushes''],
          fun hnot => absurd hfits hnot, fun summary => ?_⟩
        obtain ⟨dataLines, path⟩ := summary
        cases result with
        | error e => simp [Except.mapError, Except.map, hflushes'']
        | ok _ =>
            simp [Except.mapError, Except.map, hflushes'', hfits, hc.dataLineCount?, hlines,
              eq_comm]

/-- The limit cuts the second of two lines, and the sink takes three bytes at a time. -/
theorem Emission.emit_limited_two_lines :
    let c : Config := { output := ⟨[0x74]⟩, rowCount := 1, burstCount := 1, bankOrder := [3] }
    let s : MemorySink := { limit := some 30, chunk := some 3, silentWhenFull := true }
    let out := run (Emission.emit (m := Id) c s) ()
    s.Within (some 30) ∧ s.content = .empty ∧ s.flushResults = [] ∧ c.validate = .ok () ∧
      ∃ t instructions, Traversal.ofConfig c = .ok t ∧ t.Gives instructions ∧
        out.1.2.content = (Instruction.encodeAll instructions).extract 0
          (upTo (some 30) (Instruction.encodeAll instructions).size) := by
  intro c s out
  have hwithin : s.Within (some 30) := ⟨rfl, fun most _ => Nat.zero_le most, by decide⟩
  have hempty : s.content = .empty := rfl
  have hflushes : s.flushResults = [] := rfl
  have hok : c.validate = .ok () := by decide
  clear_value c s
  obtain ⟨t, instructions, ht, hgives, hcontent, -⟩ :=
    (Emission.emit_limited (MemorySink.limited Id (some 30)) c (w := ()) hwithin hempty
      hflushes).2 hok
  exact ⟨hwithin, hempty, hflushes, hok, t, instructions, ht, hgives, hcontent⟩

/-! ## The bytes of an emission -/

/-- What an emission leaves in a sink in memory that has room for all of it. -/
def Emission.bytes (c : Config) : ByteArray :=
  (run (Emission.emit (m := Id) c ({} : MemorySink)) ()).1.2.content

theorem Emission.bytes_eq_trace {c : Config} (hc : c.IsValid) : Emission.bytes c = c.trace := by
  have hlimited := MemorySink.limited Id none
  have hfits (size : Nat) : Fits none size := by simp [Fits]
  have hwithin : ({} : MemorySink).Within none := ⟨rfl, hfits _, by simp⟩
  have hcount : c.instructions.length ≤ c.lineCount + 1 := c.length_instructions.le
  obtain ⟨result, wr, w, hrun, hvalid, hcontent, -, hresult, hnote⟩ :=
    Emission.drain_limited hlimited hc.gives hcount ({ sink := {} } : Writer MemorySink) (w := ())
      hwithin (Writer.awaits_requests _ c.requests)
  obtain rfl : result = .ok () := hresult.mpr (hfits _)
  obtain ⟨result, s, w', hclose, hkept, -⟩ := wr.close_limited hlimited hvalid (hnote rfl).2
  rw [Emission.bytes, Emission.run_emit_of_ok hc.ofConfig hrun hclose, hkept, hcontent,
    cutAt_of_fits (hfits _)]
  simp [Config.trace]

end BankTrace
