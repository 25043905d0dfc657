import BankTrace.Proofs.Emission.Drain
import BankTrace.Proofs.Sink.Records

/-!
# Emission into a sink that records

Lines that are written stand behind each other, whatever the sink does in between. A close that
succeeds leaves nothing behind in the collecting sink.
-/

namespace BankTrace

open World (run)

variable {m : Type → Type} [Monad m] {W : Type} [World m W] {σ : Type} [Sink m σ]
  {Valid : σ → W → Prop} {content : σ → W → ByteArray}

theorem Writer.write_records (h : Sink.Records m Valid content) (wr : Writer σ)
    (instruction : Instruction) {w : W} (hvalid : Valid wr.sink w) (hopen : wr.terminated = false) :
    ∃ result wr' w',
      run (wr.write (m := m) instruction) w = ((result, wr'), w') ∧ Valid wr'.sink w' ∧
        (result = .ok () →
          content wr'.sink w' = content wr.sink w ++ instruction.encode ∧
          wr'.dataLines = wr.dataLines + (if instruction.isEoc then 0 else 1) ∧
          wr'.terminated = instruction.isEoc) := by
  obtain ⟨sink, dataLines, terminated⟩ := wr
  obtain rfl : terminated = false := hopen
  obtain ⟨result, left, s', w', hrun, hvalid', hok⟩ := h.offer instruction.encode hvalid
  cases result with
  | error e =>
      exact ⟨.error (.io e), ⟨s', dataLines, false⟩, w', by simp [Writer.write, hrun], hvalid',
        by simp⟩
  | ok _ =>
      refine ⟨.ok (), ⟨s', dataLines + (if instruction.isEoc then 0 else 1), instruction.isEoc⟩, w',
        ?_, hvalid', fun _ => ⟨(hok rfl).2, rfl, rfl⟩⟩
      cases instruction <;> simp [Writer.write, hrun, Instruction.isEoc]

/-- The lines of a traversal stand behind each other when all of them were written. -/
theorem Emission.drain_records (h : Sink.Records m Valid content) {t : Traversal}
    {instructions : List Instruction} (hgives : t.Gives instructions) {count total : Nat}
    (hcount : instructions.length ≤ count) (wr : Writer σ) {w : W} (hvalid : Valid wr.sink w)
    (hawaits : wr.Awaits total instructions) :
    ∃ result wr' w',
      run (Emission.drain (m := m) count t wr) w = ((result, wr'), w') ∧ Valid wr'.sink w' ∧
        (result = .ok () →
          content wr'.sink w' = content wr.sink w ++ Instruction.encodeAll instructions ∧
          wr'.dataLines = total ∧ wr'.terminated = true) := by
  generalize hwhole : content wr.sink w ++ Instruction.encodeAll instructions = whole
  have hdrain := Emission.drain_induction (m := m)
    (P := fun left wr w => Valid wr.sink w ∧
      content wr.sink w ++ Instruction.encodeAll left = whole ∧ wr.Awaits total left)
    (Q := fun _ wr w => Valid wr.sink w)
    ?_ hgives hcount ⟨hvalid, hwhole, hawaits⟩
  · obtain ⟨result, wr', w', hrun, hok, herror⟩ := hdrain
    cases result with
    | error e => exact ⟨.error e, wr', w', hrun, herror e rfl, by simp⟩
    | ok _ =>
        obtain ⟨hvalid', hcontent, hdone⟩ := hok rfl
        rw [Instruction.encodeAll_nil, ByteArray.append_empty] at hcontent
        exact ⟨.ok (), wr', w', hrun, hvalid', fun _ => ⟨hcontent, hdone.done⟩⟩
  · rintro instruction left wr w ⟨hvalid, hcontent, hawaits⟩
    obtain ⟨result, wr', w', hrun, hvalid', hok⟩ :=
      wr.write_records h instruction hvalid hawaits.terminated_eq_false
    refine ⟨result, wr', w', hrun, fun hresult => ?_, fun _ _ => hvalid'⟩
    obtain ⟨hcontent', hlines, hterminated⟩ := hok hresult
    rw [Instruction.encodeAll_cons, ← ByteArray.append_assoc, ← hcontent'] at hcontent
    exact ⟨hvalid', hcontent, hawaits.next hlines hterminated⟩

theorem Writer.close_records (h : Sink.Records m Valid content) (wr : Writer (Buffered σ)) {w : W}
    (hvalid : Valid wr.sink.inner w) (hterminated : wr.terminated = true) :
    ∃ result b' w', run (wr.close (m := m)) w = ((result, b'), w') ∧ Valid b'.inner w' ∧
      (result = .ok () → content b'.inner w' = Buffered.contentOf content wr.sink w) := by
  obtain ⟨result, b', w', hrun, hvalid', hok⟩ := wr.sink.flush_records h hvalid
  refine ⟨result.mapError .io, b', w', by simp [Writer.close, hterminated, hrun], hvalid',
    fun hresult => ?_⟩
  cases result with
  | error e => exact absurd hresult (by simp [Except.mapError])
  | ok _ => exact (hok rfl).2

end BankTrace
