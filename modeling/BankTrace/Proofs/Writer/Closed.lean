import BankTrace.Proofs.Writer.Session

/-!
# Closed writers

A writer that closes has written data lines and behind them the sentinel. These lines are all that
its sink holds, unless a call that failed left a part of its line there: a part of a line is neither
taken back nor does it keep later lines from being written behind it.
-/

namespace BankTrace.Writer

open World (run)

variable {log : List CallRecord}

@[simp] theorem added_cons (o : CallRecord) (log : List CallRecord) :
    added (o :: log) = o.added ++ added log := rfl

theorem written_cons (o : CallRecord) (log : List CallRecord) :
    written (o :: log) = (if o.succeeded then [o.call.instruction] else []) ++ written log := by
  cases hsucceeded : o.succeeded <;> simp [written, hsucceeded]

theorem CallRecord.Accounted.added_eq_of_succeeded {o : CallRecord} (h : o.Accounted)
    (hsucceeded : o.succeeded = true) : o.added = o.call.instruction.encode := by
  unfold CallRecord.Accounted at h
  cases hresult : o.result with
  | ok _ => simpa [hresult] using h
  | error e => simp [CallRecord.succeeded, hresult] at hsucceeded

/-- Calls add the lines that were written, and what is left of the others. -/
theorem size_encodeAll_written_le (haccounted : ∀ o ∈ log, o.Accounted) :
    (Instruction.encodeAll (written log)).size ≤ (added log).size := by
  induction log with
  | nil => exact le_rfl
  | cons o log ih =>
      obtain ⟨hfirst, hrest⟩ := List.forall_mem_cons.mp haccounted
      rw [added_cons, ByteArray.size_append, written_cons]
      cases hsucceeded : o.succeeded with
      | true =>
          rw [hfirst.added_eq_of_succeeded hsucceeded, if_pos rfl, List.singleton_append,
            Instruction.encodeAll_cons, ByteArray.size_append]
          exact Nat.add_le_add_left (ih hrest) _
      | false =>
          rw [if_neg Bool.false_ne_true, List.nil_append]
          exact (ih hrest).trans (Nat.le_add_left _ _)

/-- The calls add the lines that were written and nothing else, if those that failed add nothing.
Otherwise they add more bytes than these lines have. -/
theorem added_eq_encodeAll_written_iff (haccounted : ∀ o ∈ log, o.Accounted) :
    added log = Instruction.encodeAll (written log) ↔
      ∀ o ∈ log, o.succeeded = false → o.added = .empty := by
  induction log with
  | nil => simp [added, written]
  | cons o log ih =>
      obtain ⟨hfirst, hrest⟩ := List.forall_mem_cons.mp haccounted
      rw [added_cons, written_cons, List.forall_mem_cons, ← ih hrest]
      cases hsucceeded : o.succeeded with
      | true =>
          rw [hfirst.added_eq_of_succeeded hsucceeded, if_pos rfl, List.singleton_append,
            Instruction.encodeAll_cons, ByteArray.append_right_inj]
          simp
      | false =>
          rw [if_neg Bool.false_ne_true, List.nil_append]
          constructor
          · intro heq
            have hle := size_encodeAll_written_le hrest
            have hsize := congrArg ByteArray.size heq
            rw [ByteArray.size_append] at hsize
            have hempty : o.added = .empty := ByteArray.size_eq_zero_iff.mp (by omega)
            rw [hempty, ByteArray.empty_append] at heq
            exact ⟨fun _ => hempty, heq⟩
          · rintro ⟨hempty, heq⟩
            rw [hempty rfl, ByteArray.empty_append, heq]

variable {m : Type → Type} [Monad m] {W : Type} [World m W] {σ : Type} [Sink m σ]
  {Valid : σ → W → Prop} {content : σ → W → ByteArray}
  {flushes : σ → W → List (Except IoError Unit)} {s₀ : σ} {w₀ : W} {wr : Writer σ} {w : W}

/-- A writer that closes has written its data lines and the sentinel behind them. Its sink holds
these lines and nothing else exactly when no call that failed left a part of its line. -/
theorem Session.close_ok (h : Sink.Exact m Valid content flushes) (hvalid : Valid s₀ w₀)
    (hempty : content s₀ w₀ = .empty) (hsession : Session m Valid content flushes s₀ w₀ log wr w)
    (hclose : (run (wr.close (m := m)) w).1.1 = .ok ()) :
    (∃ requests : List Request, requests.length = wr.dataLines ∧
      written log = requests.map .data ++ [.eoc]) ∧
    (content (run (wr.close (m := m)) w).1.2 (run (wr.close (m := m)) w).2 =
        Instruction.encodeAll (written log) ↔
      ∀ o ∈ log, o.succeeded = false → o.added = .empty) := by
  obtain ⟨haccount, hvalid', hcontent, -⟩ := hsession.keeps_account h hvalid
  have hterminated : wr.terminated = true := by
    by_contra hopen
    rw [wr.run_close_of_not_terminated (Bool.eq_false_of_not_eq_true hopen) w] at hclose
    simp at hclose
  obtain ⟨result, s', w', hrun, hcontent', -⟩ := wr.run_close_of_terminated h hvalid' hterminated
  refine ⟨?_, ?_⟩
  · simpa [hterminated] using haccount.written_eq
  · rw [hrun, hcontent', hcontent, hempty, ByteArray.empty_append]
    exact added_eq_encodeAll_written_iff haccount.accounted

/-- The sink is full at first, and takes not even a part of the first line. -/
theorem Session.close_ok_full_at_first :
    let request : Request := ⟨.writeBank, 0, .all, 8, 3⟩
    let sink : MemorySink := { limit := some 0 }
    ∃ log wr w, Session Id (fun _ _ => True) (fun s _ => s.content) (fun s _ => s.flushResults)
        sink () log wr w ∧
      log.map (·.call.instruction) = [.data request, .eoc] ∧ sink.content = .empty ∧
      (run (wr.close (m := Id)) w).1.1 = .ok () ∧
      (run (wr.close (m := Id)) w).1.2.content = Instruction.encodeAll (written log) := by
  intro request sink
  have hopened : Session Id (fun _ _ => True) (fun (s : MemorySink) (_ : Unit) => s.content)
      (fun s _ => s.flushResults) sink () [] { sink } () := .opened
  have hrefused := hopened.perform (.write (.data request))
  have hroom := hrefused.changed {} () trivial (by decide +kernel) (by decide +kernel)
  have hended := hroom.perform .writeEoc
  have hempty : sink.content = .empty := rfl
  refine ⟨_, _, _, hended, rfl, hempty, by decide +kernel, ?_⟩
  refine (hended.close_ok (MemorySink.exact Id) trivial hempty (by decide +kernel)).2.mpr ?_
  decide +kernel

/-- The sink is full behind a part of a line, and has room again when the sentinel is written. The
writer closes, and the sentinel is not on a line of its own. -/
theorem Session.close_ok_behind_torn_line :
    let request : Request := ⟨.writeBank, 0, .all, 8, 3⟩
    let sink : MemorySink := { limit := some 5 }
    ∃ log wr w, Session Id (fun _ _ => True) (fun s _ => s.content) (fun s _ => s.flushResults)
        sink () log wr w ∧
      log.map (·.call.instruction) = [.data request, .eoc] ∧ sink.content = .empty ∧
      (run (wr.close (m := Id)) w).1.1 = .ok () ∧
      (run (wr.close (m := Id)) w).1.2.content = "AiM WAiM EOC\n".toUTF8 ∧
      (run (wr.close (m := Id)) w).1.2.content ≠ Instruction.encodeAll (written log) := by
  intro request sink
  have hopened : Session Id (fun _ _ => True) (fun (s : MemorySink) (_ : Unit) => s.content)
      (fun s _ => s.flushResults) sink () [] { sink } () := .opened
  have htorn := hopened.perform (.write (.data request))
  have hroom := htorn.changed { content := "AiM W".toUTF8 } () trivial (by decide +kernel)
    (by decide +kernel)
  have hended := hroom.perform .writeEoc
  refine ⟨_, _, _, hended, rfl, rfl, ?_, ?_, ?_⟩
  · decide +kernel
  · decide +kernel
  · decide +kernel

end BankTrace.Writer
