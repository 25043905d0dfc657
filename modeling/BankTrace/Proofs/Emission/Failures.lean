import BankTrace.Proofs.Emission.Limited

/-!
# With what an emission fails

An emission of a valid configuration has no failures of its own: each is one of the sink. How the
sink fails is up to it, and one that never fails lets every emission succeed.
-/

namespace BankTrace

open World (run)

variable {m : Type → Type} [Monad m] {W : Type} [World m W] {σ : Type} [Sink m σ]
  {Valid : σ → W → Prop} {Reason : IoError → Prop}

/-! ## Reasons of a sink -/

variable (m) in
/-- Sinks that fail only for reasons of a kind. They stay valid whatever happens. -/
structure Sink.FailsFor (Valid : σ → W → Prop) (Reason : IoError → Prop) : Prop where
  write {s w} (bytes : ByteArray) : bytes.size ≠ 0 → Valid s w → ∃ result s' w',
    run (Sink.write (m := m) s bytes) w = ((result, s'), w') ∧ Valid s' w' ∧
      ∀ e, refusal? result = some e → Reason e
  flush {s w} : Valid s w → ∃ result s' w',
    run (Sink.flush (m := m) s) w = ((result, s'), w') ∧ Valid s' w' ∧
      ∀ e, result = .error e → Reason e

/-- Nothing need be known of a sink that may fail for any reason. -/
theorem Sink.failsFor_any : Sink.FailsFor m (fun (_ : σ) (_ : W) => True) fun _ => True where
  write _ _ _ := ⟨_, _, _, rfl, trivial, fun _ _ => trivial⟩
  flush _ := ⟨_, _, _, rfl, trivial, fun _ _ => trivial⟩

theorem MemorySink.failsFor_never (m : Type → Type) [Monad m] {W : Type} [World m W] :
    Sink.FailsFor m (fun (s : MemorySink) (_ : W) =>
      s.limit = none ∧ s.chunk = none ∧ s.flushFails = false) fun _ => False where
  write {s w} bytes hsize hvalid := by
    obtain ⟨hlimit, hchunk, -⟩ := id hvalid
    obtain ⟨size, hsucc⟩ := Nat.exists_eq_succ_of_ne_zero hsize
    have hroom : s.room bytes.size = size + 1 := by simp [MemorySink.room, hlimit, hchunk, hsucc]
    refine ⟨.ok (size + 1), { s with content := s.content ++ bytes.extract 0 (size + 1) }, w, ?_,
      hvalid, by simp [Sink.refusal?]⟩
    simp [Sink.write, MemorySink.write, hroom]
  flush {s w} hvalid := by
    refine ⟨.ok (), { s with flushCount := s.flushCount + 1 }, w, ?_, hvalid, by simp⟩
    simp [Sink.flush, MemorySink.flush, hvalid.2.2]

theorem Sink.FailsFor.offerWithin (h : Sink.FailsFor m Valid Reason) (rounds : Nat) {s : σ} {w : W}
    (bytes : ByteArray) (hvalid : Valid s w) :
    ∃ result left s' w',
      run (Sink.offerWithin (m := m) rounds s bytes) w = ((result, left, s'), w') ∧ Valid s' w' ∧
        ∀ e, result = .error e → Reason e := by
  induction rounds generalizing s w bytes with
  | zero => exact ⟨.ok (), bytes, s, w, World.run_pure _ _, hvalid, by simp⟩
  | succ rounds ih =>
      by_cases hsize : bytes.size = 0
      · obtain rfl := ByteArray.size_eq_zero_iff.mp hsize
        exact ⟨.ok (), .empty, s, w, World.run_offerWithin_empty _ s w, hvalid, by simp⟩
      obtain ⟨result, s', w', hwrite, hvalid', hreason⟩ := h.write bytes hsize hvalid
      cases hrefused : Sink.refusal? result with
      | some e =>
          refine ⟨.error e, bytes, s', w',
            World.run_offerWithin_refusal rounds hsize hwrite hrefused, hvalid', ?_⟩
          rintro _ ⟨⟩
          exact hreason e hrefused
      | none =>
          obtain ⟨count, rfl⟩ : ∃ count, result = .ok (count + 1) := by
            rcases result with e | _ | count <;> simp [Sink.refusal?] at hrefused ⊢
          obtain ⟨result, left, s'', w'', hrun, hend⟩ :=
            ih (bytes.extract (count + 1) bytes.size) hvalid'
          exact ⟨result, left, s'', w'',
            (World.run_offerWithin_taken rounds hsize hwrite).trans hrun, hend⟩

theorem Sink.FailsFor.offer (h : Sink.FailsFor m Valid Reason) {s : σ} {w : W} (bytes : ByteArray)
    (hvalid : Valid s w) :
    ∃ result left s' w',
      run (Sink.offer (m := m) s bytes) w = ((result, left, s'), w') ∧ Valid s' w' ∧
        ∀ e, result = .error e → Reason e :=
  h.offerWithin bytes.size bytes hvalid

/-! ## Collecting bytes -/

namespace Buffered

theorem passOn_fails (h : Sink.FailsFor m Valid Reason) (b : Buffered σ) {w : W}
    (hvalid : Valid b.inner w) :
    ∃ result b' w', run (b.passOn (m := m)) w = ((result, b'), w') ∧ Valid b'.inner w' ∧
      ∀ e, result = .error e → Reason e := by
  obtain ⟨result, left, s', w', hrun, hend⟩ := h.offer b.pending hvalid
  exact ⟨result, ⟨s', left⟩, w', by simp [passOn, hrun], hend⟩

theorem collect_fails (h : Sink.FailsFor m Valid Reason) (b : Buffered σ) (bytes : ByteArray)
    (hsize : bytes.size ≠ 0) {w : W} (hvalid : Valid b.inner w) :
    ∃ result b' w', run (b.collect (m := m) bytes) w = ((result, b'), w') ∧ Valid b'.inner w' ∧
      ∀ e, Sink.refusal? result = some e → Reason e := by
  by_cases hlarge : capacity ≤ bytes.size
  · obtain ⟨result, s', w', hrun, hend⟩ := h.write bytes hsize hvalid
    exact ⟨result, { b with inner := s' }, w', by simp [collect, hlarge, hrun], hend⟩
  · obtain ⟨size, hsucc⟩ := Nat.exists_eq_succ_of_ne_zero hsize
    refine ⟨.ok bytes.size, ⟨b.inner, b.pending ++ bytes⟩, w, by simp [collect, hlarge], hvalid, ?_⟩
    simp [hsucc, Sink.refusal?]

theorem failsFor (h : Sink.FailsFor m Valid Reason) :
    Sink.FailsFor m (fun (b : Buffered σ) w => Valid b.inner w) Reason where
  write {b w} bytes hsize hvalid := by
    by_cases hfits : b.pending.size + bytes.size ≤ capacity
    · obtain ⟨result, b', w', hrun, hend⟩ := b.collect_fails h bytes hsize hvalid
      exact ⟨result, b', w', by simp [Sink.write, write, hfits, hrun], hend⟩
    · obtain ⟨result, b', w', hrun, hvalid', hreason⟩ := b.passOn_fails h hvalid
      cases result with
      | error e =>
          refine ⟨.error e, b', w', by simp [Sink.write, write, hfits, hrun], hvalid', ?_⟩
          rintro _ ⟨⟩
          exact hreason e rfl
      | ok _ =>
          obtain ⟨result, b'', w'', hrun', hend⟩ := b'.collect_fails h bytes hsize hvalid'
          exact ⟨result, b'', w'', by simp [Sink.write, write, hfits, hrun, hrun'], hend⟩
  flush {b w} hvalid := by
    obtain ⟨result, b', w', hrun, hvalid', hreason⟩ := b.passOn_fails h hvalid
    cases result with
    | error e =>
        exact ⟨.error e, b', w', by simp [Sink.flush, flush, hrun], hvalid', hreason⟩
    | ok _ =>
        obtain ⟨result, s', w'', hrun', hend⟩ := h.flush hvalid'
        exact ⟨result, { b' with inner := s' }, w'', by simp [Sink.flush, flush, hrun, hrun'], hend⟩

end Buffered

/-! ## One line -/

/-- A line is written and noted, or nothing is noted and the failure is one of the sink. -/
theorem Writer.write_fails (h : Sink.FailsFor m Valid Reason) (wr : Writer σ)
    (instruction : Instruction) {w : W} (hvalid : Valid wr.sink w) (hopen : wr.terminated = false) :
    ∃ result wr' w',
      run (wr.write (m := m) instruction) w = ((result, wr'), w') ∧ Valid wr'.sink w' ∧
        (result = .ok () →
          wr'.dataLines = wr.dataLines + (if instruction.isEoc then 0 else 1) ∧
          wr'.terminated = instruction.isEoc) ∧
        ∀ e, result = .error e → wr'.dataLines = wr.dataLines ∧ ∃ cause, e = .io cause ∧
          Reason cause := by
  obtain ⟨sink, dataLines, terminated⟩ := wr
  obtain rfl : terminated = false := hopen
  obtain ⟨result, left, s', w', hrun, hvalid', hreason⟩ := h.offer instruction.encode hvalid
  cases result with
  | error e =>
      refine ⟨.error (.io e), ⟨s', dataLines, false⟩, w', by simp [Writer.write, hrun], hvalid',
        by simp, ?_⟩
      rintro _ ⟨⟩
      exact ⟨rfl, e, rfl, hreason e rfl⟩
  | ok _ =>
      refine ⟨.ok (), ⟨s', dataLines + (if instruction.isEoc then 0 else 1), instruction.isEoc⟩, w',
        ?_, hvalid', fun _ => ⟨rfl, rfl⟩, by simp⟩
      cases instruction <;> simp [Writer.write, hrun, Instruction.isEoc]

/-! ## A traversal -/

/-- All lines are written and noted, or the failure is one of the sink. -/
theorem Emission.drain_fails (h : Sink.FailsFor m Valid Reason) {t : Traversal}
    {instructions : List Instruction} (hgives : t.Gives instructions) {count total : Nat}
    (hcount : instructions.length ≤ count) (wr : Writer σ) {w : W} (hvalid : Valid wr.sink w)
    (hawaits : wr.Awaits total instructions) :
    ∃ result wr' w',
      run (Emission.drain (m := m) count t wr) w = ((result, wr'), w') ∧ Valid wr'.sink w' ∧
        (result = .ok () → wr'.dataLines = total ∧ wr'.terminated = true) ∧
        ∀ e, result = .error e → ∃ cause, e = .io cause ∧ Reason cause := by
  have hdrain := Emission.drain_induction (m := m)
    (P := fun left wr w => Valid wr.sink w ∧ wr.Awaits total left)
    (Q := fun e wr w => Valid wr.sink w ∧ ∃ cause, e = .io cause ∧ Reason cause)
    ?_ hgives hcount ⟨hvalid, hawaits⟩
  · obtain ⟨result, wr', w', hrun, hok, herror⟩ := hdrain
    cases result with
    | error e =>
        obtain ⟨hvalid', hreason⟩ := herror e rfl
        exact ⟨.error e, wr', w', hrun, hvalid', by simp, fun _ he => Except.error.inj he ▸ hreason⟩
    | ok _ =>
        obtain ⟨hvalid', hdone⟩ := hok rfl
        exact ⟨.ok (), wr', w', hrun, hvalid', fun _ => hdone.done, by simp⟩
  · rintro instruction left wr w ⟨hvalid, hawaits⟩
    obtain ⟨result, wr', w', hrun, hvalid', hnote, hreason⟩ :=
      wr.write_fails h instruction hvalid hawaits.terminated_eq_false
    refine ⟨result, wr', w', hrun, fun hresult => ?_, fun e hresult => ⟨hvalid', ?_⟩⟩
    · obtain ⟨hlines, hterminated⟩ := hnote hresult
      exact ⟨hvalid', hawaits.next hlines hterminated⟩
    · exact (hreason e hresult).2

/-- At no time more data lines are counted than there are in the end, whatever the sink does. -/
theorem Emission.dataLines_drain_le {t : Traversal} {instructions : List Instruction}
    (hgives : t.Gives instructions) (count : Nat) (wr : Writer σ) {total : Nat}
    (hawaits : wr.Awaits total instructions) (w : W) :
    (run (Emission.drain (m := m) count t wr) w).1.2.dataLines ≤ total := by
  induction hgives generalizing count wr w with
  | done hnext =>
      have hlines := hawaits.dataLines_le
      cases count <;> simpa [Emission.drain, hnext] using hlines
  | @more t rest instruction instructions hnext _ ih =>
      cases count with
      | zero =>
          rw [Emission.drain, World.run_pure]
          exact hawaits.dataLines_le
      | succ count =>
          obtain ⟨result, wr', w', hrun, -, hnote, hsame⟩ :=
            wr.write_fails (Sink.failsFor_any (m := m)) instruction (w := w) trivial
              hawaits.terminated_eq_false
          cases result with
          | error e =>
              have hlines := (hsame e rfl).1.trans_le hawaits.dataLines_le
              simpa [Emission.drain, hnext, hrun] using hlines
          | ok _ =>
              obtain ⟨hlines, hterminated⟩ := hnote rfl
              have hrest := ih count wr' (hawaits.next hlines hterminated) w'
              simpa [Emission.drain, hnext, hrun] using hrest

/-! ## A whole emission -/

theorem Writer.close_fails (h : Sink.FailsFor m Valid Reason) (wr : Writer σ) {w : W}
    (hvalid : Valid wr.sink w) (hterminated : wr.terminated = true) :
    ∃ result s' w', run (wr.close (m := m)) w = ((result, s'), w') ∧ Valid s' w' ∧
      ∀ e, result = .error e → ∃ cause, e = .io cause ∧ Reason cause := by
  obtain ⟨result, s', w', hrun, hvalid', hreason⟩ := h.flush hvalid
  refine ⟨result.mapError .io, s', w', by simp [Writer.close, hterminated, hrun], hvalid', ?_⟩
  cases result with
  | error e =>
      rintro _ ⟨⟩
      exact ⟨e, rfl, hreason e rfl⟩
  | ok _ => simp [Except.mapError]

/-- An emission of a valid configuration succeeds with the number of its data lines, or the failure
is one of the sink. -/
theorem Emission.emit_fails (h : Sink.FailsFor m Valid Reason) {c : Config} (hc : c.IsValid) {s : σ}
    {w : W} (hvalid : Valid s w) :
    ∃ result s' w', run (Emission.emit (m := m) c s) w = ((result, s'), w') ∧ Valid s' w' ∧
      (∀ summary, result = .ok summary → summary = ⟨c.lineCount, none⟩) ∧
      ∀ e, result = .error e → ∃ cause, e = .io cause ∧ Reason cause := by
  obtain ⟨result, wr, w', hrun, hvalid', hnote, hreason⟩ :=
    Emission.drain_fails h hc.gives c.length_instructions.le ({ sink := s } : Writer σ) hvalid
      (Writer.awaits_requests s c.requests)
  cases result with
  | error e =>
      exact ⟨.error e, wr.sink, w', Emission.run_emit_of_error hc.ofConfig hrun, hvalid', by simp,
        fun _ he => hreason _ (Except.error.inj he ▸ rfl)⟩
  | ok _ =>
      obtain ⟨hlines, hterminated⟩ := hnote rfl
      obtain ⟨result, s', w'', hclose, hvalid'', hreason'⟩ := wr.close_fails h hvalid' hterminated
      refine ⟨_, s', w'', Emission.run_emit_of_ok hc.ofConfig hrun hclose, hvalid'', ?_, ?_⟩
      · cases result with
        | error e => simp [Except.map]
        | ok _ =>
            rintro _ ⟨⟩
            rw [hlines, Config.length_requests]
      · cases result with
        | error e =>
            rintro _ ⟨⟩
            exact hreason' e rfl
        | ok _ => simp [Except.map]

end BankTrace
