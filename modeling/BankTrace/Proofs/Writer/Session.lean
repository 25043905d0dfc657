import BankTrace.Proofs.Sink.Exact
import BankTrace.Proofs.Traversal.Run
import BankTrace.Writer

/-!
# Sessions

A session is a number of calls on one writer over an exact sink, any of which may fail. Its log says
what came of each call. What the writer knows and what its sink holds can be read off the log.
-/

namespace BankTrace.Writer

open World (run)

/-! ## Calls and what comes of them -/

inductive Call where
  | write (instruction : Instruction)
  | writeEoc

def Call.instruction : Call → Instruction
  | write instruction => instruction
  | writeEoc => .eoc

/-- A call, what it returned, and the bytes the sink holds behind those it held before. -/
structure CallRecord where
  call : Call
  result : Except Error Unit
  added : ByteArray

namespace CallRecord

def succeeded (r : CallRecord) : Bool :=
  match r.result with
  | .ok () => true
  | .error _ => false

def isDataLine (r : CallRecord) : Bool := r.succeeded && !r.call.instruction.isEoc

def isSentinel (r : CallRecord) : Bool := r.succeeded && r.call.instruction.isEoc

/-- A call that succeeds adds its line, one that fails at the sink a part of it that is not all,
and one that is refused nothing. -/
def Accounted (r : CallRecord) : Prop :=
  match r.result with
  | .ok () => r.added = r.call.instruction.encode
  | .error (.io _) =>
      ∃ count < r.call.instruction.encode.size, r.added = r.call.instruction.encode.extract 0 count
  | .error e => e = .write .writeAfterEoc ∧ r.added = .empty

end CallRecord

def written (log : List CallRecord) : List Instruction :=
  (log.filter (·.succeeded)).map (·.call.instruction)

def added (log : List CallRecord) : ByteArray := log.foldr (·.added ++ ·) .empty

theorem written_append (log later : List CallRecord) :
    written (log ++ later) = written log ++ written later := by
  rw [written, List.filter_append, List.map_append]
  rfl

@[simp] theorem added_singleton (r : CallRecord) : added [r] = r.added := ByteArray.append_empty

theorem added_append (log later : List CallRecord) :
    added (log ++ later) = added log ++ added later := by
  induction log with
  | nil => exact ByteArray.empty_append.symm
  | cons r log ih =>
      change r.added ++ added (log ++ later) = r.added ++ added log ++ added later
      rw [ih, ByteArray.append_assoc]

/-! ## One call -/

variable {m : Type → Type} [Monad m] {W : Type} [World m W] {σ : Type} [Sink m σ]
  {Valid : σ → W → Prop} {content : σ → W → ByteArray}
  {flushes : σ → W → List (Except IoError Unit)}

def Call.perform (wr : Writer σ) : Call → m (Except Error Unit × Writer σ)
  | write instruction => wr.write instruction
  | writeEoc => wr.writeEoc

theorem Call.perform_eq (wr : Writer σ) (call : Call) :
    call.perform (m := m) wr = wr.write call.instruction := by
  cases call <;> rfl

/-- All that a call can do to what the writer knows, that is to the number of its data lines and to
whether the sentinel was written. -/
inductive CallStep (lines : Nat) : Bool → CallRecord → Nat → Bool → Prop where
  | whole (call : Call) : CallStep lines false ⟨call, .ok (), call.instruction.encode⟩
      (lines + if call.instruction.isEoc then 0 else 1) call.instruction.isEoc
  | torn (call : Call) (e : IoError) {count : Nat} (hpart : count < call.instruction.encode.size) :
      CallStep lines false
        ⟨call, .error (.io e), call.instruction.encode.extract 0 count⟩ lines false
  | refused (call : Call) :
      CallStep lines true ⟨call, .error (.write .writeAfterEoc), .empty⟩ lines true

section

variable {lines lines' : Nat} {terminated terminated' : Bool} {r : CallRecord}

theorem CallStep.accounted (h : CallStep lines terminated r lines' terminated') : r.Accounted := by
  cases h with
  | whole call => rfl
  | torn call e hpart => exact ⟨_, hpart, rfl⟩
  | refused call => exact ⟨rfl, rfl⟩

theorem CallStep.lines_eq (h : CallStep lines terminated r lines' terminated') :
    lines' = lines + if r.isDataLine then 1 else 0 := by
  cases h with
  | whole call =>
      cases hline : call.instruction.isEoc <;>
        simp [CallRecord.isDataLine, CallRecord.succeeded, hline]
  | torn call e hpart => rfl
  | refused call => rfl

theorem CallStep.terminated_eq (h : CallStep lines terminated r lines' terminated') :
    terminated' = (terminated || r.isSentinel) := by
  cases h with
  | whole call => rfl
  | torn call e hpart => rfl
  | refused call => rfl

end

theorem run_perform_of_terminated (wr : Writer σ) (hterminated : wr.terminated = true) (call : Call)
    (w : W) :
    run (call.perform (m := m) wr) w = ((.error (.write .writeAfterEoc), wr), w) := by
  rw [Call.perform_eq, Writer.write, if_pos hterminated, World.run_pure]

theorem run_perform (h : Sink.Exact m Valid content flushes) (wr : Writer σ) (call : Call) {w : W}
    (hvalid : Valid wr.sink w) :
    ∃ r wr' w', run (call.perform (m := m) wr) w = ((r.result, wr'), w') ∧ r.call = call ∧
      Valid wr'.sink w' ∧ content wr'.sink w' = content wr.sink w ++ r.added ∧
      flushes wr'.sink w' = flushes wr.sink w ∧
      CallStep wr.dataLines wr.terminated r wr'.dataLines wr'.terminated := by
  by_cases hterminated : wr.terminated = true
  · refine ⟨⟨call, .error (.write .writeAfterEoc), .empty⟩, wr, w,
      wr.run_perform_of_terminated hterminated call w, rfl, hvalid, by simp, rfl, ?_⟩
    rw [hterminated]
    exact .refused call
  obtain ⟨sink, dataLines, terminated⟩ := wr
  obtain rfl : terminated = false := by simpa using hterminated
  obtain ⟨count, result, left, s', w', hrun, hvalid', hle, hcontent, hflushes, hok⟩ :=
    h.offer call.instruction.encode hvalid
  cases result with
  | error e =>
      have hpart : count < call.instruction.encode.size :=
        Nat.lt_of_le_of_ne hle fun hall => by simpa using hok.mpr hall
      refine ⟨⟨call, .error (.io e), call.instruction.encode.extract 0 count⟩,
        ⟨s', dataLines, false⟩, w', ?_, rfl, hvalid', hcontent, hflushes, .torn call e hpart⟩
      rw [Call.perform_eq]
      simp [Writer.write, hrun]
  | ok _ =>
      obtain rfl := hok.mp rfl
      rw [ByteArray.extract_zero_size] at hcontent
      refine ⟨⟨call, .ok (), call.instruction.encode⟩,
        ⟨s', dataLines + (if call.instruction.isEoc then 0 else 1), call.instruction.isEoc⟩, w', ?_,
        rfl, hvalid', hcontent, hflushes, .whole call⟩
      rw [Call.perform_eq]
      cases hline : call.instruction <;> rw [hline] at hrun <;>
        simp [Writer.write, hrun, Instruction.isEoc]

/-! ## Many calls -/

variable (m Valid content flushes) in
/-- Calls on a new writer over a sink, and the log of them. Between two calls the sink may change
in anything but in what it holds and in how it was flushed. -/
inductive Session (s₀ : σ) (w₀ : W) : List CallRecord → Writer σ → W → Prop where
  | opened : Session s₀ w₀ [] { sink := s₀ } w₀
  | called {log : List CallRecord} {wr wr' : Writer σ} {w w' : W} {result : Except Error Unit}
      (hsession : Session s₀ w₀ log wr w) (call : Call)
      (hrun : run (call.perform (m := m) wr) w = ((result, wr'), w')) :
      Session s₀ w₀ (log ++ [⟨call, result, (content wr'.sink w').extract
        (content wr.sink w).size (content wr'.sink w').size⟩]) wr' w'
  | changed {log : List CallRecord} {wr : Writer σ} {w : W} (s' : σ) (w' : W)
      (hsession : Session s₀ w₀ log wr w) (hvalid : Valid s' w')
      (hcontent : content s' w' = content wr.sink w)
      (hflushes : flushes s' w' = flushes wr.sink w) :
      Session s₀ w₀ log { wr with sink := s' } w'

theorem Session.perform {s₀ : σ} {w₀ : W} {log : List CallRecord} {wr : Writer σ} {w : W}
    (hsession : Session m Valid content flushes s₀ w₀ log wr w) (call : Call) :
    let out := run (call.perform (m := m) wr) w
    Session m Valid content flushes s₀ w₀
      (log ++ [⟨call, out.1.1, (content out.1.2.sink out.2).extract (content wr.sink w).size
        (content out.1.2.sink out.2).size⟩]) out.1.2 out.2 :=
  hsession.called call rfl

/-- What a writer knows after the calls of a log. -/
structure Account (log : List CallRecord) (lines : Nat) (terminated : Bool) : Prop where
  lines_eq : lines = log.countP (·.isDataLine)
  terminated_iff : terminated = true ↔ ∃ r ∈ log, r.isSentinel = true
  accounted : ∀ r ∈ log, r.Accounted
  /-- The sentinel is the last line that was written, if it was. -/
  written_eq : ∃ requests : List Request, requests.length = lines ∧
    written log = requests.map .data ++ if terminated then [.eoc] else []

theorem Account.nil : Account [] 0 false := ⟨rfl, by simp, by simp, [], rfl, rfl⟩

theorem Account.step {log : List CallRecord} {lines lines' : Nat} {terminated terminated' : Bool}
    {r : CallRecord} (h : Account log lines terminated)
    (hstep : CallStep lines terminated r lines' terminated') :
    Account (log ++ [r]) lines' terminated' where
  lines_eq := by
    rw [hstep.lines_eq, h.lines_eq, List.countP_append, List.countP_singleton]
  terminated_iff := by
    rw [hstep.terminated_eq, Bool.or_eq_true, h.terminated_iff]
    simp [or_and_right, exists_or]
  accounted := by
    intro other hother
    rcases List.mem_append.mp hother with hother | hother
    · exact h.accounted other hother
    · obtain rfl := List.mem_singleton.mp hother
      exact hstep.accounted
  written_eq := by
    obtain ⟨requests, hlength, hwritten⟩ := h.written_eq
    rw [written_append, hwritten]
    cases hstep with
    | whole call =>
        cases hline : call.instruction with
        | data request => exact ⟨requests ++ [request], by simp [hlength, Instruction.isEoc],
            by simp [written, CallRecord.succeeded, hline, Instruction.isEoc]⟩
        | eoc => exact ⟨requests, by simp [hlength, Instruction.isEoc],
            by simp [written, CallRecord.succeeded, hline, Instruction.isEoc]⟩
    | torn call e hpart => exact ⟨requests, hlength, by simp [written, CallRecord.succeeded]⟩
    | refused call => exact ⟨requests, hlength, by simp [written, CallRecord.succeeded]⟩

variable {s₀ : σ} {w₀ : W} {log : List CallRecord} {wr : Writer σ} {w : W}

/-- The account is kept from call to call, and the sink holds what the calls added. -/
theorem Session.keeps_account (h : Sink.Exact m Valid content flushes) (hvalid : Valid s₀ w₀)
    (hsession : Session m Valid content flushes s₀ w₀ log wr w) :
    Account log wr.dataLines wr.terminated ∧ Valid wr.sink w ∧
      content wr.sink w = content s₀ w₀ ++ added log ∧ flushes wr.sink w = flushes s₀ w₀ := by
  induction hsession with
  | opened => exact ⟨.nil, hvalid, ByteArray.append_empty.symm, rfl⟩
  | @called log wr wr' w w' result hsession call hrun ih =>
      obtain ⟨haccount, hvalid', hcontent, hflushes⟩ := ih
      obtain ⟨r, wr'', w'', hrun', rfl, hvalid'', hcontent', hflushes', hstep⟩ :=
        run_perform h wr call hvalid'
      obtain ⟨⟨rfl, rfl⟩, rfl⟩ : (r.result = result ∧ wr'' = wr') ∧ w'' = w' := by
        simpa using hrun'.symm.trans hrun
      have hadded : (content wr''.sink w'').extract (content wr.sink w).size
          (content wr''.sink w'').size = r.added := by
        rw [hcontent', ByteArray.size_append, ByteArray.extract_append_eq_right rfl rfl]
      rw [hadded]
      refine ⟨haccount.step hstep, hvalid'', ?_, hflushes'.trans hflushes⟩
      rw [hcontent', hcontent, added_append, added_singleton, ByteArray.append_assoc]
  | changed s' w' hsession hvalid' hcontent hflushes ih =>
      obtain ⟨haccount, -, hcontent', hflushes'⟩ := ih
      exact ⟨haccount, hvalid', hcontent.trans hcontent', hflushes.trans hflushes'⟩

/-! ## The end of a session -/

theorem run_close_of_not_terminated (wr : Writer σ) (hopen : wr.terminated = false) (w : W) :
    run (wr.close (m := m)) w = ((.error (.write .missingEoc), wr.sink), w) := by
  rw [Writer.close, if_neg (by simp [hopen]), World.run_pure]

/-- A writer behind the sentinel flushes when it is closed, and does nothing else. -/
theorem run_close_of_terminated (h : Sink.Exact m Valid content flushes) (wr : Writer σ) {w : W}
    (hvalid : Valid wr.sink w) (hterminated : wr.terminated = true) :
    ∃ result s' w', run (wr.close (m := m)) w = ((result.mapError .io, s'), w') ∧
      content s' w' = content wr.sink w ∧ flushes s' w' = flushes wr.sink w ++ [result] := by
  obtain ⟨result, s', w', hrun, -, hcontent, hflushes⟩ := h.flush hvalid
  exact ⟨result, s', w', by simp [Writer.close, hterminated, hrun], hcontent, hflushes⟩

/-- After every call of a session the writer and its sink are what the log says. Behind the sentinel
every further call is refused, and only there the writer can be closed, which flushes once and
succeeds when the flush does. -/
theorem Session.account (h : Sink.Exact m Valid content flushes) (hvalid : Valid s₀ w₀)
    (hsession : Session m Valid content flushes s₀ w₀ log wr w)
    (hlength : log.length < UInt64.size) :
    Account log wr.dataLines wr.terminated ∧ wr.dataLines < UInt64.size ∧
      content wr.sink w = content s₀ w₀ ++ added log ∧ flushes wr.sink w = flushes s₀ w₀ ∧
      (wr.terminated = true → ∀ call : Call,
        run (call.perform (m := m) wr) w = ((.error (.write .writeAfterEoc), wr), w)) ∧
      (wr.terminated = false →
        run (wr.close (m := m)) w = ((.error (.write .missingEoc), wr.sink), w)) ∧
      (wr.terminated = true → ∃ result s' w',
        run (wr.close (m := m)) w = ((result.mapError .io, s'), w') ∧
          content s' w' = content wr.sink w ∧ flushes s' w' = flushes s₀ w₀ ++ [result]) := by
  obtain ⟨haccount, hvalid', hcontent, hflushes⟩ := hsession.keeps_account h hvalid
  refine ⟨haccount, ?_, hcontent, hflushes, fun hterminated call => ?_, fun hopen => ?_,
    fun hterminated => ?_⟩
  · rw [haccount.lines_eq]
    exact List.countP_le_length.trans_lt hlength
  · exact wr.run_perform_of_terminated hterminated call w
  · exact wr.run_close_of_not_terminated hopen w
  · rw [← hflushes]
    exact wr.run_close_of_terminated h hvalid' hterminated

/-- The sink is full at first, and takes the sentinel behind a part of a line when it has room
again. A further line is refused. -/
theorem Session.account_torn_line :
    let request : Request := ⟨.writeBank, 0, .all, 8, 3⟩
    let sink : MemorySink := { limit := some 5 }
    ∃ log wr w, Session Id (fun _ _ => True) (fun s _ => s.content) (fun s _ => s.flushResults)
        sink () log wr w ∧
      log.map (·.call.instruction) = [.data request, .eoc, .eoc] ∧
      log.map (·.succeeded) = [false, true, false] ∧ wr.terminated = true ∧
      log.length < UInt64.size ∧ Account log wr.dataLines wr.terminated ∧
      wr.sink.content = added log := by
  intro request sink
  have hopened : Session Id (fun _ _ => True) (fun (s : MemorySink) (_ : Unit) => s.content)
      (fun s _ => s.flushResults) sink () [] { sink } () := .opened
  have htorn := hopened.perform (.write (.data request))
  have hroom := htorn.changed { content := "AiM W".toUTF8 } () trivial (by decide +kernel)
    (by decide +kernel)
  have hended := (hroom.perform .writeEoc).perform .writeEoc
  have hlength : 3 < UInt64.size := by decide
  obtain ⟨haccount, -, hcontent, -⟩ := hended.account (MemorySink.exact Id) trivial hlength
  exact ⟨_, _, _, hended, rfl, by decide +kernel, by decide +kernel, hlength, haccount,
    hcontent.trans ByteArray.empty_append⟩

end BankTrace.Writer
