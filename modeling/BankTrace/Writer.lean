import BankTrace.Sink

/-!
# Trace writers

A writer puts the lines of one trace into a sink. It refuses anything behind the sentinel, and it
refuses to close before it.
-/

namespace BankTrace

structure Writer (σ : Type) where
  sink : σ
  /-- The number of data lines written. -/
  dataLines : Nat := 0
  /-- Whether the sentinel has been written. -/
  terminated : Bool := false

namespace Writer

variable {m : Type → Type} [Monad m] {σ : Type} [Sink m σ]

/-- Writes the line of an instruction. It counts only when the sink has taken all of it. -/
@[specialize]
def write (w : Writer σ) (instruction : Instruction) : m (Except Error Unit × Writer σ) := do
  if w.terminated then pure (.error (.write .writeAfterEoc), w)
  else
    let ⟨sink, dataLines, terminated⟩ := w
    match ← Sink.offer sink instruction.encode with
    | (.error e, _, sink) => pure (.error (.io e), ⟨sink, dataLines, terminated⟩)
    | (.ok (), _, sink) =>
        match instruction with
        | .data _ => pure (.ok (), ⟨sink, dataLines + 1, terminated⟩)
        | .eoc => pure (.ok (), ⟨sink, dataLines, true⟩)

/-- Writes the sentinel. -/
@[specialize]
def writeEoc (w : Writer σ) : m (Except Error Unit × Writer σ) := w.write .eoc

/-- Writes instructions up to the first that fails. -/
@[specialize]
def writeAll (w : Writer σ) : List Instruction → m (Except Error Unit × Writer σ)
  | [] => pure (.ok (), w)
  | instruction :: rest => do
      match ← w.write instruction with
      | (.error e, w) => pure (.error e, w)
      | (.ok (), w) => w.writeAll rest

/-- Flushes the sink and hands it back. -/
@[specialize]
def close (w : Writer σ) : m (Except Error Unit × σ) := do
  if w.terminated then
    let (result, sink) ← Sink.flush w.sink
    pure (result.mapError .io, sink)
  else pure (.error (.write .missingEoc), w.sink)

end Writer

end BankTrace
