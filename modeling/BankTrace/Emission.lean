import BankTrace.Traversal
import BankTrace.Writer

/-!
# Emission

The whole trace of a configuration, written into a sink.
-/

namespace BankTrace

/-- What came of a trace. -/
structure Summary where
  /-- The number of data lines, the sentinel left out. -/
  dataLines : Nat
  /-- The file the trace is in, if it is in one. -/
  path : Option Path
deriving DecidableEq, Repr

namespace Emission

variable {m : Type → Type} [Monad m] {σ : Type} [Sink m σ]

/-- Writes up to `count` further instructions of a traversal. -/
@[specialize]
def drain : Nat → Traversal → Writer σ → m (Except Error Unit × Writer σ)
  | 0, _, w => pure (.ok (), w)
  | count + 1, t, w =>
      match t.next? with
      | none => pure (.ok (), w)
      | some (instruction, rest) => do
          match ← w.write instruction with
          | (.error e, w) => pure (.error e, w)
          | (.ok (), w) => drain count rest w

/-- Writes a traversal to its end: its requests and the sentinel. -/
@[inline]
def drainAll (t : Traversal) (w : Writer σ) : m (Except Error Unit × Writer σ) :=
  drain (t.dataLength + 1) t w

/-- Writes the trace of a configuration and closes the writer. -/
def emit (c : Config) (sink : σ) : m (Except Error Summary × σ) := do
  match Traversal.ofConfig c with
  | .error e => pure (.error e, sink)
  | .ok t =>
      match ← drainAll t ({ sink } : Writer σ) with
      | (.error e, w) => pure (.error e, w.sink)
      | (.ok (), w) =>
          let (result, sink) ← w.close
          pure (result.map fun _ => ⟨w.dataLines, none⟩, sink)

/-- What is reported when the trace of a configuration is written. -/
def announcement (c : Config) : List Event :=
  match Traversal.ofConfig c with
  | .error _ => []
  | .ok t => Traversal.announcement c ++ [.emitting t.dataLength]

end Emission

end BankTrace
