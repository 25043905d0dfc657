import BankTrace.Error

/-!
# Sinks

A sink takes bytes. It may take fewer than it is offered at a time, and it may refuse; what it has
taken it keeps.
-/

namespace BankTrace

/-- Sinks `σ` in the world `m`. -/
class Sink (m : Type → Type) (σ : Type) where
  /-- Offers bytes; the sink takes that many of the first of them, or none and says why. -/
  write : σ → ByteArray → m (Except IoError Nat × σ)
  /-- Asks the sink to pass on what it holds back. -/
  flush : σ → m (Except IoError Unit × σ)

namespace Sink

variable {m : Type → Type} [Monad m] {σ : Type} [Sink m σ]

/-- Offers bytes until the sink has taken them all or refuses, in at most `rounds` rounds. The bytes
that were not taken come back with the result. -/
@[specialize]
def offerWithin : Nat → σ → ByteArray → m (Except IoError Unit × ByteArray × σ)
  | 0, sink, bytes => pure (.ok (), bytes, sink)
  | rounds + 1, sink, bytes => do
      if bytes.size = 0 then pure (.ok (), bytes, sink)
      else
        match ← write sink bytes with
        | (.error e, sink) => pure (.error e, bytes, sink)
        | (.ok 0, sink) => pure (.error .wroteNothing, bytes, sink)
        | (.ok taken, sink) => offerWithin rounds sink (bytes.extract taken bytes.size)

/-- Offers bytes until the sink has taken them all or refuses. Each round takes a byte, so as many
rounds as bytes are enough. -/
@[inline]
def offer (sink : σ) (bytes : ByteArray) : m (Except IoError Unit × ByteArray × σ) :=
  offerWithin bytes.size sink bytes

end Sink

/-- Bytes in memory, up to a limit. -/
structure MemorySink where
  content : ByteArray := .empty
  /-- The number of bytes there is room for. -/
  limit : Option Nat := none
  /-- The number of bytes taken at a time. -/
  chunk : Option Nat := none
  /-- Whether a full sink takes nothing instead of refusing. -/
  silentWhenFull : Bool := false
  flushFails : Bool := false
  flushCount : Nat := 0

namespace MemorySink

instance : Inhabited MemorySink := ⟨{}⟩

/-- The number of bytes that are taken of `offered`. -/
def room (s : MemorySink) (offered : Nat) : Nat :=
  let room := match s.limit with
    | some limit => min offered (limit - s.content.size)
    | none => offered
  match s.chunk with
  | some chunk => min room chunk
  | none => room

/-- Takes as many bytes as there is room for. -/
def write (s : MemorySink) (bytes : ByteArray) : Except IoError Nat × MemorySink :=
  let taken := s.room bytes.size
  if taken = 0 then
    (if s.silentWhenFull then .ok 0 else .error (.other "sink full"), s)
  else
    let { content, limit, chunk, silentWhenFull, flushFails, flushCount } := s
    (.ok taken,
      ⟨content ++ bytes.extract 0 taken, limit, chunk, silentWhenFull, flushFails, flushCount⟩)

def flush (s : MemorySink) : Except IoError Unit × MemorySink :=
  (if s.flushFails then .error (.other "flush failed") else .ok (),
    { s with flushCount := s.flushCount + 1 })

instance {m : Type → Type} [Monad m] : Sink m MemorySink where
  write s bytes := pure (s.write bytes)
  flush s := pure s.flush

end MemorySink

/-- A sink that collects bytes and passes them on in greater pieces. -/
structure Buffered (σ : Type) where
  inner : σ
  /-- The bytes that the inner sink has not taken yet. -/
  pending : ByteArray := .empty

namespace Buffered

variable {m : Type → Type} [Monad m] {σ : Type} [Sink m σ]

/-- The number of bytes that are collected. -/
def capacity : Nat := 8192

/-- Passes the collected bytes on. What the inner sink refuses stays collected. -/
@[specialize]
def passOn (b : Buffered σ) : m (Except IoError Unit × Buffered σ) := do
  let (result, pending, inner) ← Sink.offer b.inner b.pending
  pure (result, { inner, pending })

/-- Collects bytes, or passes them on by themselves when there are too many to collect. -/
@[specialize]
def collect (b : Buffered σ) (bytes : ByteArray) : m (Except IoError Nat × Buffered σ) := do
  if capacity ≤ bytes.size then
    let (result, inner) ← Sink.write b.inner bytes
    pure (result, { b with inner })
  else
    let ⟨inner, pending⟩ := b
    pure (.ok bytes.size, ⟨inner, pending ++ bytes⟩)

/-- Collects bytes, after passing on those collected before if there is no room for both. -/
@[specialize]
def write (b : Buffered σ) (bytes : ByteArray) : m (Except IoError Nat × Buffered σ) := do
  if b.pending.size + bytes.size ≤ capacity then b.collect bytes
  else
    match ← b.passOn with
    | (.error e, b) => pure (.error e, b)
    | (.ok (), b) => b.collect bytes

/-- Passes the collected bytes on and flushes the inner sink. -/
@[specialize]
def flush (b : Buffered σ) : m (Except IoError Unit × Buffered σ) := do
  match ← b.passOn with
  | (.error e, b) => pure (.error e, b)
  | (.ok (), b) =>
      let (result, inner) ← Sink.flush b.inner
      pure (result, { b with inner })

instance : Sink m (Buffered σ) where
  write := write
  flush := flush

end Buffered

end BankTrace
