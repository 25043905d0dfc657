import BankTrace.Proofs.Json.Grammar

/-!
# What readers make of values

A reader either takes a value or fails on it, and which of the two, and what it takes the value
for, depends on the value alone: not on the spaces before it nor on the text behind it.
-/

namespace BankTrace.Json.Reader

variable {α β : Type} {reader : Reader α} {input middle rest : List Char}

/-! ## Readers that fail -/

def Fails (reader : Reader α) (text : List Char) : Prop :=
  ∃ e, StateT.run reader text = .error e

theorem fails_throw (e : Error) (text : List Char) : (throw e : Reader α).Fails text := ⟨e, rfl⟩

theorem Fails.bind (h : reader.Fails input) (next : α → Reader β) :
    (reader >>= next).Fails input := by
  obtain ⟨e, he⟩ := h
  exact ⟨e, by rw [StateT.run_bind, he]; rfl⟩

theorem Takes.bind_fails {next : α → Reader β} {a : α} (h : reader.Takes input a middle)
    (hnext : (next a).Fails middle) : (reader >>= next).Fails input := by
  obtain ⟨e, he⟩ := hnext
  exact ⟨e, (h.run_bind next).trans he⟩

/-- A reader after which nothing goes on fails, whatever it reads itself. -/
theorem fails_bind {next : α → Reader β} (hnext : ∀ a rest, (next a).Fails rest)
    (text : List Char) : (reader >>= next).Fails text := by
  cases h : StateT.run reader text with
  | ok result => exact Takes.bind_fails h (hnext result.1 result.2)
  | error e => exact Fails.bind ⟨e, h⟩ next

theorem fails_refuse (expected : String) (text : List Char) :
    (refuse expected : Reader α).Fails text :=
  fails_bind (fun _ => fails_throw _) text

/-! ## Outcomes -/

/-- What comes of a reader on a text: it takes something and leaves the rest, or it fails. -/
def Yields (reader : Reader α) (text : List Char) (outcome : Option α) (rest : List Char) : Prop :=
  match outcome with
  | some a => reader.Takes text a rest
  | none => reader.Fails text

theorem Takes.yields_bind {next : α → Reader β} {a : α} {outcome : Option β}
    (h : reader.Takes input a middle) (hnext : (next a).Yields middle outcome rest) :
    (reader >>= next).Yields input outcome rest := by
  cases outcome with
  | none => exact h.bind_fails hnext
  | some b => exact h.bind hnext

theorem Yields.bind {next : α → Reader β} {outcome : Option α} {result : α → Option β}
    (h : reader.Yields input outcome middle)
    (hnext : ∀ a, outcome = some a → (next a).Yields middle (result a) rest) :
    (reader >>= next).Yields input (outcome.bind result) rest := by
  cases outcome with
  | none => exact Fails.bind h next
  | some a => exact Takes.yields_bind h (hnext a rfl)

theorem Yields.map {outcome : Option α} (h : reader.Yields input outcome rest) (f : α → β) :
    (f <$> reader).Yields input (outcome.map f) rest := by
  cases outcome with
  | none =>
      obtain ⟨e, he⟩ := h
      exact ⟨e, by rw [StateT.run_map, he]; rfl⟩
  | some a => exact Takes.map h f

theorem Yields.eq_some {outcome : Option α} {a : α} {left : List Char}
    (h : reader.Yields input outcome rest) (htakes : reader.Takes input a left) :
    outcome = some a ∧ rest = left := by
  cases outcome with
  | none =>
      obtain ⟨e, he⟩ := h
      simp [Takes, he] at htakes
  | some b =>
      obtain ⟨rfl, rfl⟩ := Takes.unique h htakes
      exact ⟨rfl, rfl⟩

theorem Yields.unique {outcome outcome' : Option α} (h : reader.Yields input outcome rest)
    (h' : reader.Yields input outcome' rest) : outcome = outcome' := by
  cases outcome' with
  | some a => exact (h.eq_some h').1
  | none =>
      cases outcome with
      | none => rfl
      | some a => exact (h'.eq_some h).1.symm

/-- What a reader makes of a value, wherever the value stands. -/
def Judges (reader : Reader α) (v : List Char) (outcome : Option α) : Prop :=
  ∀ spaces, Spaces spaces → ∀ rest, Delimited rest →
    reader.Yields (spaces ++ (v ++ rest)) outcome rest

/-- Whether a reader comes to a judgement of every value. -/
def Decides (reader : Reader α) : Prop := ∀ v, IsValue v → ∃ outcome, Judges reader v outcome

theorem Judges.map {v : List Char} {outcome : Option α} (h : Judges reader v outcome) (f : α → β) :
    Judges (f <$> reader) v (outcome.map f) := fun spaces hspaces rest hrest =>
  (h spaces hspaces rest hrest).map f

theorem Decides.map (h : Decides reader) (f : α → β) : Decides (f <$> reader) := fun v hv =>
  (h v hv).imp' (Option.map f) fun _ hjudges => hjudges.map f

/-- What goes by the value alone may follow. -/
theorem Judges.bind {v : List Char} {outcome : Option α} {next : α → Reader β}
    {result : α → Option β} (h : Judges reader v outcome)
    (hnext : ∀ a, outcome = some a → ∀ text, (next a).Yields text (result a) text) :
    Judges (reader >>= next) v (outcome.bind result) := fun spaces hspaces rest hrest =>
  (h spaces hspaces rest hrest).bind fun a ha => hnext a ha rest

theorem Decides.bind (h : Decides reader) {next : α → Reader β}
    (hnext : ∀ a, ∃ outcome, ∀ text, (next a).Yields text outcome text) :
    Decides (reader >>= next) := by
  intro v hv
  obtain ⟨outcome, hjudges⟩ := h v hv
  choose result hresult using hnext
  exact ⟨outcome.bind result, hjudges.bind fun a _ => hresult a⟩

theorem Decides.judgements (h : Decides reader) :
    ∃ judge : List Char → Option α, ∀ v, IsValue v → Judges reader v (judge v) := by
  choose! judge hjudge using h
  exact ⟨judge, hjudge⟩

/-- A value that is read when it is all of a text is read so wherever it stands. -/
theorem Judges.of_run {v : List Char} {outcome : Option α} {a : α} (h : Judges reader v outcome)
    (hrun : run reader (String.ofList v) = .ok a) : Judges reader v (some a) := by
  obtain ⟨rest, htakes, -⟩ := run_eq_ok_iff.mp hrun
  have halone := h [] spaces_nil [] delimited_nil
  rw [List.append_nil, List.nil_append] at halone
  rw [String.toList_ofList] at htakes
  exact (halone.eq_some htakes).1 ▸ h

end BankTrace.Json.Reader
