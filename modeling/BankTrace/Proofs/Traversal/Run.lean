import BankTrace.Proofs.Traversal.Requests

/-!
# Whole traversals

What a traversal gives when it is run to its end.
-/

namespace BankTrace

namespace Traversal

/-- The traversal gives these instructions, one pull after the other, and then no more. -/
inductive Gives : Traversal → List Instruction → Prop where
  | done {t} (h : t.next? = none) : Gives t []
  | more {t rest instruction instructions} (h : t.next? = some (instruction, rest)) :
      Gives rest instructions → Gives t (instruction :: instructions)

theorem Gives.unique {t : Traversal} {xs ys : List Instruction} (hx : t.Gives xs)
    (hy : t.Gives ys) : xs = ys := by
  induction hx generalizing ys with
  | done h =>
      cases hy with
      | done _ => rfl
      | more h' _ => simp [h] at h'
  | more h _ ih =>
      cases hy with
      | done h' => simp [h] at h'
      | more h' hrest =>
          obtain ⟨rfl, rfl⟩ : _ ∧ _ := by simpa [h] using h'
          rw [ih hrest]

theorem gives_of_item? {t : Traversal} {xs : List Instruction} (h : ∀ i, t.item? i = xs[i]?) :
    t.Gives xs := by
  induction xs generalizing t with
  | nil =>
      refine .done ?_
      have hzero := h 0
      cases hnext : t.next? with
      | none => rfl
      | some step => simp [item?, behind, pull, hnext] at hzero
  | cons x xs ih =>
      have hzero := h 0
      cases hnext : t.next? with
      | none => simp [item?, behind, pull, hnext] at hzero
      | some step =>
          obtain ⟨instruction, rest⟩ := step
          obtain rfl : instruction = x := by simpa [item?, behind, pull, hnext] using hzero
          refine .more hnext (ih fun i => ?_)
          simpa [item?, behind, pull, hnext] using h (i + 1)

end Traversal

theorem Config.IsValid.gives {c : Config} (h : c.IsValid) :
    (Traversal.ofSweep c.sweep c.lineCount).Gives c.instructions :=
  Traversal.gives_of_item? (Config.item?_ofSweep_sweep h)

/-- Instructions are drained in as many rounds as there are data lines, and one more. -/
theorem Config.IsValid.exists_traversal {c : Config} (h : c.IsValid) :
    ∃ t, Traversal.ofConfig c = .ok t ∧ t.Gives c.instructions ∧
      c.instructions.length ≤ t.dataLength + 1 :=
  ⟨_, h.ofConfig, h.gives, c.length_instructions.le⟩

/-- The traversal of a configuration gives these requests, then the sentinel, and then no more. -/
def Config.Traces (c : Config) (requests : List Request) : Prop :=
  ∃ t, Traversal.ofConfig c = .ok t ∧ t.Gives (requests.map .data ++ [.eoc])

theorem Config.IsValid.traces {c : Config} (h : c.IsValid) : c.Traces c.requests :=
  ⟨_, h.ofConfig, h.gives⟩

def Instruction.encodeAll (instructions : List Instruction) : ByteArray :=
  instructions.foldr (fun instruction text => instruction.encode ++ text) .empty

@[simp] theorem Instruction.encodeAll_nil : encodeAll [] = .empty := rfl

@[simp] theorem Instruction.encodeAll_cons (x : Instruction) (xs : List Instruction) :
    encodeAll (x :: xs) = x.encode ++ encodeAll xs := rfl

theorem Instruction.encodeAll_append (xs ys : List Instruction) :
    encodeAll (xs ++ ys) = encodeAll xs ++ encodeAll ys := by
  induction xs with
  | nil => exact ByteArray.empty_append.symm
  | cons x xs ih =>
      rw [List.cons_append, encodeAll_cons, encodeAll_cons, ih, ByteArray.append_assoc]

def Config.trace (c : Config) : ByteArray := Instruction.encodeAll c.instructions

end BankTrace
