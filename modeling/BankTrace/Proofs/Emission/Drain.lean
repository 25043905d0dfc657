import BankTrace.Emission
import BankTrace.Proofs.Traversal.Run
import BankTrace.Proofs.World

/-!
# Writing a traversal line by line

What writing one line keeps, writing all lines of a traversal keeps. The writer counts its data
lines and knows whether the sentinel is behind it.
-/

namespace BankTrace

open World (run)

variable {m : Type → Type} [Monad m] {W : Type} [World m W] {σ : Type} [Sink m σ]

/-- A property of the lines that are left passes from line to line. At the first line that fails
the writing ends. -/
theorem Emission.drain_induction {P : List Instruction → Writer σ → W → Prop}
    {Q : Error → Writer σ → W → Prop}
    (hline : ∀ {instruction rest wr w}, P (instruction :: rest) wr w → ∃ result wr' w',
      run (wr.write (m := m) instruction) w = ((result, wr'), w') ∧
        (result = .ok () → P rest wr' w') ∧ ∀ e, result = .error e → Q e wr' w')
    {t : Traversal} {instructions : List Instruction} (hgives : t.Gives instructions) {count : Nat}
    (hcount : instructions.length ≤ count) {wr : Writer σ} {w : W} (h : P instructions wr w) :
    ∃ result wr' w', run (Emission.drain (m := m) count t wr) w = ((result, wr'), w') ∧
      (result = .ok () → P [] wr' w') ∧ ∀ e, result = .error e → Q e wr' w' := by
  induction hgives generalizing count wr w with
  | done hnext =>
      refine ⟨.ok (), wr, w, ?_, fun _ => h, by simp⟩
      cases count <;> simp [Emission.drain, hnext]
  | more hnext _ ih =>
      obtain ⟨count, rfl⟩ := Nat.exists_eq_succ_of_ne_zero (Nat.ne_of_gt (Nat.zero_lt_of_lt hcount))
      obtain ⟨result, wr', w', hrun, hok, herror⟩ := hline h
      cases result with
      | error e =>
          exact ⟨.error e, wr', w', by simp [Emission.drain, hnext, hrun], by simp, herror⟩
      | ok _ =>
          obtain ⟨result, wr'', w'', hrun', hend⟩ := ih (Nat.le_of_succ_le_succ hcount) (hok rfl)
          exact ⟨result, wr'', w'', by simpa [Emission.drain, hnext, hrun] using hrun', hend⟩

/-- A writer that comes to `total` data lines and to the sentinel with the lines that are left. -/
def Writer.Awaits (wr : Writer σ) (total : Nat) (left : List Instruction) : Prop :=
  (left = [] ∧ wr.dataLines = total ∧ wr.terminated = true) ∨
    ∃ requests : List Request, left = requests.map .data ++ [.eoc] ∧
      wr.dataLines + requests.length = total ∧ wr.terminated = false

theorem Writer.awaits_requests (sink : σ) (requests : List Request) :
    Writer.Awaits ({ sink } : Writer σ) requests.length (requests.map .data ++ [.eoc]) :=
  .inr ⟨requests, rfl, Nat.zero_add _, rfl⟩

theorem Writer.Awaits.terminated_eq_false {wr : Writer σ} {total : Nat} {instruction : Instruction}
    {left : List Instruction} (h : wr.Awaits total (instruction :: left)) :
    wr.terminated = false := by
  rcases h with ⟨hnil, -⟩ | ⟨-, -, -, hopen⟩
  · exact absurd hnil (List.cons_ne_nil _ _)
  · exact hopen

theorem Writer.Awaits.done {wr : Writer σ} {total : Nat} (h : wr.Awaits total []) :
    wr.dataLines = total ∧ wr.terminated = true := by
  rcases h with ⟨-, hdone⟩ | ⟨requests, hrequests, -⟩
  · exact hdone
  · exact absurd hrequests (by simp)

theorem Writer.Awaits.dataLines_le {wr : Writer σ} {total : Nat} {left : List Instruction}
    (h : wr.Awaits total left) : wr.dataLines ≤ total := by
  rcases h with ⟨-, htotal, -⟩ | ⟨requests, -, htotal, -⟩ <;> omega

theorem Writer.Awaits.next {wr wr' : Writer σ} {total : Nat} {instruction : Instruction}
    {left : List Instruction} (h : wr.Awaits total (instruction :: left))
    (hlines : wr'.dataLines = wr.dataLines + if instruction.isEoc then 0 else 1)
    (hterminated : wr'.terminated = instruction.isEoc) : wr'.Awaits total left := by
  rcases h with ⟨hnil, -⟩ | ⟨requests, hrequests, htotal, -⟩
  · exact absurd hnil (List.cons_ne_nil _ _)
  · cases requests with
    | nil =>
        obtain ⟨rfl, rfl⟩ : instruction = .eoc ∧ left = [] := by simpa using hrequests
        exact .inl ⟨rfl, by simpa [hlines, Instruction.isEoc] using htotal, hterminated⟩
    | cons request requests =>
        obtain ⟨rfl, rfl⟩ := List.cons.inj hrequests
        refine .inr ⟨requests, rfl, ?_, hterminated⟩
        rw [← htotal, hlines, List.length_cons]
        simp [Instruction.isEoc]
        omega

end BankTrace
