import BankTrace.Proofs.Traversal.Run

/-!
# The outer loops

The outer two loops repeat a pass for each row and each visit, in either order. What is chosen from
the requests, read off them or counted among them is so pass by pass.
-/

namespace BankTrace.Config

variable (c : Config) {α β : Type}

/-- The outer two loops around what is given for a row. -/
def loops (given : Nat → List α) : List α :=
  match c.loopOrder with
  | .rowColumnBank =>
      (List.range c.rowCount.toNat).flatMap fun row =>
        (List.range c.visitCount).flatMap fun _ => given row
  | .burstGroup =>
      (List.range c.visitCount).flatMap fun _ => (List.range c.rowCount.toNat).flatMap given

theorem requests_eq_loops : c.requests = c.loops c.pass := rfl

theorem filter_loops (p : α → Bool) (given : Nat → List α) :
    (c.loops given).filter p = c.loops fun row => (given row).filter p := by
  cases horder : c.loopOrder <;> simp [loops, horder, List.filter_flatMap]

theorem map_loops (f : α → β) (given : Nat → List α) :
    (c.loops given).map f = c.loops fun row => (given row).map f := by
  cases horder : c.loopOrder <;> simp [loops, horder, List.map_flatMap]

theorem loops_congr {given given' : Nat → List α}
    (h : ∀ row < c.rowCount.toNat, given row = given' row) : c.loops given = c.loops given' := by
  have hrows {α' : Type} {f f' : Nat → List α'} (h : ∀ row < c.rowCount.toNat, f row = f' row) :
      (List.range c.rowCount.toNat).flatMap f = (List.range c.rowCount.toNat).flatMap f' :=
    List.flatMap_congr fun row hrow => h row (List.mem_range.mp hrow)
  cases horder : c.loopOrder with
  | rowColumnBank =>
      simp only [loops, horder]
      exact hrows fun row hrow => by rw [h row hrow]
  | burstGroup => simp only [loops, horder, hrows h]

theorem loops_nil : c.loops (fun _ => ([] : List α)) = [] := by
  cases horder : c.loopOrder <;> simp [loops, horder]

/-- Whatever the order of the loops, each visit gives everything once. -/
theorem count_loops [DecidableEq α] (given : Nat → List α) (a : α) :
    (c.loops given).count a =
      c.visitCount * ((List.range c.rowCount.toNat).flatMap given).count a := by
  cases horder : c.loopOrder with
  | rowColumnBank =>
      simp [loops, horder, List.count_flatMap, Function.comp_def, List.sum_map_mul_left]
  | burstGroup =>
      simp [loops, horder, List.count_flatMap, Function.comp_def]

end BankTrace.Config
