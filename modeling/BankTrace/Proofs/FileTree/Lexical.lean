import BankTrace.Proofs.FileTree.Places

/-!
# Where paths lead by their names alone

Where no entry is a link, steps back undo the steps before them, and a path leads to the location
its names make up or nowhere.
-/

namespace BankTrace.FileTree

def stepFrom (l : Location) (step : Name) : Location :=
  if step = Path.dotDot then l.tail else step :: l

/-- Where a path leads when no link is in its way. -/
def lexical (here : Location) (p : Path) : Location := p.steps.foldl stepFrom (start here p)

theorem stepFrom_dotDot (l : Location) : stepFrom l Path.dotDot = l.tail := if_pos rfl

theorem stepFrom_of_ne {step : Name} (h : step ≠ Path.dotDot) (l : Location) :
    stepFrom l step = step :: l := if_neg h

variable {t : FileTree} {here l directory : Location} {p : Path} {links left : Nat}
  {steps : List Name} {name : Name} {purpose : Purpose}

theorem Reaches.eq_foldl (hlinks : ∀ l target, t.entry? l ≠ some (.link target))
    (h : Reaches t links here steps left l) : l = steps.foldl stepFrom here := by
  induction h with
  | nil => rfl
  | back _ ih => rw [List.foldl_cons, stepFrom_dotDot, ih]
  | directory hname _ _ ih => rw [List.foldl_cons, stepFrom_of_ne hname.ne_dotDot, ih]
  | link _ he => exact absurd he (hlinks _ _)

theorem Leads.eq_foldl (hlinks : ∀ l target, t.entry? l ≠ some (.link target)) {closed : Bool}
    {names : List Name} (h : Leads t purpose links closed here names l) :
    l = (moves names).foldl stepFrom here := by
  induction h with
  | nil => rfl
  | dot _ ih => simpa [moves] using ih
  | back _ ih => rw [moves_cons (by decide), List.foldl_cons, stepFrom_dotDot, ih]
  | directory hname _ _ _ ih =>
      rw [moves_cons hname.ne_dot, List.foldl_cons, stepFrom_of_ne hname.ne_dotDot, ih]
  | link _ _ he => exact absurd he (hlinks _ _)
  | last hname =>
      rw [moves_cons hname.ne_dot, List.foldl_cons, stepFrom_of_ne hname.ne_dotDot]
      rfl

theorem locate_eq_lexical (hlinks : ∀ l target, t.entry? l ≠ some (.link target))
    (h : t.locate purpose here p = .ok l) : l = lexical here p := by
  obtain ⟨-, -, hleads⟩ := locate_eq_ok_iff_leads.mp h
  rw [lexical, ← moves_names]
  exact hleads.eq_foldl hlinks

theorem Stands.eq_lexical (hlinks : ∀ l target, t.entry? l ≠ some (.link target))
    (h : t.Stands here p left directory name) : name :: directory = lexical here p := by
  rw [lexical, h.steps_eq, List.foldl_concat, ← h.reaches.eq_foldl hlinks,
    stepFrom_of_ne h.ne_dotDot]

end BankTrace.FileTree
