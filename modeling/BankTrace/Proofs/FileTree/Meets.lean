import BankTrace.Proofs.FileTree.Places

/-!
# What a way meets

A way stands in directories and looks at the entries of names. Another entry than these has no say
in where it leads: a tree that differs nowhere else, but for the numbers of its files, leads the way
to the same end or the same error.
-/

namespace BankTrace

def Entry.renumber (f : Nat → Nat) : Entry → Entry
  | file number content => file (f number) content
  | entry => entry

namespace FileTree

/-- The way of names from a directory stands at a location, or looks at it. -/
inductive Meets (t : FileTree) (l : Location) : Location → List Name → Prop where
  | stands {names} : Meets t l l names
  | looks {here name rest} (h : name :: here = l) : Meets t l here (name :: rest)
  | dot {here rest} (h : Meets t l here rest) : Meets t l here (Path.dot :: rest)
  | back {here rest} (h : Meets t l here.tail rest) : Meets t l here (Path.dotDot :: rest)
  | directory {here name rest} (he : t.entry? (name :: here) = some .directory)
      (h : Meets t l (name :: here) rest) : Meets t l here (name :: rest)
  | link {here name rest target} (he : t.entry? (name :: here) = some (.link target))
      (h : Meets t l (start here target) (names target ++ rest)) : Meets t l here (name :: rest)

variable {t t' : FileTree} {purpose : Purpose} {links : Nat} {closed : Bool} {here l : Location}
  {names : List Name}

theorem Leads.meets (h : Leads t purpose links closed here names l) : Meets t l here names := by
  induction h with
  | nil => exact .stands
  | dot _ ih => exact .dot ih
  | back _ ih => exact .back ih
  | directory _ _ he _ ih => exact .directory he ih
  | link _ _ he _ ih => exact .link he ih
  | last => exact .looks rfl

/-- The induction is on the links that may be followed, and for each number of them on the names. -/
theorem follow_eq_of_not_meets {f : Nat → Nat}
    (hsame : ∀ other ≠ l, t'.entry? other = (t.entry? other).map (Entry.renumber f))
    (h : ¬ Meets t l here names) :
    t'.follow purpose links closed here names = t.follow purpose links closed here names := by
  induction links using Nat.strong_induction_on generalizing closed here names with
  | _ links ihlinks =>
      induction names generalizing here with
      | nil => rw [follow_nil, follow_nil]
      | cons name rest ih =>
          rw [follow_cons, follow_cons, hsame _ fun heq => h (.looks heq)]
          by_cases hdot : name = Path.dot
          · rw [if_pos hdot, if_pos hdot, ih fun hrest => h (hdot ▸ .dot hrest)]
          rw [if_neg hdot, if_neg hdot]
          by_cases hback : name = Path.dotDot
          · rw [if_pos hback, if_pos hback, ih fun hrest => h (hback ▸ .back hrest)]
          rw [if_neg hback, if_neg hback]
          cases he : t.entry? (name :: here) with
          | none => rfl
          | some e =>
              cases e with
              | directory =>
                  simp only [Option.map_some, Entry.renumber,
                    ih fun hrest => h (.directory he hrest)]
              | link target =>
                  cases links with
                  | zero => rfl
                  | succ links =>
                      simp only [Option.map_some, Entry.renumber,
                        ihlinks links (Nat.lt_succ_self links) fun hrest => h (.link he hrest)]
              | file number content | full => rfl

theorem walk_eq_of_not_meets {f : Nat → Nat} {p : Path}
    (hsame : ∀ other ≠ l, t'.entry? other = (t.entry? other).map (Entry.renumber f))
    (h : ¬ Meets t l (start here p) names) :
    t'.walk purpose closed here p names = t.walk purpose closed here p names := by
  have hne : start here p ≠ l := fun heq => h (heq ▸ .stands)
  have hstart : t'.isDirectory (start here p) = t.isDirectory (start here p) := by
    unfold isDirectory
    rw [hsame _ hne]
    cases t.entry? (start here p) with
    | none => rfl
    | some e => cases e <;> rfl
  unfold walk
  rw [follow_eq_of_not_meets hsame h, hstart]

/-! ## What a path meets -/

/-- Whether an operation at the end of a path, links at its end being followed, depends on what is
at a location. -/
def Visits (t : FileTree) (here : Location) (p : Path) (l : Location) : Prop :=
  Meets t l (start here p) (FileTree.names p)

/-- Whether an operation on the entry that a path names depends on what is at a location. -/
def Handles (t : FileTree) (here : Location) (p : Path) (l : Location) : Prop :=
  Meets t l (start here p) (FileTree.names p).dropLast ∨ t.place? here p = some l

theorem visits_of_locate {p : Path} (h : t.locate purpose here p = .ok l) : t.Visits here p l :=
  (locate_eq_ok_iff_leads.mp h).2.2.meets

theorem locate_eq_of_not_visits {f : Nat → Nat} {p : Path}
    (hsame : ∀ other ≠ l, t'.entry? other = (t.entry? other).map (Entry.renumber f))
    (h : ¬ t.Visits here p l) : t'.locate purpose here p = t.locate purpose here p := by
  exact walk_eq_of_not_meets hsame h

end FileTree

end BankTrace
