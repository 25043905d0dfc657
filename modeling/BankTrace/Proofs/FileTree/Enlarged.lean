import BankTrace.Proofs.FileTree.Operations

/-!
# Trees with more directories

Directories that are made where nothing was take nothing away and lead no way to another place than
before.
-/

namespace BankTrace.FileTree

/-- A tree with the entries of another one and directories where nothing was. -/
def Enlarged (initial t : FileTree) : Prop :=
  ∀ l, t.entry? l = initial.entry? l ∨ initial.entry? l = none ∧ t.entry? l = some .directory

section

variable {initial t t' : FileTree} {here l : Location} {p : Path}

theorem enlarged_refl (t : FileTree) : Enlarged t t := fun _ => .inl rfl

theorem Enlarged.entry? (h : Enlarged initial t) {e : Entry} (he : initial.entry? l = some e) :
    t.entry? l = some e := by
  rcases h l with hsame | ⟨hnone, -⟩
  · rw [hsame, he]
  · simp [he] at hnone

theorem Enlarged.guides (h : Enlarged initial t) : Guides initial t :=
  ⟨h.entry?, h.entry?⟩

/-- What is new is neither a link nor a file. -/
theorem Enlarged.old (h : Enlarged initial t) {e : Entry} (he : t.entry? l = some e)
    (hdirectory : e ≠ .directory) : initial.entry? l = some e := by
  rcases h l with hsame | ⟨-, hnew⟩
  · rw [← hsame, he]
  · exact absurd (Option.some.inj (he.symm.trans hnew)) hdirectory

theorem Enlarged.linkless (h : Enlarged initial t) (hlinkless : initial.Linkless) : t.Linkless :=
  hlinkless.of_source id h.old fun _ _ heq => heq

theorem Enlarged.makeDirectory (h : Enlarged initial t) (hmake : t.makeDirectory here p = .ok t') :
    Enlarged initial t' := by
  obtain ⟨left, directory, name, hstands, -, hnone, rfl⟩ := makeDirectory_at hmake
  intro l
  by_cases heq : l = name :: directory
  · subst heq
    refine .inr ⟨?_, entry?_insert_self (List.cons_ne_nil _ _) hstands.isDirectory _⟩
    rcases h (name :: directory) with hsame | ⟨hmissing, -⟩
    · rw [← hsame, hnone]
    · exact hmissing
  · rw [entry?_insert_of_ne (by simp [hnone]) heq]
    exact h l

end

end BankTrace.FileTree
