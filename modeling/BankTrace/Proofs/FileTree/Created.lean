import BankTrace.Proofs.FileTree.Leads

/-!
# Files that were opened for writing

A path that a file was opened by leads to the file afterwards, through the same links and steps
back. Opening and writing change no directory and no link, and nothing else turns a path.
-/

namespace BankTrace.FileTree

/-- What opening a file for writing has found and left. -/
inductive Created (t : FileTree) (l : Location) : OpenFile → FileTree → Prop where
  | emptied {number : Nat} {content : ByteArray}
      (he : t.entry? l = some (.file number content)) :
      Created t l (.file number) (t.changeFile number fun _ => .empty)
  | full (he : t.entry? l = some .full) : Created t l .full t
  | made (he : t.entry? l = none) (htail : t.entry? l.tail = some .directory) :
      Created t l (.file t.freshNumber) (t.insert l (.file t.freshNumber .empty))

theorem create_eq_ok_iff {t t' : FileTree} {here : Location} {p : Path} {file : OpenFile} :
    t.create here p = .ok (file, t') ↔
      ∃ l, t.locate .create here p = .ok l ∧ t.Created l file t' := by
  unfold create
  rw [bind_eq_ok_iff]
  refine exists_congr fun l => and_congr_right fun hl => ?_
  constructor
  · intro h
    split at h
    next he =>
      obtain ⟨rfl, rfl⟩ := Prod.mk.inj (Except.ok.inj h)
      exact .emptied he
    next he =>
      obtain ⟨rfl, rfl⟩ := Prod.mk.inj (Except.ok.inj h)
      exact .full he
    next => simp at h
    next he =>
      obtain ⟨rfl, rfl⟩ := Prod.mk.inj (Except.ok.inj h)
      exact .made he (tail_of_locate hl)
  · intro h
    cases h with
    | emptied he | full he | made he => simp [he]

/-! ## What stays -/

theorem Created.alike {t t' : FileTree} {l : Location} {file : OpenFile}
    (h : t.Created l file t') : Alike t t' := by
  cases h with
  | emptied he => exact alike_changeFile t _ _
  | full he => exact Alike.refl t
  | made he htail =>
      have hroot := ne_nil_of_ne_directory (t := t) (l := l) (by simp [he])
      refine ⟨guides_insert he _, ?_⟩
      have hback {other : Location} {e : Entry}
          (h : entry? (t.insert l (.file t.freshNumber .empty)) other = some e)
          (hfile : e.number? = none) : t.entry? other = some e := by
        rwa [entry?_insert_of_ne (by simp [he])] at h
        rintro rfl
        rw [entry?_insert_self hroot htail] at h
        obtain rfl := Option.some.inj h
        simp [Entry.number?] at hfile
      exact ⟨fun h => hback h rfl, fun h => hback h rfl⟩

theorem Created.entry? {t t' : FileTree} {l : Location} {number : Nat}
    (h : t.Created l (.file number) t') : t'.entry? l = some (.file number .empty) := by
  cases h with
  | emptied he => exact entry?_changeFile_self he _
  | made he htail =>
      exact entry?_insert_self (ne_nil_of_ne_directory (t := t) (by simp [he])) htail _

/-! ## The way back to a file -/

/-- What was put into a file that was opened by a path is read by the path. -/
theorem read_of_create {t t' : FileTree} {here : Location} {p : Path} {number : Nat}
    (h : t.create here p = .ok (.file number, t')) (change : ByteArray → ByteArray) :
    (t'.changeFile number change).read here p = .ok (change .empty) := by
  obtain ⟨l, hl, hcreated⟩ := create_eq_ok_iff.mp h
  have hfile := entry?_changeFile_self hcreated.entry? change
  have halike := hcreated.alike.trans (alike_changeFile t' number change)
  have hfind : (t'.changeFile number change).locate .find here p = .ok l :=
    locate_of_guides halike.forth (by simp) (fun _ => by simp [Turns, hfile]) (by simp) hl
  simp [read, find, bind, Except.bind, hfind, hfile]

end BankTrace.FileTree
