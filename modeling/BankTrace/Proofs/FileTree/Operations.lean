import BankTrace.Proofs.FileTree.Created
import BankTrace.Proofs.FileTree.Places

/-!
# Operations at places

What an operation has done that succeeded: it has touched the place of its path, in a directory
that was there. Without links and steps back that is the location the path leads to.
-/

namespace BankTrace.FileTree

variable {t t' : FileTree} {here : Location} {p : Path}

theorem childLocation_eq_ok_iff {directory l : Location} {name : Name} :
    childLocation directory name = .ok l ↔
      name.length ≤ maxNameLength ∧ l = name :: directory := by
  unfold childLocation
  split
  next h => exact iff_of_false (by simp) fun h' => absurd h'.1 (by omega)
  next h => simp [Nat.le_of_not_lt h, eq_comm]

theorem makeDirectory_at (h : t.makeDirectory here p = .ok t') :
    ∃ left directory name, t.Stands here p left directory name ∧ name.length ≤ maxNameLength ∧
      t.entry? (name :: directory) = none ∧ t' = t.insert (name :: directory) .directory := by
  obtain ⟨⟨directory, name?⟩, hholder, h⟩ := bind_eq_ok_iff.mp h
  cases name? with
  | none => simp at h
  | some name =>
      obtain ⟨left, hstands⟩ := holder_eq_ok_iff.mp hholder
      obtain ⟨l, hl, h⟩ := bind_eq_ok_iff.mp h
      obtain ⟨hshort, rfl⟩ := childLocation_eq_ok_iff.mp hl
      split at h
      next => simp at h
      next hnone => exact ⟨left, directory, name, hstands, hshort, hnone, (Except.ok.inj h).symm⟩

theorem remove_at (h : t.remove here p = .ok t') :
    ∃ left directory name, t.Stands here p left directory name ∧ name.length ≤ maxNameLength ∧
      t.entry? (name :: directory) ≠ some .directory ∧ t' = t.erase (name :: directory) := by
  obtain ⟨⟨directory, name?⟩, hholder, h⟩ := bind_eq_ok_iff.mp h
  cases name? with
  | none => simp at h
  | some name =>
      obtain ⟨left, hstands⟩ := holder_eq_ok_iff.mp hholder
      obtain ⟨l, hl, h⟩ := bind_eq_ok_iff.mp h
      obtain ⟨hshort, rfl⟩ := childLocation_eq_ok_iff.mp hl
      split at h
      next => simp at h
      next => simp at h
      next e hdirectory he =>
        split_ifs at h
        refine ⟨left, directory, name, hstands, hshort, ?_, (Except.ok.inj h).symm⟩
        rw [he]
        rintro ⟨⟩
        exact hdirectory rfl

structure MovedTo (t : FileTree) (source target : Location) (t' : FileTree) : Prop where
  around : t.entry? target.tail = some .directory
  moved : ∃ e, t.entry? source = some e ∧ e ≠ .directory ∧
    (t' = t ∧ (source = target ∨ t.isAlso target e = true) ∨
      t.entry? target ≠ some .directory ∧ t' = (t.erase source).insert target e)

/-- A file whose number is not at its new place has left the old one. -/
theorem MovedTo.eq_of_file {source target : Location} {number : Nat} {content : ByteArray}
    (h : t.MovedTo source target t') (hfile : t.entry? source = some (.file number content))
    (hne : source ≠ target) (hapart : ∀ e, t.entry? target = some e → e.number? ≠ some number) :
    t.entry? target ≠ some .directory ∧
      t' = (t.erase source).insert target (.file number content) := by
  obtain ⟨e, he, -, hmoved⟩ := h.moved
  obtain rfl : e = .file number content := Option.some.inj (he.symm.trans hfile)
  rcases hmoved with ⟨-, heq | halso⟩ | hmoved
  · exact absurd heq hne
  · obtain ⟨other, hother, hnumber⟩ := isAlso_file_iff.mp halso
    exact absurd hnumber (hapart other hother)
  · exact hmoved

theorem rename_at {source target : Path} (h : t.rename here source target = .ok t') :
    ∃ leftS directoryS nameS leftT directoryT nameT,
      t.Stands here source leftS directoryS nameS ∧ t.Stands here target leftT directoryT nameT ∧
        nameT.length ≤ maxNameLength ∧ target.endsInSlash = false ∧
          t.MovedTo (nameS :: directoryS) (nameT :: directoryT) t' := by
  obtain ⟨⟨directoryS, nameS?⟩, hsource, h⟩ := bind_eq_ok_iff.mp h
  obtain ⟨⟨directoryT, nameT?⟩, htarget, h⟩ := bind_eq_ok_iff.mp h
  cases nameS? with
  | none => simp at h
  | some nameS =>
      cases nameT? with
      | none => simp at h
      | some nameT =>
          obtain ⟨leftS, hS⟩ := holder_eq_ok_iff.mp hsource
          obtain ⟨leftT, hT⟩ := holder_eq_ok_iff.mp htarget
          obtain ⟨l, hl, h⟩ := bind_eq_ok_iff.mp h
          obtain ⟨-, rfl⟩ := childLocation_eq_ok_iff.mp hl
          split at h
          next => simp at h
          next => simp at h
          next e hdirectory he =>
            obtain ⟨l, hl, h⟩ := bind_eq_ok_iff.mp h
            obtain ⟨hshort, rfl⟩ := childLocation_eq_ok_iff.mp hl
            by_cases hslash : (source.endsInSlash || target.endsInSlash) = true
            · rw [if_pos hslash] at h
              exact absurd h (by simp [bind, Except.bind])
            rw [if_neg hslash] at h
            refine ⟨leftS, directoryS, nameS, leftT, directoryT, nameT, hS, hT, hshort,
              by simp_all, hT.isDirectory, e, he, ?_, ?_⟩
            · rintro rfl
              exact hdirectory rfl
            · split_ifs at h with hsame halso hdirectory
              · exact .inl ⟨(Except.ok.inj h).symm, .inl hsame⟩
              · exact .inl ⟨(Except.ok.inj h).symm, .inr halso⟩
              · exact .inr ⟨mt isDirectory_iff.mpr hdirectory, (Except.ok.inj h).symm⟩

/-! ## Operations that do what they are asked -/

section

variable {left left' : Nat} {directory directory' : Location} {name name' : Name} {number : Nat}
  {content : ByteArray}

theorem Stands.holder_eq (h : t.Stands here p left directory name) :
    t.holder here p = .ok (directory, some name) :=
  holder_eq_ok_iff.mpr ⟨left, h⟩

theorem Stands.remove_eq (h : t.Stands here p left directory name)
    (hshort : name.length ≤ maxNameLength) (hslash : p.endsInSlash = false)
    (he : t.entry? (name :: directory) = some (.file number content)) :
    t.remove here p = .ok (t.erase (name :: directory)) := by
  have hchild : childLocation directory name = .ok (name :: directory) :=
    childLocation_eq_ok_iff.mpr ⟨hshort, rfl⟩
  simp [remove, h.holder_eq, hchild, he, hslash, bind, Except.bind]

theorem Stands.rename_eq {source target : Path} (h : t.Stands here source left directory name)
    (h' : t.Stands here target left' directory' name') (hshort : name.length ≤ maxNameLength)
    (hshort' : name'.length ≤ maxNameLength) (hslash : source.endsInSlash = false)
    (hslash' : target.endsInSlash = false)
    (he : t.entry? (name :: directory) = some (.file number content))
    (hnone : t.entry? (name' :: directory') = none) :
    t.rename here source target =
      .ok ((t.erase (name :: directory)).insert (name' :: directory') (.file number content)) := by
  have hchild : childLocation directory name = .ok (name :: directory) :=
    childLocation_eq_ok_iff.mpr ⟨hshort, rfl⟩
  have hchild' : childLocation directory' name' = .ok (name' :: directory') :=
    childLocation_eq_ok_iff.mpr ⟨hshort', rfl⟩
  have hne : name :: directory ≠ name' :: directory' := fun heq => by simp [heq, hnone] at he
  have hempty : t.isDirectory (name' :: directory') = false := by
    rw [Bool.eq_false_iff, Ne, isDirectory_iff, hnone]
    simp
  simp [rename, h.holder_eq, h'.holder_eq, hchild, hchild', he, hslash, hslash', hne, isAlso, hnone,
    hempty, bind, Except.bind]

end

/-! ## Without links and steps back -/

/-- Steps that are neither back nor to links reach the location they make up. -/
theorem Reaches.direct {links left : Nat} {l : Location} {steps : List Name}
    (h : Reaches t links here steps left l) (hback : Path.dotDot ∉ steps)
    (hlinks : t.NoLinks here steps) :
    l = steps.reverse ++ here ∧ t.Open here steps ∧ ∀ n ∈ steps, n.length ≤ maxNameLength := by
  induction h with
  | nil => exact ⟨rfl, trivial, by simp⟩
  | back => simp at hback
  | directory hname he _ ih =>
      obtain ⟨rfl, hopen, hshort⟩ := ih (fun hmem => hback (List.mem_cons_of_mem _ hmem)) hlinks.2
      exact ⟨by simp, ⟨he, hopen⟩, List.forall_mem_cons.mpr ⟨hname.short, hshort⟩⟩
  | link _ he => exact absurd he (hlinks.1 _)

/-- The place of a path is where its names lead. -/
structure StandsDirect (t : FileTree) (here : Location) (p : Path) (directory : Location)
    (name : Name) : Prop where
  fault : pathFault? p = none
  last : (names p).getLast? = some name
  steps_eq : p.steps = p.steps.dropLast ++ [name]
  direct_eq : direct here p = name :: directory
  short : ∀ n ∈ p.steps.dropLast, n.length ≤ maxNameLength
  passed : t.Open (start here p) p.steps.dropLast

theorem Stands.direct {left : Nat} {directory : Location} {name : Name}
    (h : t.Stands here p left directory name) (hback : Path.dotDot ∉ p.steps)
    (hlinks : t.NoLinks (start here p) p.steps.dropLast) :
    t.StandsDirect here p directory name := by
  have hsteps := h.steps_eq
  have houter : moves (names p).dropLast = p.steps.dropLast := by rw [hsteps, List.dropLast_concat]
  have hreaches := h.reaches
  rw [houter] at hsteps hreaches
  obtain ⟨hdirectory, hpassed, hshort⟩ :=
    hreaches.direct (fun hmem => hback (List.dropLast_subset _ hmem)) hlinks
  refine ⟨h.fault, h.last, hsteps, ?_, hshort, hpassed⟩
  rw [FileTree.direct, hsteps, hdirectory]
  simp

theorem makeDirectory_eq_ok (hback : Path.dotDot ∉ p.steps)
    (hlinks : t.NoLinks (start here p) p.steps.dropLast) (h : t.makeDirectory here p = .ok t') :
    t.entry? (direct here p) = none ∧ t.entry? (direct here p).tail = some .directory ∧
      p.steps ≠ [] ∧ t' = t.insert (direct here p) .directory := by
  obtain ⟨left, directory, name, hstands, -, hnone, rfl⟩ := makeDirectory_at h
  have hdirect := hstands.direct hback hlinks
  rw [hdirect.direct_eq]
  exact ⟨hnone, hstands.isDirectory, by rw [hdirect.steps_eq]; simp, rfl⟩

theorem remove_eq_ok (hback : Path.dotDot ∉ p.steps)
    (hlinks : t.NoLinks (start here p) p.steps.dropLast) (h : t.remove here p = .ok t') :
    direct here p ≠ [] ∧ t.entry? (direct here p) ≠ some .directory ∧
      t' = t.erase (direct here p) := by
  obtain ⟨left, directory, name, hstands, -, hdirectory, rfl⟩ := remove_at h
  rw [(hstands.direct hback hlinks).direct_eq]
  exact ⟨List.cons_ne_nil _ _, hdirectory, rfl⟩

theorem create_eq_ok (hback : Path.dotDot ∉ p.steps) (hlinks : t.LinkFree here p)
    (hslash : p.endsInSlash = false) {file : OpenFile} (h : t.create here p = .ok (file, t')) :
    pathFault? p = none ∧ (∀ n ∈ p.steps, n.length ≤ maxNameLength) ∧
      t.Open (start here p) p.steps.dropLast ∧ t.Created (direct here p) file t' := by
  obtain ⟨l, hl, hcreated⟩ := create_eq_ok_iff.mp h
  obtain ⟨hfault, -, hway⟩ := (locate_eq_ok_iff (fun _ => hslash) hback hlinks).mp hl
  obtain rfl := hway.eq_direct
  exact ⟨hfault, moves_names p ▸ hway.short, hway.passes, hcreated⟩

structure Renamed (t : FileTree) (here : Location) (source target : Path) (t' : FileTree) :
    Prop where
  fault : pathFault? target = none
  last : ∃ name, (names target).getLast? = some name ∧
    target.steps = target.steps.dropLast ++ [name]
  short : ∀ n ∈ target.steps, n.length ≤ maxNameLength
  passed : t.Open (start here target) target.steps.dropLast
  slash : target.endsInSlash = false
  moved : t.MovedTo (direct here source) (direct here target) t'

theorem rename_eq_ok {source target : Path} (hbackS : Path.dotDot ∉ source.steps)
    (hlinksS : t.NoLinks (start here source) source.steps.dropLast)
    (hbackT : Path.dotDot ∉ target.steps)
    (hlinksT : t.NoLinks (start here target) target.steps.dropLast)
    (h : t.rename here source target = .ok t') : t.Renamed here source target t' := by
  obtain ⟨leftS, directoryS, nameS, leftT, directoryT, nameT, hstandsS, hstandsT, hshort, hslash,
    hmoved⟩ := rename_at h
  have hS := hstandsS.direct hbackS hlinksS
  have hT := hstandsT.direct hbackT hlinksT
  refine ⟨hT.fault, ⟨nameT, hT.last, hT.steps_eq⟩, ?_, hT.passed, hslash, ?_⟩
  · rw [hT.steps_eq]
    intro n hn
    rcases List.mem_append.mp hn with hn | hn
    · exact hT.short n hn
    · exact List.mem_singleton.mp hn ▸ hshort
  · rwa [hS.direct_eq, hT.direct_eq]

/-- The other path leads to a file that was moved onto it, if its way is still open. -/
theorem Renamed.held? {source target : Path} (h : t.Renamed here source target t')
    (hback : Path.dotDot ∉ target.steps)
    (hopen : t'.Open (start here target) target.steps.dropLast) {number : Nat} {content : ByteArray}
    (he : t'.entry? (direct here target) = some (.file number content)) :
    t'.held? here target = some (.file number content) := by
  obtain ⟨last, hlast, hsteps⟩ := h.last
  exact held?_of_open h.fault hback hsteps hlast h.slash h.short hopen he

end BankTrace.FileTree
