import BankTrace.Proofs.FileTree.Operations
import BankTrace.Proofs.FileTree.Meets
import Mathlib.Logic.Equiv.Basic

/-!
# Trees with one file more

A tree and another one that has a further file, and the same entries elsewhere. New files get other
numbers there, so the numbers of files are the same only up to a permutation. What an operation does
that does not depend on the further file it does to both trees alike.
-/

namespace BankTrace

/-! ## Numbers of files -/

def OpenFile.renumber (f : Nat → Nat) : OpenFile → OpenFile
  | file number => file (f number)
  | full => full

namespace Entry

@[simp] theorem number?_renumber (f : Nat → Nat) (e : Entry) :
    (e.renumber f).number? = e.number?.map f := by
  cases e <;> rfl

@[simp] theorem isDirectory_renumber (f : Nat → Nat) (e : Entry) :
    (e.renumber f).isDirectory = e.isDirectory := by
  cases e <;> rfl

@[simp] theorem renumber_id : renumber id = id := by
  funext e
  cases e <;> rfl

theorem renumber_changeFile (f : Equiv.Perm Nat) (number : Nat) (change : ByteArray → ByteArray)
    (e : Entry) :
    (e.changeFile number change).renumber f = (e.renumber f).changeFile (f number) change := by
  cases e with
  | file n content =>
      by_cases h : n = number <;> simp [changeFile, renumber, h]
  | directory | link target | full => rfl

theorem renumber_congr {f g : Nat → Nat} {e : Entry} (h : ∀ n, e.number? = some n → f n = g n) :
    e.renumber f = e.renumber g := by
  cases e with
  | file n content => rw [renumber, renumber, h n rfl]
  | directory | link target | full => rfl

end Entry

/-- Two results that are the same error, or two values of which a relation holds. -/
inductive Matches {ε α β : Type} (R : α → β → Prop) : Except ε α → Except ε β → Prop where
  | error (e : ε) : Matches R (.error e) (.error e)
  | ok {a : α} {b : β} (h : R a b) : Matches R (.ok a) (.ok b)

theorem Matches.mono {ε α β : Type} {R R' : α → β → Prop} {x : Except ε α} {y : Except ε β}
    (h : Matches R x y) (himp : ∀ a b, R a b → R' a b) : Matches R' x y := by
  cases h with
  | error e => exact .error e
  | ok h => exact .ok (himp _ _ h)

theorem Matches.bind {ε α β γ δ : Type} {R : α → β → Prop} {R' : γ → δ → Prop} {x : Except ε α}
    {y : Except ε β} {f : α → Except ε γ} {g : β → Except ε δ} (h : Matches R x y)
    (hf : ∀ a b, x = .ok a → R a b → Matches R' (f a) (g b)) : Matches R' (x >>= f) (y >>= g) := by
  cases h with
  | error e => exact .error e
  | ok h => exact hf _ _ rfl h

theorem matches_eq_iff {ε α : Type} {x y : Except ε α} : Matches Eq x y ↔ x = y := by
  constructor
  · rintro (e | rfl) <;> rfl
  · rintro rfl
    cases x with
    | error e => exact .error e
    | ok a => exact .ok rfl

namespace FileTree

/-! ## A further file -/

/-- The second tree has a further file of its own at a location where the first one has nothing. The
entries elsewhere are the same, with the numbers of files permuted. -/
structure Beside (l : Location) (number : Nat) (content : ByteArray) (f : Equiv.Perm Nat)
    (t t' : FileTree) : Prop where
  missing : t.entry? l = none
  stored : t'.entry? l = some (.file number content)
  same : ∀ other ≠ l, t'.entry? other = (t.entry? other).map (Entry.renumber f)
  apart : ∀ other ≠ l, (t'.entry? other).bind Entry.number? ≠ some number

variable {t t' : FileTree} {l at' here : Location} {number n : Nat} {content : ByteArray}
  {f : Equiv.Perm Nat} {p : Path} {e : Entry}

theorem Beside.entry? (h : Beside l number content f t t') (he : t.entry? at' = some e) :
    t'.entry? at' = some (e.renumber f) := by
  rw [h.same at' fun heq => by simp [heq, h.missing] at he, he]
  rfl

theorem Beside.number_ne (h : Beside l number content f t t') (he : t.entry? at' = some e)
    (hn : e.number? = some n) : f n ≠ number := by
  intro heq
  have hne : at' ≠ l := by
    rintro rfl
    simp [h.missing] at he
  exact h.apart at' hne (by simp [h.entry? he, hn, heq])

theorem Beside.isDirectory_eq (h : Beside l number content f t t') (at' : Location) :
    t'.isDirectory at' = t.isDirectory at' := by
  unfold isDirectory
  by_cases hl : at' = l
  · rw [hl, h.missing, h.stored]
    rfl
  · rw [h.same at' hl]
    cases t.entry? at' <;> simp

theorem Beside.isAlso_eq (h : Beside l number content f t t') (hl : at' ≠ l) (e : Entry) :
    t'.isAlso at' (e.renumber f) = t.isAlso at' e := by
  unfold isAlso
  rw [h.same at' hl, Entry.number?_renumber]
  cases e.number? with
  | none => rfl
  | some n =>
      cases t.entry? at' with
      | none => rfl
      | some other => cases other <;> simp [Entry.renumber, Entry.number?]

/-! ## Changes -/

theorem Beside.ne_directory (h : Beside l number content f t t')
    (hat : t.entry? at' ≠ some .directory) : t'.entry? at' ≠ some .directory := fun he =>
  hat (isDirectory_iff.mp ((h.isDirectory_eq at').symm.trans (isDirectory_iff.mpr he)))

theorem Beside.insert (h : Beside l number content f t t') (hl : at' ≠ l)
    (hat : t.entry? at' ≠ some .directory) (htail : t.entry? at'.tail = some .directory)
    (hn : ∀ n, e.number? = some n → f n ≠ number) :
    Beside l number content f (t.insert at' e) (t'.insert at' (e.renumber f)) := by
  have hroot := ne_nil_of_ne_directory hat
  have hat' := h.ne_directory hat
  have htail' : t'.entry? at'.tail = some .directory := h.entry? htail
  constructor
  case missing => rw [entry?_insert_of_ne hat hl.symm, h.missing]
  case stored => rw [entry?_insert_of_ne hat' hl.symm, h.stored]
  case same =>
    intro other hother
    by_cases heq : other = at'
    · rw [heq, entry?_insert_self hroot htail, entry?_insert_self hroot htail']
      rfl
    · rw [entry?_insert_of_ne hat heq, entry?_insert_of_ne hat' heq, h.same other hother]
  case apart =>
    intro other hother
    by_cases heq : other = at'
    · rw [heq, entry?_insert_self hroot htail']
      cases hnumber : e.number? with
      | none => simp [hnumber]
      | some n => simpa [hnumber] using hn n hnumber
    · rw [entry?_insert_of_ne hat' heq]
      exact h.apart other hother

theorem Beside.erase (h : Beside l number content f t t') (hl : at' ≠ l)
    (hat : t.entry? at' ≠ some .directory) :
    Beside l number content f (t.erase at') (t'.erase at') := by
  have hroot := ne_nil_of_ne_directory hat
  have hat' := h.ne_directory hat
  constructor
  case missing => rw [entry?_erase_of_ne hat hl.symm, h.missing]
  case stored => rw [entry?_erase_of_ne hat' hl.symm, h.stored]
  case same =>
    intro other hother
    by_cases heq : other = at'
    · rw [heq, entry?_erase_self hroot, entry?_erase_self hroot]
      rfl
    · rw [entry?_erase_of_ne hat heq, entry?_erase_of_ne hat' heq, h.same other hother]
  case apart =>
    intro other hother
    by_cases heq : other = at'
    · simp [heq, entry?_erase_self hroot]
    · rw [entry?_erase_of_ne hat' heq]
      exact h.apart other hother

theorem Beside.changeFile (h : Beside l number content f t t') (he : t.entry? at' = some e)
    (hn : e.number? = some n) (change : ByteArray → ByteArray) :
    Beside l number content f (t.changeFile n change) (t'.changeFile (f n) change) where
  missing := by rw [entry?_changeFile, h.missing]; rfl
  stored := by
    rw [entry?_changeFile_of_number?_ne, h.stored]
    intro e' he'
    rw [h.stored] at he'
    obtain rfl := Option.some.inj he'
    simpa [Entry.number?] using (h.number_ne he hn).symm
  same other hother := by
    rw [entry?_changeFile, entry?_changeFile, h.same other hother]
    cases t.entry? other with
    | none => rfl
    | some e' => simp [Entry.renumber_changeFile]
  apart other hother := by
    have hapart := h.apart other hother
    rw [entry?_changeFile]
    cases he' : t'.entry? other with
    | none => simp
    | some e' =>
        rw [he'] at hapart
        cases e' with
        | file m content' =>
            by_cases hm : m = f n <;> simpa [Entry.changeFile, Entry.number?, hm] using hapart
        | directory | link target | full => simp [Entry.changeFile, Entry.number?]

/-- The next file of either tree may be one and the same. -/
theorem Beside.exists_fresh (h : Beside l number content f t t') :
    ∃ g : Equiv.Perm Nat, Beside l number content g t t' ∧ g t.freshNumber = t'.freshNumber := by
  refine ⟨f.trans (Equiv.swap (f t.freshNumber) t'.freshNumber),
    ⟨h.missing, h.stored, fun other hother => ?_, h.apart⟩, by simp⟩
  rw [h.same other hother]
  cases he : t.entry? other with
  | none => rfl
  | some e =>
      refine congrArg some (Entry.renumber_congr fun n hn => ?_)
      have hfresh : f n ≠ f t.freshNumber := fun heq =>
        number?_ne_freshNumber he (hn.trans (congrArg some (f.injective heq)))
      have hfresh' : f n ≠ t'.freshNumber := fun heq =>
        number?_ne_freshNumber (h.entry? he) (by simp [hn, heq])
      simp [Equiv.swap_apply_of_ne_of_ne hfresh hfresh']

theorem beside_insert (h : t.entry? l = none) (htail : t.entry? l.tail = some .directory)
    (content : ByteArray) :
    Beside l t.freshNumber content 1 t (t.insert l (.file t.freshNumber content)) where
  missing := h
  stored := entry?_insert_self (by rintro rfl; simp at h) htail _
  same other hother := by
    rw [entry?_insert_of_ne (by simp [h]) hother]
    simp
  apart other hother := by
    rw [entry?_insert_of_ne (by simp [h]) hother]
    intro heq
    obtain ⟨e, he, hn⟩ := Option.bind_eq_some_iff.mp heq
    exact number?_ne_freshNumber he hn

theorem Beside.write (h : Beside l number content f t t') (change : ByteArray → ByteArray) :
    Beside l number (change content) f t (t'.changeFile number change) where
  missing := h.missing
  stored := entry?_changeFile_self h.stored change
  same other hother := by
    rw [entry?_changeFile_of_number?_ne fun e he heq => h.apart other hother (by simp [he, heq]),
      h.same other hother]
  apart other hother := by
    rw [entry?_changeFile_of_number?_ne fun e he heq => h.apart other hother (by simp [he, heq])]
    exact h.apart other hother

/-! ## Operations -/

theorem Beside.locate_eq (h : Beside l number content f t t') {purpose : Purpose}
    (hvisits : ¬ t.Visits here p l) : t'.locate purpose here p = t.locate purpose here p :=
  locate_eq_of_not_visits h.same hvisits

theorem Beside.find (h : Beside l number content f t t') (hvisits : ¬ t.Visits here p l) :
    Matches (fun found found' => found' = (found.1, found.2.renumber f)) (t.find here p)
      (t'.find here p) := by
  unfold FileTree.find
  rw [h.locate_eq hvisits]
  cases hlocate : t.locate .find here p with
  | error e => exact .error e
  | ok at' =>
      have hl : at' ≠ l := fun heq => hvisits (heq ▸ visits_of_locate hlocate)
      simp only [bind, Except.bind, h.same at' hl]
      cases t.entry? at' with
      | none => exact .error _
      | some e => exact .ok rfl

theorem Beside.read_eq (h : Beside l number content f t t') (hvisits : ¬ t.Visits here p l) :
    t'.read here p = t.read here p := by
  have hfind := h.find hvisits
  unfold FileTree.read
  generalize t.find here p = found, t'.find here p = found' at hfind ⊢
  cases hfind with
  | error e => rfl
  | @ok found _ hfound =>
      obtain ⟨at', e⟩ := found
      subst hfound
      cases e <;> rfl

theorem Beside.holder (h : Beside l number content f t t') (hhandles : ¬ t.Handles here p l) :
    Matches Eq (t.holder here p) (t'.holder here p) := by
  have hwalk : t'.walk .find true here p (names p).dropLast =
      t.walk .find true here p (names p).dropLast :=
    walk_eq_of_not_meets h.same fun hmeets => hhandles (.inl hmeets)
  rw [matches_eq_iff]
  simp only [FileTree.holder, hwalk, h.isDirectory_eq]

/-- Where an operation on the entry of a path is carried out, the further file is not. -/
theorem ne_of_not_handles {name : Name} (hhandles : ¬ t.Handles here p l)
    (hholder : t.holder here p = .ok (at', some name)) : name :: at' ≠ l := by
  rintro rfl
  exact hhandles (.inr (by rw [place?, hholder]))

theorem Beside.makeDirectory (h : Beside l number content f t t')
    (hhandles : ¬ t.Handles here p l) :
    Matches (Beside l number content f) (t.makeDirectory here p) (t'.makeDirectory here p) := by
  refine (h.holder hhandles).bind ?_
  rintro ⟨directory, _ | name⟩ _ hholder rfl
  · exact .error _
  have hl := ne_of_not_handles hhandles hholder
  refine (matches_eq_iff.mpr rfl).bind ?_
  rintro _ _ hchild rfl
  obtain ⟨-, rfl⟩ := childLocation_eq_ok_iff.mp hchild
  rw [h.same _ hl]
  obtain ⟨left, hstands⟩ := holder_eq_ok_iff.mp hholder
  cases he : t.entry? (name :: directory) with
  | none =>
      exact .ok (h.insert hl (by simp [he]) hstands.isDirectory (by simp [Entry.number?]))
  | some e => exact .error _

theorem Beside.remove (h : Beside l number content f t t') (hhandles : ¬ t.Handles here p l) :
    Matches (Beside l number content f) (t.remove here p) (t'.remove here p) := by
  refine (h.holder hhandles).bind ?_
  rintro ⟨directory, _ | name⟩ _ hholder rfl
  · exact .error _
  have hl := ne_of_not_handles hhandles hholder
  refine (matches_eq_iff.mpr rfl).bind ?_
  rintro _ _ hchild rfl
  obtain ⟨-, rfl⟩ := childLocation_eq_ok_iff.mp hchild
  rw [h.same _ hl]
  cases he : t.entry? (name :: directory) with
  | none => exact .error _
  | some e =>
      cases e with
      | directory => exact .error _
      | file n content' | link target | full =>
          dsimp only [Option.map_some, Entry.renumber]
          split_ifs
          · exact .error _
          · exact .ok (h.erase hl (by simp [he]))

theorem Beside.move (h : Beside l number content f t t') {source target : Location}
    (hsource : source ≠ l) (htarget : target ≠ l) (he : t.entry? source = some e)
    (hdirectory : e ≠ .directory) (htail : t.entry? target.tail = some .directory)
    (htarget' : t.entry? target ≠ some .directory) :
    Beside l number content f ((t.erase source).insert target e)
      ((t'.erase source).insert target (e.renumber f)) := by
  have hat : t.entry? source ≠ some .directory := by simpa [he] using hdirectory
  refine (h.erase hsource hat).insert htarget ?_ ?_ fun _ hn => h.number_ne he hn
  · exact fun hmoved => htarget' (entry?_of_erase (ne_nil_of_ne_directory hat) hmoved).2
  · rw [entry?_erase_of_ne hat fun heq => hat (heq ▸ htail), htail]

theorem Beside.rename (h : Beside l number content f t t') {target : Path}
    (hsource : ¬ t.Handles here p l) (htarget : ¬ t.Handles here target l) :
    Matches (Beside l number content f) (t.rename here p target) (t'.rename here p target) := by
  refine (h.holder hsource).bind ?_
  rintro ⟨directory, name?⟩ _ hholder rfl
  refine (h.holder htarget).bind ?_
  rintro ⟨directory', name?'⟩ _ hholder' rfl
  cases name? with
  | none => exact .error _
  | some name =>
      cases name?' with
      | none => exact .error _
      | some name' =>
          have hl := ne_of_not_handles hsource hholder
          have hl' := ne_of_not_handles htarget hholder'
          obtain ⟨left, hstands⟩ := holder_eq_ok_iff.mp hholder'
          refine (matches_eq_iff.mpr rfl).bind ?_
          rintro _ _ hchild rfl
          obtain ⟨-, rfl⟩ := childLocation_eq_ok_iff.mp hchild
          rw [h.same _ hl]
          cases he : t.entry? (name :: directory) with
          | none => exact .error _
          | some e =>
              have halso := h.isAlso_eq hl' e
              cases e with
              | directory => exact .error _
              | file n content' | link target' | full =>
                  dsimp only [Option.map_some, Entry.renumber] at halso ⊢
                  refine (matches_eq_iff.mpr rfl).bind ?_
                  rintro _ _ hchild' rfl
                  obtain ⟨-, rfl⟩ := childLocation_eq_ok_iff.mp hchild'
                  rw [halso, h.isDirectory_eq]
                  by_cases hslash : (p.endsInSlash || target.endsInSlash) = true
                  · rw [if_pos hslash, if_pos hslash]
                    exact .error _
                  rw [if_neg hslash, if_neg hslash]
                  split_ifs with _ _ hdirectory
                  · exact .ok h
                  · exact .ok h
                  · exact .error _
                  · exact .ok (h.move hl hl' he (by simp) hstands.isDirectory
                      (mt isDirectory_iff.mpr hdirectory))

theorem Beside.create (h : Beside l number content f t t') (hvisits : ¬ t.Visits here p l) :
    Matches (fun made made' => ∃ g : Equiv.Perm Nat, made'.1 = made.1.renumber g ∧
      Beside l number content g made.2 made'.2) (t.create here p) (t'.create here p) := by
  unfold FileTree.create
  rw [h.locate_eq hvisits]
  cases hlocate : t.locate .create here p with
  | error e => exact .error e
  | ok at' =>
      have hl : at' ≠ l := fun heq => hvisits (heq ▸ visits_of_locate hlocate)
      simp only [bind, Except.bind, h.same at' hl]
      cases he : t.entry? at' with
      | none =>
          obtain ⟨g, hg, hfresh⟩ := h.exists_fresh
          have hnumber (n : Nat) (hn : (Entry.file t.freshNumber .empty).number? = some n) :
              g n ≠ number := by
            intro heq
            obtain rfl : t.freshNumber = n := Option.some.inj hn
            exact number?_ne_freshNumber h.stored (by rw [← hfresh, heq, Entry.number?])
          have hmade := hg.insert hl (by simp [he]) (tail_of_locate hlocate) hnumber
          rw [Entry.renumber, hfresh] at hmade
          exact .ok ⟨g, by rw [OpenFile.renumber, hfresh], hmade⟩
      | some e =>
          cases e with
          | directory | link target => exact .error _
          | full => exact .ok ⟨f, rfl, h⟩
          | file n content' => exact .ok ⟨f, rfl, h.changeFile he rfl _⟩

end FileTree

end BankTrace
