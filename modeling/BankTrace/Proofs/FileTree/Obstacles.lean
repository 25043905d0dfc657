import BankTrace.Proofs.FileTree.Operations
import BankTrace.Proofs.Path.Parents

/-!
# Clear ways and obstacles

On a way without links and steps back, the first location that has no directory, or a name that is
too long, decides what comes of an operation. Where there is no such location the operation does
what it is asked.
-/

namespace BankTrace.FileTree

/-! ## Locations on a way -/

def IsShort (l : Location) : Prop := ∀ name ∈ l.head?, name.length ≤ maxNameLength

/-- Whether a way goes on behind a location. -/
def Passable (t : FileTree) (l : Location) : Prop := IsShort l ∧ t.entry? l = some .directory

/-- Whether a directory is at a location or can be made there. -/
def Vacant (t : FileTree) (l : Location) : Prop :=
  IsShort l ∧ (t.entry? l = none ∨ t.entry? l = some .directory)

/-- Whether names lead through directories that are there. -/
abbrev Clear (t : FileTree) : Location → List Name → Prop := Along t.Passable

/-- Whether names lead through directories that are there or can be made. -/
abbrev Free (t : FileTree) : Location → List Name → Prop := Along t.Vacant

variable {t t' : FileTree} {here l : Location} {p : Path} {steps front rest : List Name}
  {name : Name}

theorem isShort_cons : IsShort (name :: l) ↔ name.length ≤ maxNameLength := by
  simp [IsShort]

theorem Passable.vacant (h : t.Passable l) : t.Vacant l := ⟨h.1, .inr h.2⟩

theorem Clear.free (h : t.Clear here steps) : t.Free here steps := h.imp fun _ => Passable.vacant

theorem clear_iff :
    t.Clear here steps ↔ t.Open here steps ∧ ∀ n ∈ steps, n.length ≤ maxNameLength := by
  induction steps generalizing here with
  | nil => simp [Along]
  | cons name rest ih =>
      change t.Passable (name :: here) ∧ t.Clear (name :: here) rest ↔
        (t.entry? (name :: here) = some .directory ∧ t.Open (name :: here) rest) ∧ _
      rw [ih, List.forall_mem_cons, Passable, isShort_cons]
      tauto

theorem Clear.ends (h : t.Clear here steps) (hhere : t.entry? here = some .directory) :
    t.entry? (steps.reverse ++ here) = some .directory := by
  by_cases hnil : steps = []
  · simpa [hnil] using hhere
  · have hend := h.last hnil
    exact hend.2

theorem exists_first_of_not_along {P : Location → Prop} (h : ¬ Along P here steps) :
    ∃ front name rest, steps = front ++ name :: rest ∧ Along P here front ∧
      ¬ P (name :: (front.reverse ++ here)) := by
  induction steps generalizing here with
  | nil => exact absurd trivial h
  | cons name rest ih =>
      by_cases hname : P (name :: here)
      · obtain ⟨front, next, more, rfl, hfront, hnext⟩ := ih fun hrest => h ⟨hname, hrest⟩
        exact ⟨name :: front, next, more, rfl, ⟨hname, hfront⟩, by simpa using hnext⟩
      · exact ⟨[], name, rest, rfl, trivial, hname⟩

/-! ## Following names -/

theorem follow_of_clear (links : Nat) {names : List Name} (hback : Path.dotDot ∉ names)
    (h : t.Clear here (moves names)) :
    t.follow .find links true here names = .ok ((moves names).reverse ++ here) := by
  obtain ⟨hopen, hshort⟩ := clear_iff.mp h
  have hlinks : t.NoLinks here (moves names) := hopen.imp fun l hl target => by simp [hl]
  refine (follow_eq_ok_iff (by simp) hback hlinks).mpr ⟨rfl, hshort, ?_, fun hne => ?_⟩
  · exact Along.of_prefix hopen (List.dropLast_prefix _)
  · exact .inl (hopen.last hne)

/-- An obstacle that is missing is told from one that is in the way. The induction is on the names;
those before the obstacle lead through directories. -/
theorem follow_of_obstacle (hlink : ∀ l target, t.entry? l ≠ some (.link target)) (links : Nat)
    {names : List Name} (hback : Path.dotDot ∉ names)
    (hmoves : moves names = front ++ name :: rest) (hfront : t.Clear here front)
    (hl : name :: (front.reverse ++ here) = l) (hobstacle : ¬ t.Passable l) :
    t.Vacant l ∧ t.entry? l = none ∧ (t.follow .find links true here names = .error .notFound ∨
        t.follow .find links true here names = .ok l) ∨
      ¬ t.Vacant l ∧ ∃ e, e ≠ .notFound ∧ t.follow .find links true here names = .error e := by
  induction names generalizing here front with
  | nil => simp [moves] at hmoves
  | cons first names ih =>
      obtain ⟨hfirst, hnames⟩ : first ≠ Path.dotDot ∧ Path.dotDot ∉ names := by
        simpa [eq_comm] using hback
      rw [follow_cons]
      by_cases hdot : first = Path.dot
      · rw [if_pos hdot]
        exact ih hnames (by simpa [moves, hdot] using hmoves) hfront hl
      rw [moves_cons hdot] at hmoves
      rw [if_neg hdot, if_neg hfirst, if_neg (by simp)]
      cases front with
      | nil =>
          obtain ⟨rfl, -⟩ := List.cons.inj hmoves
          obtain rfl : first :: here = l := hl
          by_cases hlong : maxNameLength < first.length
          · rw [if_pos hlong]
            exact .inr ⟨fun h => absurd (isShort_cons.mp h.1) (by omega), _, by simp, rfl⟩
          · have hshort : IsShort (first :: here) := isShort_cons.mpr (Nat.le_of_not_lt hlong)
            rw [if_neg hlong]
            cases he : t.entry? (first :: here) with
            | none =>
                refine .inl ⟨⟨hshort, .inl he⟩, rfl, ?_⟩
                by_cases hend : names = [] <;> simp [hend]
            | some e =>
                cases e with
                | directory => exact absurd ⟨hshort, he⟩ hobstacle
                | link target => exact absurd he (hlink _ target)
                | file number content | full =>
                    exact .inr ⟨fun h => by simp [Vacant, he] at h, .notDirectory, by simp,
                      by simp⟩
      | cons next front =>
          obtain ⟨rfl, htail⟩ := List.cons.inj hmoves
          obtain ⟨⟨hshort, he⟩, hfront⟩ := hfront
          rw [if_neg (Nat.not_lt.mpr (isShort_cons.mp hshort)), he]
          exact ih hnames htail hfront (by simpa using hl)

/-! ## Tidy paths -/

/-- Whether a path that has steps ends in the last of them. -/
def IsTidy (p : Path) : Prop := p.steps ≠ [] → (names p).getLast? = p.steps.getLast?

theorem isTidy_of_parent? {q : Path} (h : q.parent? = some p) : IsTidy p := by
  intro hsteps
  obtain ⟨before, step, hsegments, hstep⟩ := Path.parent?_ends h hsteps
  have hne : step ≠ [] := by
    rintro rfl
    simp [Path.isIdle] at hstep
  simp [names, Path.steps, hsegments, hstep, hne]

theorem IsTidy.moves_dropLast (h : IsTidy p) : moves (names p).dropLast = p.steps.dropLast := by
  by_cases hsteps : p.steps = []
  · rw [hsteps, List.dropLast_nil]
    refine List.eq_nil_iff_forall_not_mem.mpr fun n hn => ?_
    have hmem : n ∈ moves (names p) := by
      obtain ⟨hn, hdot⟩ := List.mem_filter.mp hn
      exact List.mem_filter.mpr ⟨List.dropLast_subset _ hn, hdot⟩
    simp [moves_names, hsteps] at hmem
  · obtain ⟨outer, name, hconcat⟩ := (List.eq_nil_or_concat' p.steps).resolve_left hsteps
    obtain ⟨around, hnames⟩ : ∃ around, names p = around ++ [name] :=
      List.getLast?_eq_some_iff.mp (by rw [h hsteps, hconcat]; simp)
    have hdot : name ≠ Path.dot := by
      rintro rfl
      have hidle : Path.isIdle Path.dot = false :=
        Path.not_isIdle_of_mem_steps (p := p) (by simp [hconcat])
      simp [Path.isIdle] at hidle
    have hmoves := moves_names p
    rw [hnames, moves_append, moves_cons hdot] at hmoves
    rw [hnames, List.dropLast_concat, ← hmoves]
    exact (List.dropLast_concat).symm

theorem IsTidy.last (h : IsTidy p) (hback : Path.dotDot ∉ p.steps) :
    ((names p).getLast?.filter fun name => name != Path.dot && name != Path.dotDot) =
      p.steps.getLast? := by
  by_cases hsteps : p.steps = []
  · rw [hsteps, List.getLast?_nil, Option.filter_eq_none_iff]
    intro n hn
    by_cases hdot : n = Path.dot
    · simp [hdot]
    · have hmem : n ∈ moves (names p) :=
        List.mem_filter.mpr ⟨List.mem_of_mem_getLast? hn, by simpa using hdot⟩
      simp [moves_names, hsteps] at hmem
  · rw [h hsteps]
    obtain ⟨n, hn⟩ : ∃ n, p.steps.getLast? = some n := ⟨_, List.getLast?_eq_some_getLast hsteps⟩
    have hmem := List.mem_of_mem_getLast? hn
    have hidle := Path.not_isIdle_of_mem_steps hmem
    have hback : n ≠ Path.dotDot := fun heq => hback (heq ▸ hmem)
    simp_all [Path.isIdle]

/-! ## The directory of a path -/

section

variable (hfault : pathFault? p = none) (hback : Path.dotDot ∉ p.steps)
  (hbegins : t.entry? (start here p) = some .directory)

include hfault hback hbegins

theorem holder_of_clear (htidy : IsTidy p) (h : t.Clear (start here p) p.steps.dropLast) :
    t.holder here p = .ok (p.steps.dropLast.reverse ++ start here p, p.steps.getLast?) := by
  have hdirectory : t.isDirectory (p.steps.dropLast.reverse ++ start here p) = true :=
    isDirectory_iff.mpr (h.ends hbegins)
  have hnames : Path.dotDot ∉ (names p).dropLast := fun hmem =>
    dotDot_not_mem_names hback (List.dropLast_subset _ hmem)
  have hfollow := follow_of_clear (t := t) maxLinkCount hnames
    (htidy.moves_dropLast.symm ▸ h)
  rw [htidy.moves_dropLast] at hfollow
  simp [holder, walk_eq_follow hfault hbegins, hfollow, hdirectory, htidy.last hback, bind,
    Except.bind]

/-- What is in the way of the directory of a path is in the way of the path. -/
theorem holder_of_obstacle (hlink : ∀ l target, t.entry? l ≠ some (.link target))
    (htidy : IsTidy p) (hsteps : p.steps.dropLast = front ++ name :: rest)
    (hfront : t.Clear (start here p) front)
    (hobstacle : ¬ t.Passable (name :: (front.reverse ++ start here p))) :
    t.Vacant (name :: (front.reverse ++ start here p)) ∧ t.holder here p = .error .notFound ∨
      ¬ t.Vacant (name :: (front.reverse ++ start here p)) ∧
        ∃ e, e ≠ .notFound ∧ t.holder here p = .error e := by
  have hnames : Path.dotDot ∉ (names p).dropLast := fun hmem =>
    dotDot_not_mem_names hback (List.dropLast_subset _ hmem)
  have hwalk := walk_eq_follow hfault hbegins .find true (names p).dropLast
  rcases follow_of_obstacle hlink maxLinkCount hnames
    (htidy.moves_dropLast.trans hsteps) hfront rfl hobstacle with
    ⟨hvacant, hnone, hfollow | hfollow⟩ | ⟨hblocked, e, he, hfollow⟩
  · exact .inl ⟨hvacant, by simp [holder, hwalk, hfollow, bind, Except.bind]⟩
  · have hdirectory : t.isDirectory (name :: (front.reverse ++ start here p)) = false := by
      simp [isDirectory, hnone]
    exact .inl ⟨hvacant, by simp [holder, hwalk, hfollow, hdirectory, bind, Except.bind]⟩
  · exact .inr ⟨hblocked, e, he, by simp [holder, hwalk, hfollow, bind, Except.bind]⟩

end

/-! ## Operations on a clear way -/

theorem direct_eq_cons (here : Location) {outer : List Name} (h : p.steps = outer ++ [name]) :
    direct here p = name :: (p.steps.dropLast.reverse ++ start here p) := by
  simp [direct, h]

/-- A path whose directory can be used, if there is one. -/
structure Approach (t : FileTree) (here : Location) (p : Path) : Prop where
  begins : t.entry? (start here p) = some .directory
  fault : pathFault? p = none
  back : Path.dotDot ∉ p.steps
  tidy : IsTidy p

section

variable (h : t.Approach here p)

include h

theorem Approach.find_directory_iff (hlink : ∀ l target, t.entry? l ≠ some (.link target)) :
    (∃ l, t.find here p = .ok (l, .directory)) ↔ t.Clear (start here p) p.steps := by
  have hlinks : t.LinkFree here p := Along.of_length fun l _ => hlink l
  have hlocate {l : Location} : t.locate .find here p = .ok l ↔
      pathFault? p = none ∧ t.entry? (start here p) = some .directory ∧
        t.Way p.endsInSlash (start here p) (names p) l :=
    locate_eq_ok_iff (by simp) h.back hlinks
  constructor
  · rintro ⟨l, hfind⟩
    obtain ⟨l', hl', hfind⟩ := bind_eq_ok_iff.mp hfind
    obtain ⟨-, -, hway⟩ := hlocate.mp hl'
    have hdirectory : t.entry? l' = some .directory := by
      cases he : t.entry? l' with
      | none => simp [he] at hfind
      | some e =>
          obtain ⟨-, rfl⟩ : l' = l ∧ e = .directory := by simpa [he] using hfind
          rfl
    rw [hway.eq_direct] at hdirectory
    exact clear_iff.mpr ⟨along_of_dropLast hway.passes hdirectory, moves_names p ▸ hway.short⟩
  · intro hclear
    obtain ⟨hopen, hshort⟩ := clear_iff.mp hclear
    have hdirectory : t.entry? (direct here p) = some .directory := hclear.ends h.begins
    refine ⟨direct here p,
      bind_eq_ok_iff.mpr ⟨direct here p, hlocate.mpr ⟨h.fault, h.begins, ?_⟩, ?_⟩⟩
    · refine ⟨by rw [moves_names]; rfl, by rwa [moves_names], ?_, fun _ => .inl hdirectory⟩
      rw [moves_names]
      exact hopen.of_prefix (List.dropLast_prefix _)
    · simp [hdirectory]

variable (hclear : t.Clear (start here p) p.steps.dropLast)

include hclear

theorem Approach.holder_eq :
    t.holder here p = .ok (p.steps.dropLast.reverse ++ start here p, p.steps.getLast?) :=
  holder_of_clear h.fault h.back h.begins h.tidy hclear

theorem Approach.child_eq (hsteps : p.steps ≠ []) (hshort : IsShort (direct here p)) :
    ∃ directory name, t.holder here p = .ok (directory, some name) ∧
      childLocation directory name = .ok (direct here p) := by
  obtain ⟨outer, name, hconcat⟩ := (List.eq_nil_or_concat' p.steps).resolve_left hsteps
  rw [direct_eq_cons here hconcat] at hshort ⊢
  refine ⟨_, name, ?_, childLocation_eq_ok_iff.mpr ⟨isShort_cons.mp hshort, rfl⟩⟩
  rw [h.holder_eq hclear]
  simp [hconcat]

theorem Approach.makeDirectory_eq (hsteps : p.steps ≠ []) (hshort : IsShort (direct here p))
    (hnone : t.entry? (direct here p) = none) :
    t.makeDirectory here p = .ok (t.insert (direct here p) .directory) := by
  obtain ⟨directory, name, hholder, hchild⟩ := h.child_eq hclear hsteps hshort
  simp [makeDirectory, hholder, hchild, hnone, bind, Except.bind]

/-- Where something is already, or nothing can be, no directory is made. -/
theorem Approach.makeDirectory_error (htaken : p.steps = [] ∨
      ¬ (IsShort (direct here p) ∧ t.entry? (direct here p) = none)) :
    ∃ e, e ≠ .notFound ∧ t.makeDirectory here p = .error e := by
  rcases List.eq_nil_or_concat' p.steps with hnil | ⟨outer, name, hsteps⟩
  · exact ⟨.fileExists, by simp, by
      simp [makeDirectory, h.holder_eq hclear, hnil, bind, Except.bind]⟩
  · replace htaken := htaken.resolve_left (by simp [hsteps])
    rw [direct_eq_cons here hsteps, isShort_cons] at htaken
    have hlast : p.steps.getLast? = some name := by simp [hsteps]
    simp only [makeDirectory, h.holder_eq hclear, hlast, childLocation, bind, Except.bind]
    by_cases hlong : maxNameLength < name.length
    · exact ⟨.nameTooLong, by simp, by simp [hlong]⟩
    · have he : t.entry? (name :: (p.steps.dropLast.reverse ++ start here p)) ≠ none :=
        fun hnone => htaken ⟨Nat.le_of_not_lt hlong, hnone⟩
      obtain ⟨e, he⟩ := Option.ne_none_iff_exists'.mp he
      exact ⟨.fileExists, by simp, by simp [hlong, he]⟩

theorem Approach.locate_eq (hsteps : p.steps ≠ []) (hshort : IsShort (direct here p))
    (hslash : p.endsInSlash = false) (hlink : ∀ l target, t.entry? l ≠ some (.link target))
    (purpose : Purpose) : t.locate purpose here p = .ok (direct here p) := by
  obtain ⟨outer, name, hconcat⟩ := (List.eq_nil_or_concat' p.steps).resolve_left hsteps
  have hlinks : t.LinkFree here p := Along.of_length fun l _ => hlink l
  obtain ⟨hopen, hshorts⟩ := clear_iff.mp hclear
  rw [direct_eq_cons here hconcat, isShort_cons] at hshort
  refine (locate_eq_ok_iff (fun _ => hslash) h.back hlinks).mpr
    ⟨h.fault, h.begins, ?_, ?_, ?_, fun _ => ?_⟩
  · rw [moves_names]
    rfl
  · rw [hconcat, List.dropLast_concat] at hshorts
    rw [moves_names, hconcat]
    exact List.forall_mem_append.mpr ⟨hshorts, by simpa using hshort⟩
  · rwa [moves_names]
  · refine .inr ⟨?_, by simp [hslash]⟩
    have hidle : Path.isIdle name = false :=
      Path.not_isIdle_of_mem_steps (p := p) (by simp [hconcat])
    rw [h.tidy hsteps, hconcat, List.getLast?_concat]
    rintro heq
    simp [Path.isIdle, Option.some.inj heq] at hidle

theorem Approach.remove_eq (hsteps : p.steps ≠ []) (hshort : IsShort (direct here p))
    (hslash : p.endsInSlash = false) {number : Nat} {content : ByteArray}
    (he : t.entry? (direct here p) = some (.file number content)) :
    t.remove here p = .ok (t.erase (direct here p)) := by
  obtain ⟨directory, name, hholder, hchild⟩ := h.child_eq hclear hsteps hshort
  simp [remove, hholder, hchild, he, hslash, bind, Except.bind]

end

/-- Between two clear ways a file is moved, in place of another file or of nothing. -/
theorem Approach.rename_eq {source target : Path} {number : Nat} {content : ByteArray}
    (h : t.Approach here source) (h' : t.Approach here target)
    (hclear : t.Clear (start here source) source.steps.dropLast)
    (hclear' : t.Clear (start here target) target.steps.dropLast)
    (hsteps : source.steps ≠ []) (hsteps' : target.steps ≠ [])
    (hshort : IsShort (direct here source)) (hshort' : IsShort (direct here target))
    (hslash : source.endsInSlash = false) (hslash' : target.endsInSlash = false)
    (he : t.entry? (direct here source) = some (.file number content))
    (hne : direct here source ≠ direct here target)
    (halso : t.isAlso (direct here target) (.file number content) = false)
    (hdirectory : t.entry? (direct here target) ≠ some .directory) :
    t.rename here source target =
      .ok ((t.erase (direct here source)).insert (direct here target) (.file number content)) := by
  obtain ⟨directory, name, hholder, hchild⟩ := h.child_eq hclear hsteps hshort
  obtain ⟨directory', name', hholder', hchild'⟩ := h'.child_eq hclear' hsteps' hshort'
  have hnot : t.isDirectory (direct here target) = false :=
    Bool.eq_false_iff.mpr (mt isDirectory_iff.mp hdirectory)
  simp [rename, hholder, hholder', hchild, hchild', he, hslash, hslash', halso, hnot, hne, bind,
    Except.bind]

end BankTrace.FileTree
