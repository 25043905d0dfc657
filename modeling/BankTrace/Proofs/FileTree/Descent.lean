import BankTrace.Proofs.FileTree.Entries
import BankTrace.Proofs.Path.Steps

/-!
# Where paths lead

On a way without links and without steps back, a path leads to the names it is made of. What it
finds there depends on the entries on the way and on nothing else in the tree.
-/

namespace BankTrace.FileTree

/-! ## Ways -/

/-- Whether every location that names lead to from a directory has a property. -/
def Along (P : Location → Prop) : Location → List Name → Prop
  | _, [] => True
  | here, name :: rest => P (name :: here) ∧ Along P (name :: here) rest

theorem Along.imp {P Q : Location → Prop} {here : Location} {names : List Name}
    (h : Along P here names) (hPQ : ∀ l, P l → Q l) : Along Q here names := by
  induction names generalizing here with
  | nil => trivial
  | cons name rest ih => exact ⟨hPQ _ h.1, ih h.2⟩

theorem Along.and {P Q : Location → Prop} {here : Location} {names : List Name}
    (hP : Along P here names) (hQ : Along Q here names) :
    Along (fun l => P l ∧ Q l) here names := by
  induction names generalizing here with
  | nil => trivial
  | cons name rest ih => exact ⟨⟨hP.1, hQ.1⟩, ih hP.2 hQ.2⟩

theorem along_append {P : Location → Prop} {here : Location} {names more : List Name} :
    Along P here (names ++ more) ↔ Along P here names ∧ Along P (names.reverse ++ here) more := by
  induction names generalizing here with
  | nil => simp [Along]
  | cons name rest ih => simp [Along, ih, and_assoc]

theorem Along.of_prefix {P : Location → Prop} {here : Location} {names whole : List Name}
    (h : Along P here whole) (hpre : names <+: whole) : Along P here names := by
  obtain ⟨more, rfl⟩ := hpre
  exact (along_append.mp h).1

theorem along_concat {P : Location → Prop} {here : Location} {names : List Name} {name : Name} :
    Along P here (names ++ [name]) ↔
      Along P here names ∧ P (name :: (names.reverse ++ here)) := by
  simp [along_append, Along]

theorem Along.last {P : Location → Prop} {here : Location} {names : List Name}
    (h : Along P here names) (hne : names ≠ []) : P (names.reverse ++ here) := by
  obtain ⟨outer, name, rfl⟩ := (List.eq_nil_or_concat' names).resolve_left hne
  simpa using (along_concat.mp h).2

theorem along_of_dropLast {P : Location → Prop} {here : Location} {names : List Name}
    (h : Along P here names.dropLast) (hlast : P (names.reverse ++ here)) : Along P here names := by
  induction names using List.reverseRecOn with
  | nil => trivial
  | append_singleton names name =>
      rw [List.dropLast_concat] at h
      exact along_concat.mpr ⟨h, by simpa using hlast⟩

/-- A location on the way is shorter than the end of a longer way. -/
theorem Along.of_length {P : Location → Prop} {here : Location} {names : List Name}
    (h : ∀ l : Location, l.length ≤ names.length + here.length → P l) : Along P here names := by
  induction names generalizing here with
  | nil => trivial
  | cons name rest ih =>
      refine ⟨h _ ?_, ih fun l hl => h l ?_⟩
      · simp only [List.length_cons]
        omega
      · simp only [List.length_cons] at hl ⊢
        omega

/-- Where a path leads when no link is in its way and no step goes back. -/
def direct (here : Location) (p : Path) : Location := p.steps.reverse ++ start here p

abbrev NoLinks (t : FileTree) : Location → List Name → Prop :=
  Along fun l => ∀ target, t.entry? l ≠ some (.link target)

/-- Whether no link is in the way of a path or at its end. -/
def LinkFree (t : FileTree) (here : Location) (p : Path) : Prop :=
  t.NoLinks (start here p) p.steps

abbrev Open (t : FileTree) : Location → List Name → Prop :=
  Along fun l => t.entry? l = some .directory

/-- What is at the end of a way is reached through directories. -/
theorem open_of_entry? {t : FileTree} {here : Location} {names : List Name}
    (hend : t.entry? (names.reverse ++ here) ≠ none) : t.Open here names.dropLast := by
  induction names using List.reverseRecOn with
  | nil => trivial
  | append_singleton names name ih =>
      rw [List.reverse_append, List.reverse_singleton, List.singleton_append,
        List.cons_append] at hend
      have hdirectory : t.entry? (names.reverse ++ here) = some .directory :=
        entry?_tail hend
      rw [List.dropLast_concat]
      exact along_of_dropLast (ih (by simp [hdirectory])) hdirectory

/-! ## Following names -/

def moves (names : List Name) : List Name := names.filter fun name => name != Path.dot

theorem moves_names (p : Path) : moves (names p) = p.steps := by
  rw [moves, names, List.filter_filter, Path.steps]
  congr 1
  funext s
  rw [Path.isIdle, Bool.not_or, Bool.and_comm]
  rfl

/-- Where nothing but dots follows, a dot is last. -/
theorem getLast?_of_moves_eq_nil {names : List Name} (hne : names ≠ []) (h : moves names = []) :
    names.getLast? = some Path.dot := by
  rw [List.getLast?_eq_some_getLast hne]
  have hall := List.filter_eq_nil_iff.mp h _ (List.getLast_mem hne)
  simpa using hall

/-- A way from a directory through directories only. A name at its end need not be there unless a
dot follows it, and with a slash behind it, it is not a file. -/
structure Way (t : FileTree) (closed : Bool) (here : Location) (names : List Name)
    (l : Location) : Prop where
  eq : l = (moves names).reverse ++ here
  short : ∀ n ∈ moves names, n.length ≤ maxNameLength
  passed : t.Open here (moves names).dropLast
  ends : moves names ≠ [] → t.entry? l = some .directory ∨
    names.getLast? ≠ some Path.dot ∧ (closed = true → t.entry? l = none)

section

variable {t : FileTree} {closed : Bool} {here l : Location} {name : Name} {rest : List Name}

theorem way_nil_iff : t.Way closed here [] l ↔ l = here :=
  ⟨fun h => h.eq, fun h => ⟨h, by simp [moves], trivial, fun hne => absurd rfl hne⟩⟩

theorem way_dot_iff : t.Way closed here (Path.dot :: rest) l ↔ t.Way closed here rest l := by
  have hmoves : moves (Path.dot :: rest) = moves rest := by simp [moves]
  have hlast : moves rest ≠ [] → (Path.dot :: rest).getLast? = rest.getLast? := by
    cases rest with
    | nil => exact fun hne => absurd rfl hne
    | cons next rest => exact fun _ => List.getLast?_cons_cons
  constructor
  · intro h
    refine ⟨hmoves ▸ h.eq, hmoves ▸ h.short, hmoves ▸ h.passed, fun hne => ?_⟩
    rw [← hlast hne]
    exact h.ends (hmoves ▸ hne)
  · intro h
    refine ⟨hmoves ▸ h.eq, hmoves ▸ h.short, hmoves ▸ h.passed, fun hne => ?_⟩
    rw [hmoves] at hne
    rw [hlast hne]
    exact h.ends hne

theorem moves_cons (hdot : name ≠ Path.dot) : moves (name :: rest) = name :: moves rest := by
  simp [moves, hdot]

theorem Way.name_short (h : t.Way closed here (name :: rest) l) (hdot : name ≠ Path.dot) :
    name.length ≤ maxNameLength :=
  h.short name (by simp [moves_cons hdot])

theorem way_cons_iff_of_directory (hdot : name ≠ Path.dot) (hshort : name.length ≤ maxNameLength)
    (he : t.entry? (name :: here) = some .directory) :
    t.Way closed here (name :: rest) l ↔ t.Way closed (name :: here) rest l := by
  have hmoves : moves (name :: rest) = name :: moves rest := moves_cons hdot
  cases hm : moves rest with
  | nil =>
      rw [hm] at hmoves
      constructor
      · intro h
        have heq := h.eq
        rw [hmoves] at heq
        exact ⟨by rw [heq, hm]; rfl, by simp [hm], by rw [hm]; trivial, fun hne => absurd hm hne⟩
      · intro h
        have heq : l = name :: here := by rw [h.eq, hm]; rfl
        exact ⟨by rw [heq, hmoves]; rfl, by simpa [hmoves] using hshort, by rw [hmoves]; trivial,
          fun _ => .inl (heq ▸ he)⟩
  | cons step steps =>
      have hlast : (name :: rest).getLast? = rest.getLast? := by
        cases rest with
        | nil => simp [moves] at hm
        | cons next rest => exact List.getLast?_cons_cons
      rw [hm] at hmoves
      constructor
      · intro h
        have heq := h.eq
        have hlong := h.short
        have hpassed := h.passed
        rw [hmoves] at heq hlong hpassed
        refine ⟨by rw [heq, hm]; simp, fun n hn => hlong n ?_, ?_, fun _ => ?_⟩
        · exact List.mem_cons_of_mem _ (hm ▸ hn)
        · rw [hm]
          exact hpassed.2
        · rw [← hlast]
          exact h.ends (by simp [hmoves])
      · intro h
        have heq := h.eq
        have hlong := h.short
        have hpassed := h.passed
        rw [hm] at heq hlong hpassed
        refine ⟨by rw [heq, hmoves]; simp, ?_, ?_, fun _ => ?_⟩
        · rw [hmoves]
          exact List.forall_mem_cons.mpr ⟨hshort, hlong⟩
        · rw [hmoves]
          exact ⟨he, hpassed⟩
        · rw [hlast]
          exact h.ends (by simp [hm])

theorem way_cons_iff_of_ne_directory (hdot : name ≠ Path.dot)
    (hshort : name.length ≤ maxNameLength) (he : t.entry? (name :: here) ≠ some .directory) :
    t.Way closed here (name :: rest) l ↔
      l = name :: here ∧ rest = [] ∧ (closed = true → t.entry? (name :: here) = none) := by
  have hmoves : moves (name :: rest) = name :: moves rest := moves_cons hdot
  constructor
  · intro h
    have heq := h.eq
    have hpassed := h.passed
    have hend := h.ends (by simp [hmoves])
    rw [hmoves] at heq hpassed
    cases hm : moves rest with
    | cons step steps =>
        rw [hm] at hpassed
        exact absurd hpassed.1 he
    | nil =>
        obtain rfl : l = name :: here := by rw [heq, hm]; rfl
        obtain ⟨hlast, hclosed⟩ := hend.resolve_left he
        cases rest with
        | nil => exact ⟨rfl, rfl, hclosed⟩
        | cons next rest =>
            rw [List.getLast?_cons_cons,
              getLast?_of_moves_eq_nil (List.cons_ne_nil next rest) hm] at hlast
            exact absurd rfl hlast
  · rintro ⟨rfl, rfl, hclosed⟩
    exact ⟨by simp [moves, hdot], by simpa [moves, hdot] using hshort,
      by rw [hmoves]; trivial, fun _ => .inr ⟨by simpa using hdot, hclosed⟩⟩

end

/-- Names lead along their way. The induction is on the names; links and steps back, which would
lead elsewhere, do not occur. -/
theorem descend_eq_ok_iff {t : FileTree} {purpose : Purpose}
    {onLink : Bool → Location → List Name → Except IoError Location} {closed : Bool}
    {here : Location} {names : List Name} (hpurpose : purpose = .create → closed = false)
    (hback : Path.dotDot ∉ names)
    (hlinks : t.NoLinks here (moves names))
    {l : Location} :
    t.descend purpose onLink closed here names = .ok l ↔ t.Way closed here names l := by
  induction names generalizing here with
  | nil => rw [way_nil_iff, descend, Except.ok.injEq, eq_comm]
  | cons name rest ih =>
      obtain ⟨hname, hrest⟩ : name ≠ Path.dotDot ∧ Path.dotDot ∉ rest := by
        simpa [eq_comm] using hback
      unfold descend
      by_cases hdot : name = Path.dot
      · subst hdot
        rw [if_pos rfl, way_dot_iff]
        exact ih hrest (by simpa [moves] using hlinks)
      · rw [moves_cons hdot] at hlinks
        have hclosed : ¬ (rest = [] ∧ closed = true ∧ purpose = .create) := by
          rintro ⟨-, hclosed, hcreate⟩
          simp [hpurpose hcreate] at hclosed
        rw [if_neg hdot, if_neg hname, if_neg hclosed]
        by_cases hlong : maxNameLength < name.length
        · rw [if_pos hlong]
          exact iff_of_false (by simp) fun h => absurd (h.name_short hdot) (by omega)
        · have hshort : name.length ≤ maxNameLength := Nat.le_of_not_lt hlong
          rw [if_neg hlong]
          cases he : t.entry? (name :: here) with
          | none =>
              rw [way_cons_iff_of_ne_directory hdot hshort (by simp [he])]
              by_cases hend : rest = [] <;> simp [hend, he, eq_comm]
          | some e =>
              cases e with
              | directory =>
                  rw [way_cons_iff_of_directory hdot hshort he]
                  exact ih hrest hlinks.2
              | link target => exact absurd he (hlinks.1 target)
              | file number content =>
                  rw [way_cons_iff_of_ne_directory hdot hshort (by simp [he])]
                  by_cases hend : rest = [] <;> cases closed <;> simp [hend, he, eq_comm]
              | full =>
                  rw [way_cons_iff_of_ne_directory hdot hshort (by simp [he])]
                  by_cases hend : rest = [] <;> cases closed <;> simp [hend, he, eq_comm]

theorem follow_eq_ok_iff {t : FileTree} {purpose : Purpose} {links : Nat} {closed : Bool}
    {here : Location} {names : List Name} (hpurpose : purpose = .create → closed = false)
    (hback : Path.dotDot ∉ names)
    (hlinks : t.NoLinks here (moves names))
    {l : Location} :
    t.follow purpose links closed here names = .ok l ↔ t.Way closed here names l := by
  cases links <;> exact descend_eq_ok_iff hpurpose hback hlinks

/-! ## Following paths -/

section

variable {t : FileTree} {here : Location} {p : Path}

theorem dotDot_not_mem_names (h : Path.dotDot ∉ p.steps) : Path.dotDot ∉ names p := by
  intro hmem
  refine h (List.mem_filter.mpr ⟨List.mem_of_mem_filter hmem, ?_⟩)
  decide

theorem Way.eq_direct {closed : Bool} {l : Location}
    (h : t.Way closed (start here p) (names p) l) : l = direct here p := by
  rw [h.eq, moves_names, direct]

theorem Way.passes {closed : Bool} {l : Location}
    (h : t.Way closed (start here p) (names p) l) :
    t.Open (start here p) p.steps.dropLast := by
  rw [← moves_names]
  exact h.passed

theorem locate_eq_ok_iff {purpose : Purpose}
    (hpurpose : purpose = .create → p.endsInSlash = false) (hback : Path.dotDot ∉ p.steps)
    (hlinks : t.LinkFree here p) {l : Location} :
    t.locate purpose here p = .ok l ↔
      pathFault? p = none ∧ t.entry? (start here p) = some .directory ∧
        t.Way p.endsInSlash (start here p) (names p) l := by
  rw [locate, walk_eq_ok_iff, follow_eq_ok_iff hpurpose (dotDot_not_mem_names hback)
    (by rwa [moves_names])]

def held? (t : FileTree) (here : Location) (p : Path) : Option Entry :=
  (t.find here p).toOption.map Prod.snd

theorem held?_eq_some_iff (hsteps : p.steps ≠ []) (hback : Path.dotDot ∉ p.steps)
    (hlinks : t.LinkFree here p) {e : Entry} :
    t.held? here p = some e ↔
      pathFault? p = none ∧ t.Way p.endsInSlash (start here p) (names p) (direct here p) ∧
        t.entry? (direct here p) = some e := by
  have hlocate (l : Location) : t.locate .find here p = .ok l ↔
      pathFault? p = none ∧ t.entry? (start here p) = some .directory ∧
        t.Way p.endsInSlash (start here p) (names p) l :=
    locate_eq_ok_iff (by simp) hback hlinks
  unfold held? find
  cases hl : t.locate .find here p with
  | error cause =>
      refine iff_of_false (by simp [bind, Except.bind, Except.toOption]) fun h => ?_
      have hbegins : t.entry? (start here p) = some .directory := by
        refine entry?_start (mt List.reverse_eq_nil_iff.mp hsteps) ?_
        rw [← direct, h.2.2]
        exact Option.some_ne_none e
      have := (hlocate _).mpr ⟨h.1, hbegins, h.2.1⟩
      simp [hl] at this
  | ok l =>
      obtain ⟨hfault, -, hway⟩ := (hlocate l).mp hl
      obtain rfl := hway.eq_direct
      cases he : t.entry? (direct here p) with
      | none => simp [bind, Except.bind, Except.toOption, he]
      | some e' => simp [bind, Except.bind, Except.toOption, he, hfault, hway]

theorem held?_of_open (hfault : pathFault? p = none) (hback : Path.dotDot ∉ p.steps)
    {outer : List Name} {name : Name} (hsteps : p.steps = outer ++ [name])
    (hlast : (names p).getLast? = some name) (hslash : p.endsInSlash = false)
    (hshort : ∀ n ∈ p.steps, n.length ≤ maxNameLength) (hopen : t.Open (start here p) outer)
    {number : Nat} {content : ByteArray}
    (he : t.entry? (direct here p) = some (.file number content)) :
    t.held? here p = some (.file number content) := by
  have hlinks : t.LinkFree here p := by
    rw [LinkFree, hsteps]
    refine along_concat.mpr ⟨hopen.imp fun l hl target => by simp [hl], fun target => ?_⟩
    have hdirect : direct here p = name :: (outer.reverse ++ start here p) := by
      simp [direct, hsteps]
    simp [← hdirect, he]
  rw [held?_eq_some_iff (by simp [hsteps]) hback hlinks]
  refine ⟨hfault, ⟨?_, ?_, ?_, fun _ => .inr ⟨?_, ?_⟩⟩, he⟩
  · rw [moves_names, direct]
  · rwa [moves_names]
  · rw [moves_names, hsteps, List.dropLast_concat]
    exact hopen
  · rw [hlast]
    have hmem : name ∈ p.steps := by simp [hsteps]
    have hidle := Path.not_isIdle_of_mem_steps hmem
    rintro ⟨⟩
    simp [Path.isIdle] at hidle
  · simp [hslash]

end

end BankTrace.FileTree
