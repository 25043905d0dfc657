import BankTrace.FileTree
import Mathlib.Tactic

/-!
# Entries of file trees

Each change of a tree is known by the entries it leaves. Removing touches one location and what is
below it, placing one location where no directory is; a change of a file touches the locations of
that file.
-/

namespace BankTrace

theorem bind_eq_ok_iff {ε α β : Type} {x : Except ε α} {f : α → Except ε β} {b : β} :
    x >>= f = .ok b ↔ ∃ a, x = .ok a ∧ f a = .ok b := by
  cases x <;> simp [bind, Except.bind]

namespace FileTree

/-! ## One location -/

@[simp] theorem entry?_root (t : FileTree) : t.entry? [] = some .directory := rfl

theorem ne_nil_of_ne_directory {t : FileTree} {l : Location} (h : t.entry? l ≠ some .directory) :
    l ≠ [] := by
  rintro rfl
  exact h rfl

theorem entry?_cons (t : FileTree) (name : Name) (l : Location) :
    t.entry? (name :: l) =
      match t.entry? l with
      | some .directory => t.entries.lookup (name :: l)
      | _ => none := rfl

theorem entry?_of_directory {t : FileTree} {l : Location} (h : t.entry? l = some .directory)
    (name : Name) : t.entry? (name :: l) = t.entries.lookup (name :: l) := by
  rw [entry?_cons, h]

theorem entry?_of_ne_directory {t : FileTree} {l : Location} (h : t.entry? l ≠ some .directory)
    (name : Name) : t.entry? (name :: l) = none := by
  rw [entry?_cons]
  split
  next he => exact absurd he h
  next => rfl

theorem entry?_tail {t : FileTree} {l : Location} (h : t.entry? l ≠ none) :
    t.entry? l.tail = some .directory := by
  cases l with
  | nil => rfl
  | cons name l =>
      by_contra hl
      exact h (entry?_of_ne_directory hl name)

theorem entry?_of_suffix {t : FileTree} {l other : Location} (h : t.entry? l ≠ some .directory)
    (hsuffix : l <:+ other) (hne : other ≠ l) : t.entry? other = none := by
  induction other with
  | nil => exact absurd (List.suffix_nil.mp hsuffix).symm hne
  | cons name other ih =>
      rcases List.suffix_cons_iff.mp hsuffix with heq | hsuffix
      · exact absurd heq.symm hne
      · refine entry?_of_ne_directory (fun hdirectory => ?_) name
        by_cases heq : other = l
        · exact h (heq ▸ hdirectory)
        · simp [ih hsuffix heq] at hdirectory

theorem mem_entries {t : FileTree} {l : Location} {e : Entry} (h : t.entry? l = some e)
    (hdirectory : e ≠ .directory) : (l, e) ∈ t.entries := by
  have hroot : l ≠ [] := ne_nil_of_ne_directory (t := t) (by simpa [h] using hdirectory)
  obtain ⟨name, l, rfl⟩ := List.exists_cons_of_ne_nil hroot
  have haround : t.entry? l = some .directory := entry?_tail (l := name :: l) (by simp [h])
  rw [entry?_of_directory haround] at h
  obtain ⟨before, behind, hentries, -⟩ := List.lookup_eq_some_iff.mp h
  simp [hentries]

/-- Trees that list the same but at some locations have the same entries elsewhere, if directories
are at the same ones of these locations. -/
theorem entry?_eq_of_lookup {t t' : FileTree} {touched : List Location} {l : Location}
    (hsame : ∀ l, l ∉ touched → t'.entries.lookup l = t.entries.lookup l)
    (htouched : ∀ l ∈ touched, t'.entry? l = some .directory ↔ t.entry? l = some .directory)
    (hl : l ∉ touched) : t'.entry? l = t.entry? l := by
  induction l with
  | nil => rfl
  | cons name l ih =>
      have hdirectory : t'.entry? l = some .directory ↔ t.entry? l = some .directory := by
        by_cases hmem : l ∈ touched
        · exact htouched l hmem
        · rw [ih hmem]
      by_cases hd : t.entry? l = some .directory
      · rw [entry?_of_directory (hdirectory.mpr hd), entry?_of_directory hd, hsame _ hl]
      · rw [entry?_of_ne_directory (mt hdirectory.mp hd), entry?_of_ne_directory hd]

/-! ## Removing -/

theorem lookup_erase_of_suffix {t : FileTree} {l other : Location} (h : l <:+ other) :
    (t.erase l).entries.lookup other = none := by
  rw [erase, List.lookup_eq_none_iff]
  intro e he
  have hout : ¬ l <:+ e.1 := by simpa using List.of_mem_filter he
  have hne : other ≠ e.1 := fun heq => hout (heq ▸ h)
  simpa using hne

theorem lookup_erase_of_not_suffix {t : FileTree} {l other : Location} (h : ¬ l <:+ other) :
    (t.erase l).entries.lookup other = t.entries.lookup other := by
  obtain ⟨entries⟩ := t
  rw [erase]
  induction entries with
  | nil => rfl
  | cons first entries ih =>
      obtain ⟨at', e⟩ := first
      by_cases hat : l <:+ at'
      · have hne : other ≠ at' := fun heq => h (heq ▸ hat)
        have hother : (other == at') = false := by simpa using hne
        simpa [hat, List.lookup_cons, hother] using ih
      · simp only [decide_not] at ih ⊢
        simp [hat, List.lookup_cons, ih]

theorem entry?_erase_of_not_suffix {t : FileTree} {l other : Location} (h : ¬ l <:+ other) :
    entry? (t.erase l) other = t.entry? other := by
  induction other with
  | nil => rfl
  | cons name other ih =>
      have hother : ¬ l <:+ other := fun hsuffix => h (hsuffix.trans (List.suffix_cons _ _))
      rw [entry?_cons, entry?_cons, ih hother, lookup_erase_of_not_suffix h]

theorem entry?_erase_self {t : FileTree} {l : Location} (h : l ≠ []) :
    entry? (t.erase l) l = none := by
  obtain ⟨name, l, rfl⟩ := List.exists_cons_of_ne_nil h
  rw [entry?_cons, lookup_erase_of_suffix (List.suffix_refl _)]
  split <;> rfl

theorem entry?_erase_of_suffix {t : FileTree} {l other : Location} (hl : l ≠ [])
    (h : l <:+ other) : entry? (t.erase l) other = none := by
  by_cases heq : other = l
  · rw [heq, entry?_erase_self hl]
  · exact entry?_of_suffix (by simp [entry?_erase_self hl]) h heq

theorem entry?_of_erase {t : FileTree} {l other : Location} {e : Entry} (hl : l ≠ [])
    (h : entry? (t.erase l) other = some e) : ¬ l <:+ other ∧ t.entry? other = some e := by
  by_cases hsuffix : l <:+ other
  · simp [entry?_erase_of_suffix hl hsuffix] at h
  · exact ⟨hsuffix, entry?_erase_of_not_suffix hsuffix ▸ h⟩

/-- Removing what is no directory takes nothing else away. -/
theorem entry?_erase_of_ne {t : FileTree} {l other : Location} (hl : t.entry? l ≠ some .directory)
    (h : other ≠ l) : entry? (t.erase l) other = t.entry? other := by
  by_cases hsuffix : l <:+ other
  · rw [entry?_erase_of_suffix (ne_nil_of_ne_directory hl) hsuffix, entry?_of_suffix hl hsuffix h]
  · exact entry?_erase_of_not_suffix hsuffix

/-! ## Placing -/

theorem entry?_insert_of_not_suffix {t : FileTree} {l other : Location} (h : ¬ l <:+ other)
    (e : Entry) : entry? (t.insert l e) other = t.entry? other := by
  induction other with
  | nil => rfl
  | cons name other ih =>
      have hother : ¬ l <:+ other := fun hsuffix => h (hsuffix.trans (List.suffix_cons _ _))
      have hne : (name :: other == l) = false := by
        rw [beq_eq_false_iff_ne]
        rintro rfl
        exact h (List.suffix_refl _)
      rw [entry?_cons, entry?_cons, ih hother, insert, List.lookup_cons, hne,
        lookup_erase_of_not_suffix h]

theorem entry?_insert_self {t : FileTree} {l : Location} (h : l ≠ [])
    (htail : t.entry? l.tail = some .directory) (e : Entry) :
    entry? (t.insert l e) l = some e := by
  obtain ⟨name, l, rfl⟩ := List.exists_cons_of_ne_nil h
  have hout : ¬ name :: l <:+ l := fun hsuffix => by simpa using hsuffix.length_le
  rw [entry?_of_directory ((entry?_insert_of_not_suffix hout e).trans htail), insert]
  simp

theorem entry?_of_insert {t : FileTree} {l other : Location} {e e' : Entry} (hl : l ≠ [])
    (h : entry? (t.insert l e) other = some e') :
    other = l ∧ e' = e ∨ ¬ l <:+ other ∧ t.entry? other = some e' := by
  by_cases hsuffix : l <:+ other
  swap
  · exact .inr ⟨hsuffix, entry?_insert_of_not_suffix hsuffix e ▸ h⟩
  have hroot : other ≠ [] := by
    rintro rfl
    exact hl (List.suffix_nil.mp hsuffix)
  obtain ⟨name, around, rfl⟩ := List.exists_cons_of_ne_nil hroot
  have hdirectory : entry? (t.insert l e) around = some .directory :=
    entry?_tail (l := name :: around) (by simp [h])
  rw [entry?_of_directory hdirectory, insert, List.lookup_cons,
    lookup_erase_of_suffix hsuffix] at h
  split at h
  next heq =>
    obtain rfl := Option.some.inj h
    exact .inl ⟨by simpa using heq, rfl⟩
  next => simp at h

/-- Placing an entry where no directory is leaves everything else as it was. -/
theorem entry?_insert_of_ne {t : FileTree} {l other : Location}
    (hl : t.entry? l ≠ some .directory) (h : other ≠ l) (e : Entry) :
    entry? (t.insert l e) other = t.entry? other := by
  induction other with
  | nil => rfl
  | cons name other ih =>
      by_cases hsuffix : l <:+ name :: other
      swap
      · exact entry?_insert_of_not_suffix hsuffix e
      have hne : (name :: other == l) = false := by simpa using h
      rw [entry?_of_suffix hl hsuffix h, entry?_cons, insert, List.lookup_cons, hne,
        lookup_erase_of_suffix hsuffix]
      split <;> rfl

/-! ## Moving -/

section

variable {t : FileTree} {source target other : Location} {e : Entry}

theorem entry?_move_source (hsource : source ≠ []) (htarget : target ≠ []) (h : source ≠ target) :
    entry? ((t.erase source).insert target e) source = none := by
  by_contra hne
  obtain ⟨e', he⟩ := Option.ne_none_iff_exists'.mp hne
  rcases entry?_of_insert htarget he with ⟨heq, -⟩ | ⟨-, he⟩
  · exact h heq
  · simp [entry?_erase_self hsource] at he

theorem entry?_move_target (hsource : t.entry? source ≠ some .directory) (htarget : target ≠ [])
    (htail : t.entry? target.tail = some .directory) :
    entry? ((t.erase source).insert target e) target = some e := by
  refine entry?_insert_self htarget ?_ e
  rwa [entry?_erase_of_ne hsource]
  rintro rfl
  exact hsource htail

theorem entry?_move_of_ne (hsource : t.entry? source ≠ some .directory)
    (htarget : t.entry? target ≠ some .directory) (h : other ≠ source) (h' : other ≠ target) :
    entry? ((t.erase source).insert target e) other = t.entry? other := by
  rw [entry?_insert_of_ne _ h', entry?_erase_of_ne hsource h]
  by_cases heq : target = source
  · simp [heq, entry?_erase_self (ne_nil_of_ne_directory hsource)]
  · rwa [entry?_erase_of_ne hsource heq]

end

/-! ## Files -/

theorem number?_eq_some_iff {e : Entry} {number : Nat} :
    e.number? = some number ↔ ∃ content, e = .file number content := by
  cases e <;> simp [Entry.number?]

theorem changeFile_eq_directory_iff {number : Nat} {change : ByteArray → ByteArray} {e : Entry} :
    e.changeFile number change = .directory ↔ e = .directory := by
  cases e with
  | file n content => by_cases h : n = number <;> simp [Entry.changeFile, h]
  | directory | link target | full => simp [Entry.changeFile]

theorem changeFile_eq_link_iff {number : Nat} {change : ByteArray → ByteArray} {e : Entry}
    {target : Path} : e.changeFile number change = .link target ↔ e = .link target := by
  cases e with
  | file n content => by_cases h : n = number <;> simp [Entry.changeFile, h]
  | directory | link target | full => simp [Entry.changeFile]

theorem lookup_changeFile (t : FileTree) (number : Nat) (change : ByteArray → ByteArray)
    (l : Location) : (t.changeFile number change).entries.lookup l =
      (t.entries.lookup l).map (Entry.changeFile number change) := by
  obtain ⟨entries⟩ := t
  rw [changeFile]
  induction entries with
  | nil => rfl
  | cons first entries ih =>
      obtain ⟨at', e⟩ := first
      simp only [List.map_cons, List.lookup_cons] at ih ⊢
      cases l == at' with
      | true => rfl
      | false => exact ih

theorem entry?_changeFile (t : FileTree) (number : Nat) (change : ByteArray → ByteArray)
    (l : Location) :
    entry? (t.changeFile number change) l = (t.entry? l).map (Entry.changeFile number change) := by
  induction l with
  | nil => rfl
  | cons name l ih =>
      have hdirectory : entry? (t.changeFile number change) l = some .directory ↔
          t.entry? l = some .directory := by
        simp [ih, changeFile_eq_directory_iff]
      by_cases hl : t.entry? l = some .directory
      · rw [entry?_of_directory (hdirectory.mpr hl), entry?_of_directory hl, lookup_changeFile]
      · rw [entry?_of_ne_directory (mt hdirectory.mp hl), entry?_of_ne_directory hl]
        rfl

theorem entry?_changeFile_of_directory {t : FileTree} {l : Location}
    (h : t.entry? l = some .directory) (number : Nat) (change : ByteArray → ByteArray) :
    entry? (t.changeFile number change) l = some .directory := by
  simp [entry?_changeFile, h, Entry.changeFile]

theorem entry?_changeFile_self {t : FileTree} {l : Location} {number : Nat} {content : ByteArray}
    (h : t.entry? l = some (.file number content)) (change : ByteArray → ByteArray) :
    entry? (t.changeFile number change) l = some (.file number (change content)) := by
  simp [entry?_changeFile, h, Entry.changeFile]

theorem entry?_changeFile_of_number?_ne {t : FileTree} {l : Location} {number : Nat}
    (h : ∀ e, t.entry? l = some e → e.number? ≠ some number) (change : ByteArray → ByteArray) :
    entry? (t.changeFile number change) l = t.entry? l := by
  rw [entry?_changeFile]
  cases he : t.entry? l with
  | none => rfl
  | some e =>
      cases e with
      | file n content =>
          have hn : ¬ n = number := fun hn => h _ he (by simp [Entry.number?, hn])
          simp [Entry.changeFile, hn]
      | directory | link target | full => rfl

@[simp] theorem changeFile_id (t : FileTree) (number : Nat) : t.changeFile number id = t := by
  have hentry (e : Entry) : e.changeFile number id = e := by
    cases e with
    | file n content => by_cases h : n = number <;> simp [Entry.changeFile, h]
    | directory | link target | full => rfl
  simp [changeFile, hentry]

theorem changeFile_append_empty (t : FileTree) (number : Nat) :
    t.changeFile number (· ++ .empty) = t := by
  simp only [ByteArray.append_empty]
  exact changeFile_id t number

theorem changeFile_changeFile (t : FileTree) (number : Nat) (first second : ByteArray → ByteArray) :
    (t.changeFile number first).changeFile number second =
      t.changeFile number (second ∘ first) := by
  have hentry (e : Entry) : (e.changeFile number first).changeFile number second =
      e.changeFile number (second ∘ first) := by
    cases e with
    | file n content => by_cases h : n = number <;> simp [Entry.changeFile, h]
    | directory | link target | full => rfl
  simp only [changeFile, List.map_map, Function.comp_def, hentry]

theorem isAlso_file_iff {t : FileTree} {l : Location} {number : Nat} {content : ByteArray} :
    t.isAlso l (.file number content) = true ↔
      ∃ e, t.entry? l = some e ∧ e.number? = some number := by
  unfold isAlso
  cases t.entry? l with
  | none => simp [Entry.number?]
  | some e => cases e <;> simp [Entry.number?]

theorem lt_freshNumber {t : FileTree} {l : Location} {number : Nat} {content : ByteArray}
    (h : (l, Entry.file number content) ∈ t.entries) : number < t.freshNumber := by
  obtain ⟨entries⟩ := t
  rw [freshNumber]
  induction entries with
  | nil => simp at h
  | cons first entries ih =>
      rw [List.foldr_cons, lt_max_iff]
      rcases List.mem_cons.mp h with rfl | h
      · exact .inr (Nat.lt_succ_self number)
      · exact .inl (ih h)

theorem number?_ne_freshNumber {t : FileTree} {l : Location} {e : Entry}
    (h : t.entry? l = some e) : e.number? ≠ some t.freshNumber := by
  intro hnumber
  obtain ⟨content, rfl⟩ := number?_eq_some_iff.mp hnumber
  exact (lt_freshNumber (mem_entries h (by simp))).false

theorem isDirectory_iff {t : FileTree} {l : Location} :
    t.isDirectory l = true ↔ t.entry? l = some .directory := by
  unfold isDirectory
  cases t.entry? l with
  | none => simp
  | some e => cases e <;> simp [Entry.isDirectory]

/-! ## Starting a way -/

theorem walk_eq_ok_iff {t : FileTree} {purpose : Purpose} {closed : Bool} {here l : Location}
    {p : Path} {names : List Name} :
    t.walk purpose closed here p names = .ok l ↔
      pathFault? p = none ∧ t.entry? (start here p) = some .directory ∧
        t.follow purpose maxLinkCount closed (start here p) names = .ok l := by
  unfold walk
  cases pathFault? p with
  | some fault => simp
  | none => simp [← isDirectory_iff, ite_eq_iff]

theorem walk_eq_follow {t : FileTree} {here : Location} {p : Path} (hfault : pathFault? p = none)
    (hbegins : t.entry? (start here p) = some .directory) (purpose : Purpose) (closed : Bool)
    (names : List Name) : t.walk purpose closed here p names =
      t.follow purpose maxLinkCount closed (start here p) names := by
  simp [walk, hfault, isDirectory_iff.mpr hbegins]

/-- What is behind the directory of a path is there only with the directory. -/
theorem entry?_start {t : FileTree} {here : Location} {p : Path} {names : Location}
    (hne : names ≠ []) (h : t.entry? (names ++ start here p) ≠ none) :
    t.entry? (start here p) = some .directory := by
  by_contra hstart
  refine h (entry?_of_suffix hstart (List.suffix_append _ _) fun heq => hne ?_)
  simpa using heq

/-! ## Trees without links -/

/-- No entry is a link, and no file is at two locations. A tree need not be like that: it is what a
statement has to suppose where a link could lead a change to another place. -/
structure Linkless (t : FileTree) : Prop where
  not_link : ∀ l target, t.entry? l ≠ some (.link target)
  single : ∀ l l' number, (t.entry? l).bind Entry.number? = some number →
    (t.entry? l').bind Entry.number? = some number → l = l'

theorem linkless_of_entries {t : FileTree} (hlink : ∀ e ∈ t.entries, ∀ target, e.2 ≠ .link target)
    (hsingle : (t.entries.filterMap fun e => e.2.number?).Nodup) : t.Linkless := by
  have hentry {l : Location} {number : Nat}
      (h : (t.entry? l).bind Entry.number? = some number) :
      ∃ e, (l, e) ∈ t.entries ∧ e.number? = some number := by
    obtain ⟨e, he, hnumber⟩ := Option.bind_eq_some_iff.mp h
    obtain ⟨content, rfl⟩ := number?_eq_some_iff.mp hnumber
    exact ⟨_, mem_entries he (by simp), hnumber⟩
  refine ⟨fun l target h => hlink _ (mem_entries h (by simp)) target rfl,
    fun l l' number h h' => ?_⟩
  obtain ⟨e, hmem, hnumber⟩ := hentry h
  obtain ⟨e', hmem', hnumber'⟩ := hentry h'
  by_contra hne
  have hpairs := List.pairwise_filterMap.mp hsingle
  have : Std.Symm fun a b : Location × Entry => ∀ n, a.2.number? = some n →
      ∀ n', b.2.number? = some n' → n ≠ n' := ⟨fun _ _ h n hn n' hn' => (h n' hn' n hn).symm⟩
  exact hpairs.forall hmem hmem' (fun heq => hne (Prod.mk.inj heq).1) number hnumber number
    hnumber' rfl

/-- There are no links in a tree whose files and links all come from a tree without any, each from a
place of its own. -/
theorem Linkless.of_source {t t' : FileTree} (h : t.Linkless) (source : Location → Location)
    (hold : ∀ {l e}, t'.entry? l = some e → e ≠ .directory → t.entry? (source l) = some e)
    (hown : ∀ {l l' e e'}, t'.entry? l = some e → t'.entry? l' = some e' →
      source l = source l' → l = l') : t'.Linkless where
  not_link l target he := h.not_link (source l) target (hold he (by simp))
  single l l' number hl hl' := by
    obtain ⟨e, he, hn⟩ := Option.bind_eq_some_iff.mp hl
    obtain ⟨e', he', hn'⟩ := Option.bind_eq_some_iff.mp hl'
    obtain ⟨content, rfl⟩ := number?_eq_some_iff.mp hn
    obtain ⟨content', rfl⟩ := number?_eq_some_iff.mp hn'
    refine hown he he' (h.single _ _ number ?_ ?_)
    · rw [hold he (by simp), Option.bind_some, hn]
    · rw [hold he' (by simp), Option.bind_some, hn']

end FileTree

end BankTrace
