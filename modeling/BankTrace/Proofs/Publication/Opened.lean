import BankTrace.Proofs.Publication.Apart

/-!
# The file that is opened by the partial path

The partial path may lead over links to a file elsewhere. What is written to that file does not
show at the output until the entry at the partial path is moved there, and then nothing else does.
-/

namespace BankTrace.Publication

open FileTree

/-! ## Before anything is moved -/

/-- A tree in which the output reads as at the start, and would also do so without the entry at the
partial path. -/
def Pending (initial : FileTree) (here : Location) (output part : Path) (t' : FileTree) : Prop :=
  ∃ t, Ready initial here output part t ∧ Alike t t' ∧
    ∀ l, t.locate .find here output = .ok l → t'.entry? l = t.entry? l

section

variable {initial t t' t'' : FileTree} {here : Location} {output part : Path}

theorem Ready.pending (h : Ready initial here output part t) :
    Pending initial here output part t :=
  ⟨t, h, Alike.refl t, fun _ _ => rfl⟩

theorem Pending.reads (h : Pending initial here output part t') (content : ByteArray) :
    t'.read here output = .ok content ↔ initial.read here output = .ok content := by
  obtain ⟨t, hready, halike, hsame⟩ := h
  rw [read_iff_of_alike halike hsame, hready.reads]

theorem Pending.remove (h : Pending initial here output part t')
    (hremove : t'.remove here part = .ok t'') (content : ByteArray) :
    t''.read here output = .ok content ↔ initial.read here output = .ok content := by
  obtain ⟨t, hready, halike, hsame⟩ := h
  obtain ⟨left, directory, name, hstands, -, hdirectory, rfl⟩ := remove_at hremove
  have hroot : name :: directory ≠ [] := List.cons_ne_nil _ _
  have hback : Guides (t.erase (name :: directory)) t := guides_of_erase hroot
  have hdirectory' : t.entry? (name :: directory) ≠ some .directory :=
    mt halike.forth.directory hdirectory
  have hkept : (t.erase (name :: directory)).read here output = .ok content ↔
      t.read here output = .ok content :=
    ⟨read_of_guides hback fun _ _ _ he => (entry?_of_erase hroot he).2,
      hready.apart.kept _ (hstands.mono halike.back).place? hdirectory' content⟩
  rw [← hready.reads, ← hkept]
  refine read_iff_of_alike (halike.erase hroot) (fun l hl => ?_) content
  by_cases heq : l = name :: directory
  · rw [heq, entry?_erase_self hroot, entry?_erase_self hroot]
  · have hsame' : t.entry? l = entry? (t.erase (name :: directory)) l :=
      (entry?_erase_of_ne hdirectory' heq).symm
    rw [entry?_erase_of_ne hdirectory' heq, entry?_erase_of_ne hdirectory heq]
    exact hsame l (locate_of_entry?_eq hback hsame' hl)

end

/-! ## While the file is written -/

/-- A tree in which the file that the partial path leads to was opened and has been written to. -/
structure Opened (t : FileTree) (here : Location) (part : Path) (l : Location) (number : Nat)
    (content : ByteArray) (t' : FileTree) : Prop where
  locate : t.locate .create here part = .ok l
  written : ∃ made change, Created t l (.file number) made ∧
    t' = made.changeFile number change ∧ change .empty = content

section

variable {initial t t' t'' : FileTree} {here l : Location} {output part : Path} {number : Nat}
  {content : ByteArray}

theorem Opened.of_created (hlocate : t.locate .create here part = .ok l)
    (hcreated : Created t l (.file number) t') : Opened t here part l number .empty t' :=
  ⟨hlocate, t', id, hcreated, (changeFile_id t' number).symm, rfl⟩

theorem Opened.alike (h : Opened t here part l number content t') : Alike t t' := by
  obtain ⟨made, change, hcreated, rfl, -⟩ := h.written
  exact hcreated.alike.trans (alike_changeFile made number change)

theorem Opened.entry_eq (h : Opened t here part l number content t') :
    t'.entry? l = some (.file number content) := by
  obtain ⟨made, change, hcreated, rfl, rfl⟩ := h.written
  exact entry?_changeFile_self hcreated.entry? change

theorem Opened.not_turns (h : Opened t here part l number content t') : ¬ t.Turns l := by
  intro hturns
  have := h.alike.forth.turns hturns
  simp [Turns, h.entry_eq] at this

theorem Opened.number?_ne (h : Opened t here part l number content t') {l' : Location}
    (hshared : ¬ Shared t l' l) {e : Entry} (he : t.entry? l' = some e) :
    e.number? ≠ some number := by
  obtain ⟨made, change, hcreated, -⟩ := h.written
  cases hcreated with
  | emptied hfile =>
      intro hnumber
      exact hshared (.inr ⟨number, by simp [he, hnumber], by simp [hfile, Entry.number?]⟩)
  | made hnone => exact number?_ne_freshNumber he

/-- Only the file that was opened is another than before. -/
theorem Opened.entry?_of_not_shared (h : Opened t here part l number content t') {l' : Location}
    (hshared : ¬ Shared t l' l) : t'.entry? l' = t.entry? l' := by
  have hnumber := fun e => h.number?_ne hshared (e := e)
  obtain ⟨made, change, hcreated, rfl, -⟩ := h.written
  have hsame : made.entry? l' = t.entry? l' := by
    cases hcreated with
    | emptied he => exact entry?_changeFile_of_number?_ne hnumber _
    | made he =>
        refine entry?_insert_of_ne (by simp [he]) ?_ _
        rintro rfl
        exact hshared (.inl ⟨rfl, he⟩)
  rw [← hsame] at hnumber ⊢
  exact entry?_changeFile_of_number?_ne hnumber change

theorem Opened.pending (h : Opened t here part l number content t')
    (hready : Ready initial here output part t) : Pending initial here output part t' :=
  ⟨t, hready, h.alike, fun l' hl' =>
    h.entry?_of_not_shared (hready.apart.distinct l' l hl' h.locate)⟩

theorem Opened.changeFile (h : Opened t here part l number content t')
    (change : ByteArray → ByteArray) :
    Opened t here part l number (change content) (t'.changeFile number change) := by
  refine ⟨h.locate, ?_⟩
  obtain ⟨made, before, hcreated, rfl, rfl⟩ := h.written
  exact ⟨made, change ∘ before, hcreated, changeFile_changeFile made number before change, rfl⟩

end

/-! ## Moving it onto the output -/

section

variable {t t' t'' w : FileTree} {here l directory directory' : Location} {output part : Path}
  {outer : List Name} {name : Name} {left left' number : Nat} {content : ByteArray}

theorem Sibling.stands_part (hs : Sibling output part outer name) {n : Name}
    (h : t.Stands here part left directory n) :
    n = name ++ partialSuffix ∧
      Reaches t maxLinkCount (start here output) outer left directory := by
  obtain ⟨houter, hname⟩ := List.append_inj' (h.steps_eq.symm.trans hs.part_steps) rfl
  have hreaches := h.reaches
  rw [houter, hs.start_eq] at hreaches
  exact ⟨List.singleton_inj.mp hname, hreaches⟩

theorem Sibling.stands_output (hs : Sibling output part outer name) {n : Name}
    (h : t.Stands here output left directory n) :
    n = name ∧ Reaches t maxLinkCount (start here output) outer left directory := by
  obtain ⟨houter, hname⟩ := List.append_inj' (h.steps_eq.symm.trans hs.output_steps) rfl
  have hreaches := h.reaches
  rw [houter] at hreaches
  exact ⟨List.singleton_inj.mp hname, hreaches⟩

theorem Sibling.stands (hs : Sibling output part outer name) {n n' : Name}
    (h : t.Stands here output left' directory' n')
    (hpart : w.Stands here part left directory n) : w.Stands here output left directory name := by
  obtain ⟨houter, hname⟩ := List.append_inj' (h.steps_eq.symm.trans hs.output_steps) rfl
  obtain rfl := List.singleton_inj.mp hname
  refine ⟨h.fault, hs.start_eq here ▸ hpart.begins, h.last, h.ne_dot, h.ne_dotDot,
    hpart.isDirectory, ?_⟩
  rw [houter]
  exact (hs.stands_part hpart).2

theorem place_ne (name : Name) (directory : Location) :
    (name ++ partialSuffix) :: directory ≠ name :: directory :=
  fun heq => append_partialSuffix_ne name (List.cons.inj heq).1

theorem Opened.number?_ne_at_output (h : Opened t here part l number content t')
    (hapart : Apart t here output part) (houtput : t.Stands here output left directory name)
    (hshort : name.length ≤ maxNameLength) (hslash : output.endsInSlash = false) {e : Entry}
    (he : t'.entry? (name :: directory) = some e) : e.number? ≠ some number := by
  intro hnumber
  have hturns : ¬ t.Turns (name :: directory) := by
    intro hturns
    rcases h.alike.forth.turns hturns with he' | ⟨target, he'⟩
    all_goals
      obtain rfl := Option.some.inj (he.symm.trans he')
      simp [Entry.number?] at hnumber
  have hlocate : t.locate .find here output = .ok (name :: directory) :=
    houtput.locate_of_not_turns hshort hslash hturns
  have hshared := hapart.distinct _ _ hlocate h.locate
  rw [h.entry?_of_not_shared hshared] at he
  exact h.number?_ne hshared he hnumber

/-- What is at the partial path is the file, unless a link leads on to it. -/
theorem Opened.eq_file (h : Opened t here part l number content t') {n : Name}
    (hpart : t.Stands here part left directory n) {e : Entry}
    (he : t'.entry? (n :: directory) = some e) (hlink : ∀ target, e ≠ .link target) :
    e = .file number content := by
  have hnot (target : Path) : t.entry? (n :: directory) ≠ some (.link target) := by
    intro hl
    exact hlink target (Option.some.inj (he.symm.trans (h.alike.forth.link hl)))
  have heq : l = n :: directory :=
    (hpart.locate_eq_ok_iff.mp h.locate).eq_of_not_link hpart.ne_dot hpart.ne_dotDot hnot
  rw [← heq, h.entry_eq] at he
  exact (Option.some.inj he).symm

theorem Opened.isAlso_ne (h : Opened t here part l number content t')
    (hapart : Apart t here output part) {n : Name} (hpart : t.Stands here part left' directory' n)
    (houtput : t.Stands here output left directory name) (hshort : name.length ≤ maxNameLength)
    (hslash : output.endsInSlash = false) {e : Entry}
    (he : t'.entry? (n :: directory') = some e) : ¬ t'.isAlso (name :: directory) e = true := by
  intro halso
  have hlink (target : Path) : e ≠ .link target := by
    rintro rfl
    simp [isAlso, Entry.number?] at halso
  rw [h.eq_file hpart he hlink] at halso
  obtain ⟨e', he', hnumber⟩ := isAlso_file_iff.mp halso
  exact h.number?_ne_at_output hapart houtput hshort hslash he' hnumber

/-- Without the entry at the output, the partial path stands where it does and leads to the file. -/
theorem Opened.stands_without_output (h : Opened t here part l number content t')
    (hapart : Apart t here output part) {n : Name} (hpart : t.Stands here part left directory n)
    (houtput : t.Stands here output left directory name)
    (hdirectory : t.entry? (name :: directory) ≠ some .directory) :
    (t.erase (name :: directory)).Stands here part left directory n ∧
      (t.erase (name :: directory)).locate .create here part = .ok l := by
  have hled := hapart.led _ houtput.place? hdirectory l h.locate
  refine ⟨hpart.of_locate (guides_of_erase (List.cons_ne_nil _ _)) ?_ hled, hled⟩
  rw [entry?_erase_of_ne hdirectory (List.cons_ne_self name directory).symm]
  exact hpart.isDirectory

/-- The output and the partial path stand beside each other, and no directory is at the output. -/
structure Replaces (t : FileTree) (here : Location) (output part : Path) (left : Nat)
    (directory : Location) (name : Name) : Prop where
  standsPart : t.Stands here part left directory (name ++ partialSuffix)
  standsOutput : t.Stands here output left directory name
  short : name.length ≤ maxNameLength
  slash : output.endsInSlash = false
  entry : t.entry? (name :: directory) ≠ some .directory

theorem Opened.read_moved_file (h : Opened t here part l number content t')
    (hapart : Apart t here output part) (hs : Sibling output part outer name)
    (hr : Replaces t here output part left directory name)
    (hturns : ¬ t.Turns ((name ++ partialSuffix) :: directory)) :
    ((t'.erase ((name ++ partialSuffix) :: directory)).insert (name :: directory)
      (.file number content)).read here output = .ok content := by
  obtain ⟨hstands, -⟩ := h.stands_without_output hapart hr.standsPart hr.standsOutput hr.entry
  have hroot : name :: directory ≠ [] := List.cons_ne_nil _ _
  have hback : Guides (t.erase (name :: directory)) t := guides_of_erase hroot
  have hmissing : ¬ Turns (t.erase (name :: directory)) (name :: directory) := by
    simp [Turns, entry?_erase_self hroot]
  have hguides := (hback.trans h.alike.forth).move (mt hback.turns hturns) hmissing
    (.file number content)
  have houtput := (hs.stands hr.standsOutput hstands).mono hguides
  have hsource : t'.entry? ((name ++ partialSuffix) :: directory) ≠ some .directory := fun hd =>
    hturns (.inl (h.alike.back.directory hd))
  have he := entry?_move_target (e := .file number content) hsource hroot
    (h.alike.forth.directory hr.standsOutput.isDirectory)
  refine read_eq_ok_iff.mpr ⟨_, _, houtput.locate_of_not_turns hr.short hr.slash ?_, he, rfl⟩
  simp [Turns, he]

/-- A link that was moved leads on as before: its target leads neither over its old place nor over
its new one. -/
theorem Opened.read_moved_link (h : Opened t here part l number content t')
    (hapart : Apart t here output part) (hs : Sibling output part outer name)
    (hr : Replaces t here output part left directory name) {target : Path}
    (hlink : t.entry? ((name ++ partialSuffix) :: directory) = some (.link target)) :
    ((t'.erase ((name ++ partialSuffix) :: directory)).insert (name :: directory)
      (.link target)).read here output = .ok content := by
  obtain ⟨hstands, hled⟩ := h.stands_without_output hapart hr.standsPart hr.standsOutput hr.entry
  have hroot : name :: directory ≠ [] := List.cons_ne_nil _ _
  have hrootP : (name ++ partialSuffix) :: directory ≠ [] := List.cons_ne_nil _ _
  have hback : Guides (t.erase (name :: directory)) t := guides_of_erase hroot
  have hlink' : entry? (t.erase (name :: directory)) ((name ++ partialSuffix) :: directory) =
      some (.link target) := by
    rwa [entry?_erase_of_ne hr.entry (place_ne name directory)]
  have hl : entry? (t.erase (name :: directory)) l ≠ some .directory := fun hd =>
    h.not_turns (.inl (hback.directory hd))
  obtain ⟨htarget, links, rfl, hbehind⟩ := hstands.behind_link hlink' hl hled
  have hstands' := hstands.erase_link hlink' hl hled
  -- Neither place is a turn of the tree without both entries, in which the target is followed.
  have hmissingP : ¬ Turns ((t.erase (name :: directory)).erase
      ((name ++ partialSuffix) :: directory)) ((name ++ partialSuffix) :: directory) := by
    simp [Turns, entry?_erase_self hrootP]
  have hmissing : ¬ Turns ((t.erase (name :: directory)).erase
      ((name ++ partialSuffix) :: directory)) (name :: directory) := by
    rw [Turns, entry?_erase_of_ne (by simp [hlink']) (place_ne name directory).symm,
      entry?_erase_self hroot]
    simp
  have hguides := (((guides_of_erase hrootP).trans hback).trans h.alike.forth).move hmissingP
    hmissing (.link target)
  have hsource : t'.entry? ((name ++ partialSuffix) :: directory) ≠ some .directory := by
    simp [h.alike.forth.link hlink]
  have hend : entry? ((t'.erase ((name ++ partialSuffix) :: directory)).insert (name :: directory)
      (.link target)) l = some (.file number content) := by
    rw [entry?_move_of_ne hsource (mt h.alike.back.directory hr.entry), h.entry_eq]
    · rintro rfl
      exact h.not_turns (.inr ⟨target, hlink⟩)
    · rintro rfl
      exact h.number?_ne_at_output hapart hr.standsOutput hr.short hr.slash h.entry_eq rfl
  have hmoved : entry? ((t'.erase ((name ++ partialSuffix) :: directory)).insert
      (name :: directory) (.link target)) (name :: directory) = some (.link target) :=
    entry?_move_target hsource hroot (h.alike.forth.directory hr.standsOutput.isDirectory)
  have hfound : Leads ((t'.erase ((name ++ partialSuffix) :: directory)).insert
      (name :: directory) (.link target)) .find links false (FileTree.start directory target)
      (names target) l :=
    hbehind.mono hguides le_rfl (by simp) (fun _ => by simp [Turns, hend]) (by simp)
  have houtput := (hs.stands hr.standsOutput hstands').mono hguides
  refine read_eq_ok_iff.mpr ⟨l, _, houtput.locate_eq_ok_iff.mpr ?_, hend, rfl⟩
  refine .link ⟨houtput.ne_dot, houtput.ne_dotDot, hr.short⟩ (by simp [Admits]) hmoved ?_
  simpa [hr.slash, htarget] using hfound

/-- Moved onto the output, the entry at the partial path leads to what was written, whether it is
the file or a link to it. -/
theorem Opened.rename (h : Opened t here part l number content t')
    (hapart : Apart t here output part) (hs : Sibling output part outer name)
    (hrename : t'.rename here part output = .ok t'') : t''.read here output = .ok content := by
  obtain ⟨left, directory, n, left', directory', n', hpart', houtput', hshort, hslash, -, e, he,
    hfile, hmoved⟩ := rename_at hrename
  have hpart := hpart'.mono h.alike.back
  have houtput := houtput'.mono h.alike.back
  obtain ⟨hn, hreaches⟩ := hs.stands_part hpart
  obtain ⟨hn', hreaches'⟩ := hs.stands_output houtput
  obtain ⟨rfl, rfl⟩ := hreaches.unique hreaches'
  subst hn hn'
  rcases hmoved with ⟨-, hsame | halso⟩ | ⟨hnot, rfl⟩
  · exact absurd hsame (place_ne _ _)
  · exact absurd halso (h.isAlso_ne hapart hpart houtput hshort hslash he)
  have hr : Replaces t here output part left directory n' :=
    ⟨hpart, houtput, hshort, hslash, mt h.alike.forth.directory hnot⟩
  by_cases hlink : ∃ target, e = .link target
  · obtain ⟨target, rfl⟩ := hlink
    exact h.read_moved_link hapart hs hr (h.alike.back.link he)
  · obtain rfl := h.eq_file hpart he fun target heq => hlink ⟨target, heq⟩
    refine h.read_moved_file hapart hs hr fun hturns => ?_
    have hturns' := h.alike.forth.turns hturns
    simp [Turns, he] at hturns'

end

/-! ## On trees without links -/

section

variable {t t' : FileTree} {here l : Location} {part : Path} {number : Nat} {content : ByteArray}

/-- Without links only the file that was opened is another than before. -/
theorem Opened.entry?_of_ne (h : Opened t here part l number content t') (hlinkless : t.Linkless)
    {l' : Location} (hl : l' ≠ l) : t'.entry? l' = t.entry? l' := by
  refine h.entry?_of_not_shared ?_
  rintro (⟨heq, -⟩ | ⟨number, hnumber, hnumber'⟩)
  · exact hl heq
  · exact hl (hlinkless.single _ _ _ hnumber hnumber')

theorem Opened.linkless (h : Opened t here part l number content t') (hlinkless : t.Linkless) :
    t'.Linkless := by
  have hfile : (t'.entry? l).bind Entry.number? = some number := by rw [h.entry_eq]; rfl
  have hother {l' : Location} (hl : l' ≠ l) : (t'.entry? l').bind Entry.number? ≠ some number := by
    intro hnumber
    obtain ⟨e, he, hnumber⟩ := Option.bind_eq_some_iff.mp hnumber
    rw [h.entry?_of_ne hlinkless hl] at he
    refine h.number?_ne ?_ he hnumber
    rintro (⟨heq, -⟩ | ⟨n, hn, hn'⟩)
    · exact hl heq
    · exact hl (hlinkless.single _ _ _ hn hn')
  refine ⟨fun l target he => hlinkless.not_link l target (h.alike.back.link he),
    fun l' l'' n hn hn' => ?_⟩
  by_cases hl : l' = l <;> by_cases hl' : l'' = l
  · rw [hl, hl']
  · subst hl
    obtain rfl : number = n := Option.some.inj (hfile.symm.trans hn)
    exact absurd hn' (hother hl')
  · subst hl'
    obtain rfl : number = n := Option.some.inj (hfile.symm.trans hn')
    exact absurd hn (hother hl)
  · rw [h.entry?_of_ne hlinkless hl] at hn
    rw [h.entry?_of_ne hlinkless hl'] at hn'
    exact hlinkless.single _ _ _ hn hn'

end

end BankTrace.Publication
