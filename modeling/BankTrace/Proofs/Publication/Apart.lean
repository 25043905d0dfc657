import BankTrace.Proofs.Publication.Partial

/-!
# Outputs apart from their partial files

The partial file is opened by its path, over links, but moved and removed as the entry it is. What
the output gives to a reader survives this when neither path leads over the place of the other and
they do not lead to one file.
-/

namespace BankTrace.Publication

open FileTree

/-- Whether one file is at two locations, or one location is missing for both. -/
def Shared (t : FileTree) (l l' : Location) : Prop :=
  (l = l' ∧ t.entry? l = none) ∨
    ∃ number, (t.entry? l).bind Entry.number? = some number ∧
      (t.entry? l').bind Entry.number? = some number

/-- The output and the partial file have nothing to do with each other. -/
structure Apart (t : FileTree) (here : Location) (output part : Path) : Prop where
  /-- The output is read without the entry at the partial path. -/
  kept : ∀ l, t.place? here part = some l → t.entry? l ≠ some .directory →
    ∀ content, t.read here output = .ok content → (t.erase l).read here output = .ok content
  /-- The partial path leads where it leads without the entry at the output. -/
  led : ∀ l, t.place? here output = some l → t.entry? l ≠ some .directory →
    ∀ l', t.locate .create here part = .ok l' → (t.erase l).locate .create here part = .ok l'
  distinct : ∀ l l', t.locate .find here output = .ok l → t.locate .create here part = .ok l' →
    ¬ Shared t l l'

/-- A tree from which the output reads as it did at first, and apart from the partial file. -/
structure Ready (initial : FileTree) (here : Location) (output part : Path) (t : FileTree) :
    Prop where
  reads : ∀ content, t.read here output = .ok content ↔ initial.read here output = .ok content
  apart : Apart t here output part

/-! ## Below a directory that was just made -/

section

variable {t : FileTree} {here directory l : Location} {p : Path} {purpose : Purpose}

/-- Names lead no further than to the first that is missing. -/
theorem leads_of_empty (hempty : ∀ n, t.entry? (n :: directory) = none) {links : Nat}
    {closed : Bool} {names : List Name} (hback : Path.dotDot ∉ moves names)
    (hmoves : moves names ≠ []) (h : Leads t purpose links closed directory names l) :
    ∃ n, moves names = [n] ∧ l = n :: directory := by
  induction names with
  | nil => exact absurd rfl hmoves
  | cons name rest ih =>
      cases h with
      | dot h => exact ih hback hmoves h
      | back => exact absurd (by simp [moves, Path.dotDot, Path.dot]) hback
      | directory _ _ he => simp [hempty] at he
      | link _ _ he => simp [hempty] at he
      | last hname => exact ⟨name, moves_cons hname.ne_dot, rfl⟩

theorem reaches_of_empty (hempty : ∀ n, t.entry? (n :: directory) = none) {links left : Nat}
    {steps : List Name} (hback : Path.dotDot ∉ steps)
    (h : Reaches t links directory steps left l) : steps = [] ∧ l = directory := by
  cases h with
  | nil => exact ⟨rfl, rfl⟩
  | back => simp at hback
  | directory _ he => simp [hempty] at he
  | link _ he => simp [hempty] at he

/-- An empty directory on the way of a path, with the steps of the path behind it. -/
structure Below (t : FileTree) (here : Location) (p : Path) (directory : Location)
    (steps : List Name) : Prop where
  empty : ∀ n, t.entry? (n :: directory) = none
  reaches : ∃ before left, p.steps = before ++ steps ∧
    Reaches t maxLinkCount (start here p) before left directory
  ne_nil : steps ≠ []
  back : Path.dotDot ∉ steps

theorem Below.locate {steps : List Name} (h : Below t here p directory steps)
    (hlocate : t.locate purpose here p = .ok l) :
    ∃ n, steps = [n] ∧ l = n :: directory := by
  obtain ⟨before, left, hsteps, hreaches⟩ := h.reaches
  obtain ⟨-, -, hleads⟩ := locate_eq_ok_iff_leads.mp hlocate
  obtain ⟨xs, ys, hnames, hxs, hys⟩ :=
    List.filter_eq_append_iff.mp ((moves_names p).trans hsteps)
  obtain rfl : moves xs = before := hxs
  obtain rfl : moves ys = steps := hys
  have hne : ys ≠ [] := by
    rintro rfl
    exact h.ne_nil rfl
  rw [hnames] at hleads
  obtain ⟨left', mid, hreaches', hrest⟩ := hleads.of_append hne
  obtain ⟨rfl, rfl⟩ := hreaches.unique hreaches'
  exact leads_of_empty h.empty h.back h.ne_nil hrest

theorem Below.place {steps : List Name} (h : Below t here p directory steps)
    (hplace : t.place? here p = some l) : ∃ n, steps = [n] ∧ l = n :: directory := by
  obtain ⟨left, around, name, hstands, rfl⟩ := place?_eq_some_iff.mp hplace
  obtain ⟨before, left', hsteps, hreaches⟩ := h.reaches
  obtain ⟨outer, last, rfl⟩ := (List.eq_nil_or_concat' steps).resolve_left h.ne_nil
  have hsplit := hstands.steps_eq.symm.trans hsteps
  rw [← List.append_assoc] at hsplit
  obtain ⟨houter, hname⟩ := List.append_inj' hsplit rfl
  obtain rfl : name = last := List.singleton_inj.mp hname
  have hway := hstands.reaches
  rw [houter] at hway
  obtain ⟨between, mid, hfirst, hrest⟩ := hway.of_append
  obtain ⟨rfl, rfl⟩ := hreaches.unique hfirst
  obtain ⟨rfl, rfl⟩ := reaches_of_empty h.empty (fun hmem => h.back (by simp [hmem])) hrest
  exact ⟨name, rfl, rfl⟩

theorem Below.read_ne_ok {steps : List Name} (h : Below t here p directory steps)
    (content : ByteArray) : t.read here p ≠ .ok content := by
  intro hread
  obtain ⟨l, e, hlocate, he, -⟩ := read_eq_ok_iff.mp hread
  obtain ⟨n, -, rfl⟩ := h.locate hlocate
  simp [h.empty] at he

end

section

variable {initial t t' : FileTree} {here : Location} {output part : Path} {outer : List Name}
  {name : Name}

theorem apart_of_below {directory : Location} {steps : List Name}
    (houtput : Below t here output directory (steps ++ [name]))
    (hpart : Below t here part directory (steps ++ [name ++ partialSuffix])) :
    Apart t here output part where
  kept l hl _ content hread := absurd hread (houtput.read_ne_ok content)
  led l hl _ l' hl' := by
    obtain ⟨n, -, rfl⟩ := houtput.place hl
    have hmissing : t.entry? (n :: directory) = none := houtput.empty n
    have hguides : Guides t (t.erase (n :: directory)) := guides_erase (by simp [Turns, hmissing])
    refine locate_of_entry?_eq hguides ?_ hl'
    by_cases heq : l' = n :: directory
    · rw [heq, entry?_erase_self (List.cons_ne_nil _ _), hmissing]
    · exact entry?_erase_of_ne (by simp [hmissing]) heq
  distinct l l' hl hl' := by
    obtain ⟨n, hn, rfl⟩ := houtput.locate hl
    obtain ⟨n', hn', rfl⟩ := hpart.locate hl'
    rintro (⟨heq, -⟩ | ⟨number, hnumber, -⟩)
    · obtain ⟨rfl, -⟩ := List.cons.inj heq
      exact append_partialSuffix_ne name
        (List.singleton_inj.mp (List.append_cancel_left (hn'.trans hn.symm)))
    · simp [houtput.empty] at hnumber

theorem Sibling.start_part (h : Sibling output part outer name) {p : Path}
    (hrooted : p.isRooted = output.isRooted) : start here part = start here p := by
  rw [h.start_eq, start, start, hrooted]

/-- Making a directory around the output leaves it as it is, which is missing, and what is below
the new directory is apart. -/
theorem Ready.makeDirectory (h : Ready initial here output part t)
    (hs : Sibling output part outer name) (hback : Path.dotDot ∉ output.steps) {p : Path}
    (hsteps : p.steps <+: outer) (hrooted : p.isRooted = output.isRooted)
    (hmake : t.makeDirectory here p = .ok t') : Ready initial here output part t' := by
  obtain ⟨left, directory, n, hstands, hshort, hnone, rfl⟩ := makeDirectory_at hmake
  obtain ⟨more, rfl⟩ := hsteps
  have hguides : Guides t (t.insert (n :: directory) .directory) := guides_insert hnone _
  have hmade : entry? (t.insert (n :: directory) .directory) (n :: directory) = some .directory :=
    entry?_insert_self (List.cons_ne_nil _ _) hstands.isDirectory _
  have hsame {l : Location} (hl : l ≠ n :: directory) :
      entry? (t.insert (n :: directory) .directory) l = t.entry? l :=
    entry?_insert_of_ne (by simp [hnone]) hl _
  have hempty (m : Name) :
      entry? (t.insert (n :: directory) .directory) (m :: n :: directory) = none := by
    rw [hsame (List.cons_ne_self m (n :: directory))]
    exact entry?_of_ne_directory (by simp [hnone]) m
  have hreaches : Reaches (t.insert (n :: directory) .directory) maxLinkCount (start here p) p.steps
      left (n :: directory) := by
    rw [hstands.steps_eq]
    exact (hstands.reaches.mono hguides).append
      (.directory ⟨hstands.ne_dot, hstands.ne_dotDot, hshort⟩ hmade .nil)
  have houtput : Below (t.insert (n :: directory) .directory) here output (n :: directory)
      (more ++ [name]) := by
    refine ⟨hempty, ⟨p.steps, left, ?_, ?_⟩, by simp, ?_⟩
    · rw [hs.output_steps, List.append_assoc]
    · rwa [← hs.start_eq, hs.start_part hrooted]
    · rw [hs.output_steps, List.append_assoc] at hback
      exact fun hmem => hback (List.mem_append_right _ hmem)
  have hpart : Below (t.insert (n :: directory) .directory) here part (n :: directory)
      (more ++ [name ++ partialSuffix]) := by
    refine ⟨hempty, ⟨p.steps, left, ?_, ?_⟩, by simp, ?_⟩
    · rw [hs.part_steps, List.append_assoc]
    · rwa [hs.start_part hrooted]
    · have hbackPart := hs.dotDot_not_mem hback
      rw [hs.part_steps, List.append_assoc] at hbackPart
      exact fun hmem => hbackPart (List.mem_append_right _ hmem)
  have hunread (content : ByteArray) : t.read here output ≠ .ok content := by
    intro hread
    refine houtput.read_ne_ok content (read_of_guides hguides (fun l e _ he => ?_) hread)
    rwa [hsame]
    rintro rfl
    simp [hnone] at he
  refine ⟨fun content => ?_, apart_of_below houtput hpart⟩
  rw [← h.reads content]
  exact iff_of_false (houtput.read_ne_ok content) (hunread content)

end

end BankTrace.Publication
