import BankTrace.Proofs.FileTree.Enlarged
import BankTrace.Proofs.FileTree.Lexical
import BankTrace.Proofs.Publication.Frame
import BankTrace.Proofs.Publication.Opened

/-!
# Publications one after the other

On a tree without links a publication that succeeds takes nothing away but what is at its partial
path, and replaces nothing but its output. A trace therefore stays where it was published until a
later publication has its output as partial path.
-/

namespace BankTrace.Publication

open World (run Ends)
open FileTree

/-! ## One publication -/

/-- What a publication that succeeds has made of a tree. -/
structure Placed (initial : FileTree) (here : Location) (output part : Path) (trace : ByteArray)
    (t : FileTree) : Prop where
  linkless : t.Linkless
  guides : Guides initial t
  kept : ∀ l, l ≠ lexical here output → l ≠ lexical here part →
    t.entry? l = initial.entry? l ∨ initial.entry? l = none ∧ t.entry? l = some .directory
  part_eq : t.entry? (lexical here part) = none
  reads : t.read here output = .ok trace

section

variable {initial t t' : FileTree} {here l : Location} {output part : Path} {outer : List Name}
  {name : Name} {number : Nat} {content : ByteArray}

/-- The operations of a publication only add directories, up to the file that is opened. -/
theorem enlarged_course (initial : FileTree) (here : Location) (output part : Path) :
    Course here output part (Enlarged initial)
      (fun l number content t' =>
        ∃ t, Enlarged initial t ∧ Opened t here part l number content t')
      (fun _ => True) where
  makeDirectory _ _ _ _ _ h hmake := h.makeDirectory hmake
  create t t' number h hcreate := by
    obtain ⟨l, hlocate, hcreated⟩ := create_eq_ok_iff.mp hcreate
    exact ⟨l, t, h, .of_created hlocate hcreated⟩
  device _ _ _ _ := trivial
  write _ _ _ _ change h :=
    let ⟨t', ht', hopened⟩ := h
    ⟨t', ht', hopened.changeFile change⟩
  entry_eq _ _ _ _ h :=
    let ⟨_, _, hopened⟩ := h
    hopened.entry_eq
  failed_of_prepared _ _ := trivial
  failed_of_filled _ _ _ _ _ := trivial

/-- Moved onto the output, the file is read there and nothing else is another than before. -/
theorem Opened.placed (h : Opened t here part l number content t') (hlinkless : t.Linkless)
    (hs : Sibling output part outer name) {t'' : FileTree}
    (hrename : t'.rename here part output = .ok t'') : Placed t here output part content t'' := by
  have hlinkless' := h.linkless hlinkless
  obtain ⟨left, directory, n, left', directory', n', hstandsPart, hstands, hshort, hslash,
    hmoved⟩ := rename_at hrename
  obtain ⟨rfl, hreachesPart⟩ := hs.stands_part hstandsPart
  obtain ⟨rfl, hreaches⟩ := hs.stands_output hstands
  obtain ⟨rfl, rfl⟩ := hreachesPart.unique hreaches
  have hpart := hstandsPart.eq_lexical hlinkless'.not_link
  have houtput := hstands.eq_lexical hlinkless'.not_link
  obtain rfl : l = (n' ++ partialSuffix) :: directory :=
    (locate_eq_lexical hlinkless.not_link h.locate).trans hpart.symm
  have hne := place_ne n' directory
  have hroot : n' :: directory ≠ [] := List.cons_ne_nil _ _
  have hrootPart : (n' ++ partialSuffix) :: directory ≠ [] := List.cons_ne_nil _ _
  have he := h.entry_eq
  obtain ⟨hdirectory, rfl⟩ := hmoved.eq_of_file he hne fun other hother hnumber =>
    hne (hlinkless'.single _ _ number (by rw [he]; rfl) (by rw [hother]; exact hnumber))
  have hfile : t'.entry? ((n' ++ partialSuffix) :: directory) ≠ some .directory := by simp [he]
  have hnew := entry?_move_target (e := .file number content) hfile hroot hstands.isDirectory
  have hguides : Guides t' ((t'.erase ((n' ++ partialSuffix) :: directory)).insert (n' :: directory)
      (.file number content)) := by
    refine (Guides.refl t').move (by simp [Turns, he]) ?_ _
    rintro (hd | ⟨target, htarget⟩)
    · exact hdirectory hd
    · exact hlinkless'.not_link _ target htarget
  constructor
  case linkless => exact hlinkless'.move he hrootPart hroot hne
  case guides => exact h.alike.forth.trans hguides
  case kept =>
    intro l hl hlPart
    rw [← houtput] at hl
    rw [← hpart] at hlPart
    refine .inl ?_
    rw [entry?_move_of_ne hfile hdirectory hlPart hl, h.entry?_of_ne hlinkless hlPart]
  case part_eq => exact hpart ▸ entry?_move_source hrootPart hroot hne
  case reads =>
    refine read_eq_ok_iff.mpr ⟨_, _, (hstands.mono hguides).locate_of_not_turns hshort hslash ?_,
      hnew, rfl⟩
    simp [Turns, hnew]

/-- Directories that were made before do not matter to what is placed. -/
theorem Placed.of_enlarged (h : Placed t here output part content t') (ht : Enlarged initial t) :
    Placed initial here output part content t' where
  linkless := h.linkless
  guides := ht.guides.trans h.guides
  kept l hl hlPart := by
    rcases h.kept l hl hlPart with hsame | ⟨hnone, hnew⟩
    · rw [hsame]
      exact ht l
    · rcases ht l with hsame | ⟨hmissing, hmade⟩
      · exact .inr ⟨hsame ▸ hnone, hnew⟩
      · simp [hmade] at hnone
  part_eq := h.part_eq
  reads := h.reads

end

theorem placed_of_publish {c : Config} {start next : FaultyHost} {summary : Summary}
    (hlinkless : start.tree.Linkless)
    (hrun : run (publish (m := StateM FaultyHost) c) start = (.ok summary, next)) :
    ∃ part, partialPath c.output = .ok part ∧ next.here = start.here ∧
      Placed start.tree start.here c.output part c.trace next.tree := by
  obtain ⟨hok, part, hpart⟩ : c.validate = .ok () ∧ ∃ part, partialPath c.output = .ok part := by
    by_contra hnot
    obtain ⟨e, herror⟩ := run_publish_of_error (c := c) (by tauto) start
    simp [herror] at hrun
  obtain ⟨outer, name, hs⟩ := partialPath_eq_ok hpart
  have hends := (enlarged_course start.tree start.here c.output part).ends_stages (fun _ => True)
    (fun _ _ => trivial) ((Config.validate_eq_ok_iff c).mp hok) (enlarged_refl start.tree)
  unfold Ends at hends
  rw [run_publish hok hpart] at hrun
  rcases hwrite : run (writeAndRename (m := StateM FaultyHost) c part).run start with
    ⟨e | dataLines, host⟩
  · simp [hwrite] at hrun
  · rw [hwrite] at hrun hends
    obtain ⟨-, rfl⟩ := Prod.mk.inj hrun
    obtain ⟨l, number, hmoves⟩ := hends
    obtain ⟨t, ⟨t', ht', hopened⟩, hrename⟩ := hmoves.moved
    exact ⟨part, hpart, hmoves.here_eq,
      (hopened.placed (ht'.linkless hlinkless) hs hrename).of_enlarged ht'⟩

/-! ## Publications in a row -/

inductive Succeed : FaultyHost → List Config → FaultyHost → Prop where
  | nil (host) : Succeed host [] host
  | cons {host next last c summary configs}
      (h : run (publish (m := StateM FaultyHost) c) host = (.ok summary, next))
      (hmore : Succeed next configs last) : Succeed host (c :: configs) last

def IsPartialOf (here : Location) (c d : Config) : Prop :=
  ∃ part, partialPath d.output = .ok part ∧ lexical here c.output = lexical here part

/-- Whether neither a file nor anything else that can be read is at a location. -/
def Unread (t : FileTree) (l : Location) : Prop :=
  t.entry? l = none ∨ t.entry? l = some .directory

section

variable {start next last : FaultyHost} {c d : Config} {configs : List Config} {summary : Summary}
  {l : Location}

/-! ### One more publication -/

/-- A trace stays published behind a publication with another output, unless that has its place for
the partial file. -/
theorem read_of_publish (hlinkless : start.tree.Linkless)
    (hrun : run (publish (m := StateM FaultyHost) d) start = (.ok summary, next))
    (hne : lexical start.here c.output ≠ lexical start.here d.output)
    (hpart : ¬ IsPartialOf start.here c d)
    (hread : start.tree.read start.here c.output = .ok c.trace) :
    next.tree.read start.here c.output = .ok c.trace := by
  obtain ⟨part, hpath, -, hplaced⟩ := placed_of_publish hlinkless hrun
  refine read_of_guides hplaced.guides (fun l e hlocate he => ?_) hread
  obtain rfl := locate_eq_lexical hlinkless.not_link hlocate
  rcases hplaced.kept _ hne fun heq => hpart ⟨part, hpath, heq⟩ with hsame | ⟨hnone, -⟩
  · rw [hsame, he]
  · simp [he] at hnone

/-- Only the output of a publication can be read that could not be read before. -/
theorem Unread.of_publish (h : Unread start.tree l) (hlinkless : start.tree.Linkless)
    (hrun : run (publish (m := StateM FaultyHost) d) start = (.ok summary, next))
    (hne : l ≠ lexical start.here d.output) : Unread next.tree l := by
  obtain ⟨part, -, -, hplaced⟩ := placed_of_publish hlinkless hrun
  by_cases hpart : l = lexical start.here part
  · exact .inl (hpart ▸ hplaced.part_eq)
  · rcases hplaced.kept l hne hpart with hsame | ⟨-, hnew⟩
    · rwa [Unread, hsame]
    · exact .inr hnew

theorem unread_of_isPartialOf (hlinkless : start.tree.Linkless)
    (hrun : run (publish (m := StateM FaultyHost) d) start = (.ok summary, next))
    (h : IsPartialOf start.here c d) : Unread next.tree (lexical start.here c.output) := by
  obtain ⟨part, hpath, heq⟩ := h
  obtain ⟨part', hpath', -, hplaced⟩ := placed_of_publish hlinkless hrun
  obtain rfl := Except.ok.inj (hpath.symm.trans hpath')
  exact .inl (heq ▸ hplaced.part_eq)

theorem Unread.read_ne_ok {t : FileTree} {here : Location} {p : Path} (hlinkless : t.Linkless)
    (h : Unread t (lexical here p)) (content : ByteArray) : t.read here p ≠ .ok content := by
  intro hread
  obtain ⟨l, e, hlocate, he, hcontent⟩ := read_eq_ok_iff.mp hread
  rw [locate_eq_lexical hlinkless.not_link hlocate] at he
  rcases h with hnone | hdirectory
  · simp [hnone] at he
  · obtain rfl := Option.some.inj (hdirectory.symm.trans he)
    simp [content?] at hcontent

/-! ### Any number of publications -/

theorem Succeed.here_eq (h : Succeed start configs last) (hlinkless : start.tree.Linkless) :
    last.here = start.here ∧ last.tree.Linkless := by
  induction h with
  | nil => exact ⟨rfl, hlinkless⟩
  | cons hrun _ ih =>
      obtain ⟨part, -, hhere, hplaced⟩ := placed_of_publish hlinkless hrun
      obtain ⟨hhere', hlinkless'⟩ := ih hplaced.linkless
      exact ⟨hhere'.trans hhere, hlinkless'⟩

theorem Succeed.of_append {before after : List Config}
    (h : Succeed start (before ++ after) last) :
    ∃ middle, Succeed start before middle ∧ Succeed middle after last := by
  induction before generalizing start with
  | nil => exact ⟨start, .nil start, h⟩
  | cons c before ih =>
      cases h with
      | cons hrun hmore =>
          obtain ⟨middle, hbefore, hafter⟩ := ih hmore
          exact ⟨middle, .cons hrun hbefore, hafter⟩

theorem Succeed.unread (h : Succeed start configs last) (hlinkless : start.tree.Linkless)
    (hunread : Unread start.tree l) (hne : ∀ d ∈ configs, l ≠ lexical start.here d.output) :
    Unread last.tree l := by
  induction h with
  | nil => exact hunread
  | cons hrun _ ih =>
      obtain ⟨part, -, hhere, hplaced⟩ := placed_of_publish hlinkless hrun
      obtain ⟨hne, hothers⟩ := List.forall_mem_cons.mp hne
      exact ih hplaced.linkless (hunread.of_publish hlinkless hrun hne) (hhere.symm ▸ hothers)

/-- The induction is on the publications: a trace that is taken away is not published again by
publications with other outputs. -/
theorem Succeed.read_iff (h : Succeed start configs last) (hlinkless : start.tree.Linkless)
    (hread : start.tree.read start.here c.output = .ok c.trace)
    (hne : ∀ d ∈ configs, lexical start.here c.output ≠ lexical start.here d.output) :
    last.tree.read start.here c.output = .ok c.trace ↔
      ∀ d ∈ configs, ¬ IsPartialOf start.here c d := by
  induction h with
  | nil => simpa using hread
  | @cons host next last d summary configs hrun hmore ih =>
      obtain ⟨part, -, hhere, hplaced⟩ := placed_of_publish hlinkless hrun
      obtain ⟨hne, hothers⟩ := List.forall_mem_cons.mp hne
      rw [List.forall_mem_cons]
      by_cases hpart : IsPartialOf host.here c d
      · refine iff_of_false ?_ fun hnot => hnot.1 hpart
        have hunread := unread_of_isPartialOf hlinkless hrun hpart
        have hlast := hmore.unread hplaced.linkless hunread (hhere.symm ▸ hothers)
        exact hlast.read_ne_ok (hmore.here_eq hplaced.linkless).2 _
      · have hnext := read_of_publish hlinkless hrun hne hpart hread
        rw [← hhere] at hnext hothers ⊢
        rw [ih hplaced.linkless hnext hothers]
        exact (and_iff_right (hhere.symm ▸ hpart)).symm

end

/-- After publications that all succeed, on a tree without links and with outputs that are pairwise
different files, an output holds the whole trace of its configuration just when it is not the
partial path of a later one. -/
theorem read_after_all_iff (start last : FaultyHost) (configs : List Config)
    (hlinkless : start.tree.Linkless) (h : Succeed start configs last)
    (hdistinct : configs.Pairwise fun c d =>
      lexical start.here c.output ≠ lexical start.here d.output)
    (before after : List Config) (c : Config) (hsplit : configs = before ++ c :: after) :
    last.tree.read start.here c.output = .ok c.trace ↔
      ∀ d ∈ after, ¬ IsPartialOf start.here c d := by
  subst hsplit
  obtain ⟨middle, hbefore, hcons⟩ := h.of_append
  obtain ⟨hhere, hlinkless'⟩ := hbefore.here_eq hlinkless
  cases hcons with
  | cons hrun hafter =>
      obtain ⟨part, -, hhere', hplaced⟩ := placed_of_publish hlinkless' hrun
      obtain ⟨-, hpairs, -⟩ := List.pairwise_append.mp hdistinct
      have hothers := (List.pairwise_cons.mp hpairs).1
      rw [← hhere, ← hhere']
      rw [← hhere, ← hhere'] at hothers
      have hread := hplaced.reads
      rw [← hhere'] at hread
      exact hafter.read_iff hplaced.linkless hread hothers

theorem Succeed.two {c d : Config} {start : FaultyHost} {summary summary' : Summary}
    (h : (run (publish (m := StateM FaultyHost) c) start).1 = .ok summary)
    (h' : (run (publish (m := StateM FaultyHost) d)
      (run (publish (m := StateM FaultyHost) c) start).2).1 = .ok summary') :
    Succeed start [c, d] (run (publish (m := StateM FaultyHost) d)
      (run (publish (m := StateM FaultyHost) c) start).2).2 :=
  .cons (Prod.ext h rfl) (.cons (Prod.ext h' rfl) (.nil _))

/-- The second output is the partial path of the first, which leads over a step back: in this order
both traces are kept. -/
theorem read_after_all_iff_partial_first :
    let c : Config :=
      { output := ⟨[0x64, 0x2F, 0x2E, 0x2E, 0x2F, 0x74]⟩, rowCount := 1, burstCount := 1,
        bankOrder := [3] }
    let d : Config := { c with output := ⟨[0x74] ++ partialSuffix⟩, rowCount := 2 }
    let start : FaultyHost := { tree := ⟨[]⟩, here := [], faults := fun _ => .none }
    let middle := (run (publish (m := StateM FaultyHost) c) start).2
    let last := (run (publish (m := StateM FaultyHost) d) middle).2
    start.tree.Linkless ∧ Succeed start [c, d] last ∧
      [c, d].Pairwise (fun c d => lexical start.here c.output ≠ lexical start.here d.output) ∧
      last.tree.read start.here c.output = .ok c.trace := by
  intro c d start middle last
  have hlinkless : start.tree.Linkless := linkless_of_entries (by simp [start]) (by simp [start])
  have hfirst : (run (publish (m := StateM FaultyHost) c) start).1 = .ok ⟨1, some c.output⟩ := by
    decide +kernel
  have hsecond : (run (publish (m := StateM FaultyHost) d)
      (run (publish (m := StateM FaultyHost) c) start).2).1 = .ok ⟨2, some d.output⟩ := by
    decide +kernel
  have hdistinct :
      [c, d].Pairwise fun c d => lexical start.here c.output ≠ lexical start.here d.output := by
    decide +kernel
  have hpath : partialPath d.output = .ok ⟨[0x74] ++ partialSuffix ++ partialSuffix⟩ := by
    decide +kernel
  have hpart : lexical start.here c.output ≠
      lexical start.here ⟨[0x74] ++ partialSuffix ++ partialSuffix⟩ := by decide +kernel
  clear_value c d start
  have hruns : Succeed start [c, d] last := .two hfirst hsecond
  refine ⟨hlinkless, hruns, hdistinct,
    (read_after_all_iff start last [c, d] hlinkless hruns hdistinct [] [d] c rfl).mpr ?_⟩
  rintro d' hd ⟨part, hpath', heq⟩
  obtain rfl := List.mem_singleton.mp hd
  obtain rfl := Except.ok.inj (hpath.symm.trans hpath')
  exact hpart heq

/-- The partial file of the second publication takes the place of the first output, which is then
renamed away. -/
theorem read_after_all_partial_last :
    let c : Config :=
      { output := ⟨[0x74] ++ partialSuffix⟩, rowCount := 1, burstCount := 1, bankOrder := [3] }
    let d : Config := { c with output := ⟨[0x74]⟩ }
    let start : FaultyHost := { tree := ⟨[]⟩, here := [], faults := fun _ => .none }
    let middle := (run (publish (m := StateM FaultyHost) c) start).2
    let last := (run (publish (m := StateM FaultyHost) d) middle).2
    start.tree.Linkless ∧ Succeed start [c, d] last ∧
      [c, d].Pairwise (fun c d => lexical start.here c.output ≠ lexical start.here d.output) ∧
      middle.tree.read start.here c.output = .ok c.trace ∧
      last.tree.read start.here c.output = .error .notFound ∧
      last.tree.read start.here c.output ≠ .ok c.trace := by
  intro c d start middle last
  have hlinkless : start.tree.Linkless := linkless_of_entries (by simp [start]) (by simp [start])
  have hfirst : (run (publish (m := StateM FaultyHost) c) start).1 = .ok ⟨1, some c.output⟩ := by
    decide +kernel
  have hsecond : (run (publish (m := StateM FaultyHost) d)
      (run (publish (m := StateM FaultyHost) c) start).2).1 = .ok ⟨1, some d.output⟩ := by
    decide +kernel
  have hdistinct :
      [c, d].Pairwise fun c d => lexical start.here c.output ≠ lexical start.here d.output := by
    decide +kernel
  have hread : middle.tree.read start.here c.output = .ok c.trace := by decide +kernel
  have hlost : last.tree.read start.here c.output = .error .notFound := by decide +kernel
  exact ⟨hlinkless, .two hfirst hsecond, hdistinct, hread, hlost, by rw [hlost]; simp⟩

end BankTrace.Publication
