import BankTrace.Proofs.Publication.Frame
import BankTrace.Proofs.Publication.Outcome

/-!
# Leftovers

What an earlier publication has left at the output or at the partial path, finished or cut off at
any step, makes no difference to a publication that no fault meets.
-/

namespace BankTrace

/-! ## Trees with the same files -/

namespace FileTree

/-- Whether two trees have the same entry at a location, but for the number of a file. -/
def SameAt (t t' : FileTree) (l : Location) : Prop :=
  (t'.entry? l).map (Entry.renumber fun _ => 0) = (t.entry? l).map (Entry.renumber fun _ => 0)

variable {t t' t'' : FileTree} {l : Location} {number number' : Nat} {content : ByteArray}

/-- Two trees without links that have the same files. -/
structure SameFiles (t t' : FileTree) : Prop where
  linkless : t.Linkless
  linkless' : t'.Linkless
  sameAt : ∀ l, SameAt t t' l

theorem sameAt_of_eq (h : t'.entry? l = t.entry? l) : SameAt t t' l := by rw [SameAt, h]

theorem sameAt_of_file (h : t.entry? l = some (.file number content))
    (h' : t'.entry? l = some (.file number' content)) : SameAt t t' l := by
  rw [SameAt, h, h']
  rfl

theorem SameAt.entry?_eq_none_iff (h : SameAt t t' l) : t'.entry? l = none ↔ t.entry? l = none := by
  rw [← Option.map_eq_none_iff, h, Option.map_eq_none_iff]

theorem SameAt.directory_iff (h : SameAt t t' l) :
    t'.entry? l = some .directory ↔ t.entry? l = some .directory := by
  have hdirectory (e : Option Entry) : e = some .directory ↔
      e.map (Entry.renumber fun _ => 0) = some .directory := by
    cases e with
    | none => simp
    | some e => cases e <;> simp [Entry.renumber]
  rw [hdirectory, h, ← hdirectory]

end FileTree

namespace Publication

open World (run)
open FileTree

/-! ## Trees that differ in leftovers -/

/-- Whether a second tree differs from a first one at the output and at the partial path, and by
directories around the output that it has and the first one has not. -/
def Differs (here : Location) (output part : Path) (t t' : FileTree) : Prop :=
  ∀ l, l ∉ [direct here output, direct here part] → SameAt t t' l ∨
    Around here output l ∧ t.entry? l = none ∧ t'.entry? l = some .directory

section

variable {t t' u u' : FileTree} {here l : Location} {output part : Path} {outer : List Name}
  {name : Name} {trace : ByteArray}

theorem Framed.differs (h : Framed t here output [direct here output, direct here part] t') :
    Differs here output part t t' :=
  fun l hl => (h l hl).imp_left sameAt_of_eq

theorem Differs.vacant_iff (h : Differs here output part t t')
    (hl : l ∉ [direct here output, direct here part]) : t'.Vacant l ↔ t.Vacant l := by
  refine and_congr_right fun _ => ?_
  rcases h l hl with hsame | ⟨-, hnone, hnew⟩
  · rw [hsame.entry?_eq_none_iff, hsame.directory_iff]
  · simp [hnone, hnew]

/-- A way around the output can be made in one tree just when it can be made in the other. -/
theorem Differs.free_iff (h : Differs here output part t t') (hs : Sibling output part outer name)
    {front : List Name} (hfront : front <+: outer) :
    t'.Free (start here output) front ↔ t.Free (start here output) front := by
  have hapart := Along.of_prefix (hs.around_ne here) hfront
  have hne : Along (fun l => t'.Vacant l ↔ t.Vacant l) (start here output) front :=
    hapart.imp fun l hl => h.vacant_iff (by simpa using hl.symm)
  constructor <;> intro hfree
  · exact (hfree.and hne).imp fun l hl => hl.2.mp hl.1
  · exact (hfree.and hne).imp fun l hl => hl.2.mpr hl.1

theorem Differs.accepts_iff (h : Differs here output part t t')
    (hs : Sibling output part outer name) :
    Accepts t' here output part ↔ Accepts t here output part := by
  have hfree := h.free_iff hs (List.prefix_refl outer)
  rw [← hs.dropLast_output] at hfree
  exact ⟨fun haccepts => ⟨hfree.mp haccepts.free, haccepts.fault, haccepts.short⟩,
    fun haccepts => ⟨hfree.mpr haccepts.free, haccepts.fault, haccepts.short⟩⟩

theorem onFront_around (h : t.OnFront (start here output) output.steps.dropLast l) :
    Around here output l := by
  obtain ⟨front, hne, hpre, -, rfl⟩ := h
  exact around_iff.mpr ⟨front, hne, hpre, rfl⟩

theorem Differs.onFront_iff (h : Differs here output part t t')
    (hs : Sibling output part outer name) :
    t'.OnFront (start here output) output.steps.dropLast l ↔
      t.OnFront (start here output) output.steps.dropLast l := by
  rw [hs.dropLast_output]
  constructor <;> rintro ⟨front, hne, hpre, hfree, rfl⟩
  · exact ⟨front, hne, hpre, (h.free_iff hs hpre).mp hfree, rfl⟩
  · exact ⟨front, hne, hpre, (h.free_iff hs hpre).mpr hfree, rfl⟩

/-- The directories that are made do not depend on how many of them there were before. -/
theorem Differs.prepared (h : Differs here output part t t') (hs : Sibling output part outer name)
    (hprepared : Prepared t here output u) (hprepared' : Prepared t' here output u')
    (hl : l ∉ [direct here output, direct here part]) :
    SameAt u u' l ∨ t.entry? l = none ∧ t'.entry? l = some .directory ∧ u.entry? l = none ∧
      u'.entry? l = some .directory := by
  have hkept (h₁ : u.entry? l = t.entry? l) (h₂ : u'.entry? l = t'.entry? l) :
      SameAt u u' l ∨ t.entry? l = none ∧ t'.entry? l = some .directory ∧ u.entry? l = none ∧
        u'.entry? l = some .directory := by
    rw [SameAt, h₁, h₂]
    exact (h l hl).imp_right fun hnew => ⟨hnew.2.1, hnew.2.2, hnew.2.1, hnew.2.2⟩
  by_cases hask : Askable output
  · by_cases hfront : t.OnFront (start here output) output.steps.dropLast l
    · have h₁ := (hprepared.made hask).made l hfront
      have h₂ := (hprepared'.made hask).made l ((h.onFront_iff hs).mpr hfront)
      exact .inl (sameAt_of_eq (h₂.trans h₁.symm))
    · exact hkept ((hprepared.made hask).kept l hfront)
        ((hprepared'.made hask).kept l (mt (h.onFront_iff hs).mp hfront))
  · exact hkept (by rw [hprepared.kept hask]) (by rw [hprepared'.kept hask])

/-! ### What is left of both -/

/-- What publications that succeed leave has the same files. -/
theorem Differs.sameAt_of_published (h : Differs here output part t t')
    (hpath : partialPath output = .ok part) (hleaves : Leaves t here output part trace u)
    (hleaves' : Leaves t' here output part trace u') (haccepts : Accepts t here output part)
    (hmovable : Movable output) (l : Location) : SameAt u u' l := by
  obtain ⟨outer, name, hs⟩ := partialPath_eq_ok hpath
  have haccepts' := (h.accepts_iff hs).mpr haccepts
  by_cases hl : l = direct here output
  · subst hl
    obtain ⟨number, hfile⟩ := hleaves.published haccepts hmovable
    obtain ⟨number', hfile'⟩ := hleaves'.published haccepts' hmovable
    exact sameAt_of_file hfile hfile'
  by_cases hlPart : l = direct here part
  · subst hlPart
    exact sameAt_of_eq ((hleaves'.removed haccepts').trans (hleaves.removed haccepts).symm)
  obtain ⟨p₁, hprepared, hsame⟩ := hleaves.prepared
  obtain ⟨p₂, hprepared', hsame'⟩ := hleaves'.prepared
  rw [SameAt, hsame l hl hlPart, hsame' l hl hlPart]
  refine (h.prepared hs hprepared hprepared' (by simp [hl, hlPart])).resolve_right ?_
  rintro ⟨hnone, hdirectory, hp₁, -⟩
  -- The directory is around the output, so it is made in the first tree as well.
  have haround : Around here output l := by
    rcases h l (by simp [hl, hlPart]) with hsameAt | hnew
    · rw [hsameAt.directory_iff] at hdirectory
      simp [hnone] at hdirectory
    · exact hnew.1
  obtain ⟨front, hne, hpre, rfl⟩ := around_iff.mp haround
  have hmade := (hprepared.made (askable_of_pathFault? hpath haccepts.fault)).made _
    ⟨front, hne, hpre, haccepts.free.of_prefix hpre, rfl⟩
  simp [hp₁] at hmade

/-- What publications leave has the same files but for directories that one tree had before, if the
trees were the same at the paths where the publications change nothing. -/
theorem Differs.sameAt_or (h : Differs here output part t t')
    (hpath : partialPath output = .ok part) (hleaves : Leaves t here output part trace u)
    (hleaves' : Leaves t' here output part trace u')
    (hpart : ¬ Accepts t here output part → SameAt t t' (direct here part))
    (houtput : ¬ (Accepts t here output part ∧ Movable output) →
      SameAt t t' (direct here output)) (l : Location) :
    SameAt u u' l ∨ t.entry? l = none ∧ t'.entry? l = some .directory ∧ u.entry? l = none ∧
      u'.entry? l = some .directory := by
  obtain ⟨outer, name, hs⟩ := partialPath_eq_ok hpath
  have haccepts := h.accepts_iff hs
  by_cases hl : l = direct here output
  · subst hl
    by_cases hboth : Accepts t here output part ∧ Movable output
    · exact .inl (h.sameAt_of_published hpath hleaves hleaves' hboth.1 hboth.2 _)
    · have hnot : ¬ (Accepts t' here output part ∧ Movable output) := by rwa [haccepts]
      rw [SameAt, hleaves.unpublished hboth, hleaves'.unpublished hnot]
      exact .inl (houtput hboth)
  by_cases hlPart : l = direct here part
  · subst hlPart
    by_cases hyes : Accepts t here output part
    · exact .inl (sameAt_of_eq
        ((hleaves'.removed (haccepts.mpr hyes)).trans (hleaves.removed hyes).symm))
    · rw [SameAt, hleaves.untouched hyes, hleaves'.untouched (mt haccepts.mp hyes)]
      exact .inl (hpart hyes)
  obtain ⟨p₁, hprepared, hsame⟩ := hleaves.prepared
  obtain ⟨p₂, hprepared', hsame'⟩ := hleaves'.prepared
  rw [SameAt, hsame l hl hlPart, hsame' l hl hlPart]
  exact h.prepared hs hprepared hprepared' (by simp [hl, hlPart])

end

/-! ## Trees behind the steps of a publication -/

/-- A tree that a publication leaves behind one of its steps, whatever faults it met. -/
structure Interrupted (t : FileTree) (here : Location) (output part : Path) (t' : FileTree) :
    Prop where
  ground : Ground t' here output part
  frame : Framed t here output [direct here output, direct here part] t'
  part_eq : ¬ Accepts t here output part →
    t'.entry? (direct here part) = t.entry? (direct here part)
  output_eq : ¬ (Accepts t here output part ∧ Movable output) →
    t'.entry? (direct here output) = t.entry? (direct here output)

section

variable {t u t' t'' : FileTree} {here l : Location} {output part : Path} {outer : List Name}
  {name : Name} {number : Nat} {content : ByteArray}

theorem Framed.enlarged (h : Framed t here output [] t') : Enlarged t t' :=
  fun l => (h l List.not_mem_nil).imp_right And.right

theorem Sibling.start_not_mem (hs : Sibling output part outer name) (here : Location) :
    start here output ∉ [direct here output, direct here part] := by
  intro hmem
  have hlength : (start here output).length = outer.length + (start here output).length + 1 := by
    rcases List.mem_pair.mp hmem with heq | heq
    · exact (congrArg List.length heq).trans (hs.length_direct (by simp))
    · exact (congrArg List.length heq).trans (hs.length_direct (by simp))
  omega

theorem Framed.begins (h : Framed t here output [direct here output, direct here part] t')
    (hs : Sibling output part outer name)
    (hbegins : t.entry? (start here output) = some .directory) :
    t'.entry? (start here output) = some .directory := by
  rcases h _ (hs.start_not_mem here) with hsame | ⟨-, hnone, -⟩
  · rw [hsame, hbegins]
  · simp [hbegins] at hnone

theorem Framed.ground (h : Framed t here output [] t') (hground : Ground t here output part) :
    Ground t' here output part := by
  obtain ⟨outer, name, hs⟩ := partialPath_eq_ok hground.path
  have houtput := hground.at_output
  have hpart := hground.at_part
  rw [Loose, ← (h.mono (List.nil_subset _)).entry?_output hs] at houtput
  rw [Loose, ← h.entry?_part hs] at hpart
  exact ⟨hground.path, hground.back, h.enlarged.entry? hground.begins,
    h.enlarged.linkless hground.linkless, houtput, hpart⟩

/-- Before the partial file is opened only directories are made. -/
theorem interrupted_of_framed (hground : Ground t here output part)
    (h : Framed t here output [] t') : Interrupted t here output part t' := by
  obtain ⟨outer, name, hs⟩ := partialPath_eq_ok hground.path
  exact ⟨h.ground hground, h.mono (List.nil_subset _), fun _ => h.entry?_part hs,
    fun _ => (h.mono (List.nil_subset _)).entry?_output hs⟩

/-- While the partial file is written nothing else changes. -/
theorem FilledPart.interrupted (h : FilledPart u here output part number content t')
    (hground : Ground t here output part) (hframe : Framed t here output [] u) :
    Interrupted t here output part t' := by
  obtain ⟨outer, name, hs⟩ := partialPath_eq_ok hground.path
  have haccepts := (accepts_iff_of_enlarged hframe.enlarged).mp h.accepts
  have hkept (l : Location) (hl : l ≠ direct here part) : t'.entry? l = u.entry? l :=
    h.opened.entry?_of_ne h.ground.linkless hl
  have hframe' : Framed t here output [direct here output, direct here part] t' :=
    (hframe.mono (List.nil_subset _)).of_entry?_eq fun l hl => hkept l (by simp_all)
  have houtput : t'.entry? (direct here output) = t.entry? (direct here output) :=
    (hkept _ (hs.direct_ne here).symm).trans
      ((hframe.mono (List.nil_subset _)).entry?_output hs)
  refine ⟨⟨hground.path, hground.back, hframe'.begins hs hground.begins, h.linkless, ?_,
    .inr ⟨number, content, h.opened.entry_eq⟩⟩, hframe', fun hnot => absurd haccepts hnot,
    fun _ => houtput⟩
  rw [Loose, houtput]
  exact hground.at_output

/-- Once the file is moved the publication has done its work. -/
theorem FilledPart.interrupted_of_rename (h : FilledPart u here output part number content t')
    (hground : Ground t here output part) (hframe : Framed t here output [] u)
    (hrename : t'.rename here part output = .ok t'') : Interrupted t here output part t'' := by
  obtain ⟨outer, name, hs⟩ := partialPath_eq_ok hground.path
  have haccepts := (accepts_iff_of_enlarged hframe.enlarged).mp h.accepts
  have hmovable := h.movable_of_rename hrename
  have hinterrupted := h.interrupted hground hframe
  obtain rfl := Except.ok.inj ((h.rename_eq hmovable).symm.trans hrename)
  have hne := hs.direct_ne here
  have hroot : direct here output ≠ [] := by simp [hs.direct_output]
  have hroot' : direct here part ≠ [] := by simp [hs.direct_part]
  have hfile : t'.entry? (direct here part) ≠ some .directory := by simp [h.opened.entry_eq]
  have htail : t'.entry? (direct here output).tail = some .directory :=
    hs.tail_output here ▸ h.clear'.ends (h.opened.alike.forth.directory h.ground.begins)
  have hframe' : Framed t here output [direct here output, direct here part]
      ((t'.erase (direct here part)).insert (direct here output) (.file number content)) := by
    refine hinterrupted.frame.of_entry?_eq fun l hl => ?_
    obtain ⟨hl, hlPart⟩ : l ≠ direct here output ∧ l ≠ direct here part := by simpa using hl
    exact entry?_move_of_ne hfile hinterrupted.ground.at_output.ne_directory hlPart hl
  refine ⟨⟨hground.path, hground.back, hframe'.begins hs hground.begins,
    h.linkless.move h.opened.entry_eq hroot' hroot hne,
    .inr ⟨number, content, entry?_move_target hfile hroot htail⟩,
    .inl (entry?_move_source hroot' hroot hne)⟩, hframe',
    fun hnot => absurd haccepts hnot, fun hnot => absurd ⟨haccepts, hmovable⟩ hnot⟩

theorem Interrupted.accepts_iff (h : Interrupted t here output part t') :
    Accepts t' here output part ↔ Accepts t here output part := by
  obtain ⟨outer, name, hs⟩ := partialPath_eq_ok h.ground.path
  exact h.frame.differs.accepts_iff hs

theorem Interrupted.remove (h : Interrupted t here output part t')
    (hremove : t'.remove here part = .ok t'') : Interrupted t here output part t'' := by
  obtain ⟨outer, name, hs⟩ := partialPath_eq_ok h.ground.path
  have haccepts := h.accepts_iff.mp (h.ground.accepts_of_remove hremove)
  obtain ⟨hroot, hdirectory, rfl⟩ := remove_eq_ok (hs.dotDot_not_mem h.ground.back)
    (Along.of_length fun l _ => h.ground.linkless.not_link l) hremove
  have hkept (l : Location) (hl : l ≠ direct here part) :
      entry? (t'.erase (direct here part)) l = t'.entry? l := entry?_erase_of_ne hdirectory hl
  have hframe : Framed t here output [direct here output, direct here part]
      (t'.erase (direct here part)) :=
    h.frame.of_entry?_eq fun l hl => hkept l (by simp_all)
  have houtput := hkept _ (hs.direct_ne here).symm
  refine ⟨⟨h.ground.path, h.ground.back, ?_, h.ground.linkless.erase hroot, ?_,
    .inl (entry?_erase_self hroot)⟩, hframe, fun hnot => absurd haccepts hnot, fun hnot => ?_⟩
  · rw [hkept _ fun heq => hs.start_not_mem here (by simp [heq])]
    exact h.ground.begins
  · rw [Loose, houtput]
    exact h.ground.at_output
  · rw [houtput]
    exact h.output_eq hnot

theorem Ground.filled_of_create (h : Ground t here output part)
    (hcreate : t.create here part = .ok (.file number, t')) :
    FilledPart t here output part number .empty t' := by
  obtain ⟨outer, name, hs⟩ := partialPath_eq_ok h.path
  obtain ⟨haccepts, hclear, hcreated⟩ := h.accepts_of_create hcreate
  have hlocate := (h.approach_part haccepts.fault).locate_eq (h.clear_part hclear)
    (by simp [hs.part_steps]) haccepts.short hs.slash h.linkless.not_link .create
  exact ⟨h, haccepts, hclear, .of_created hlocate hcreated⟩

/-- The steps of a publication lead through trees that may be left. -/
theorem Ground.interrupted_course (h : Ground t here output part) :
    Course here output part (Framed t here output [])
      (fun l number content t' => l = direct here part ∧
        ∃ u, Framed t here output [] u ∧ FilledPart u here output part number content t')
      (Interrupted t here output part) where
  makeDirectory p u u' hsteps hrooted hframe hmake :=
    hframe.makeDirectory h.linkless h.back hsteps hrooted hmake
  create u u' number hframe hcreate :=
    ⟨_, rfl, u, hframe, (hframe.ground h).filled_of_create hcreate⟩
  device u u' hframe hcreate := by
    have hground := hframe.ground h
    obtain ⟨-, -, hcreated⟩ := hground.accepts_of_create hcreate
    cases hcreated with
    | full he => rcases hground.at_part with hnone | ⟨number, content, hfile⟩ <;> simp_all
  write u' l number content change hfilled := by
    obtain ⟨hl, u, hframe, hfilled⟩ := hfilled
    exact ⟨hl, u, hframe, hfilled.ground, hfilled.accepts, hfilled.clear,
      hfilled.opened.changeFile change⟩
  entry_eq u' l number content hfilled := by
    obtain ⟨rfl, u, -, hfilled⟩ := hfilled
    exact hfilled.opened.entry_eq
  failed_of_prepared u hframe := interrupted_of_framed h hframe
  failed_of_filled u' l number content hfilled := by
    obtain ⟨-, u, hframe, hfilled⟩ := hfilled
    exact hfilled.interrupted h hframe

theorem Leaves.framed (h : Leaves t here output part content t') :
    Framed t here output [direct here output, direct here part] t' := by
  intro l hl
  obtain ⟨hl, hlPart⟩ : l ≠ direct here output ∧ l ≠ direct here part := by simpa using hl
  obtain ⟨u, hprepared, hsame⟩ := h.prepared
  rw [hsame l hl hlPart]
  by_cases hask : Askable output
  · exact ((hprepared.made hask).entry?_eq_or l).imp_right fun hnew =>
      ⟨onFront_around hnew.1, hnew.2.1, hnew.2.2⟩
  · exact .inl (by rw [hprepared.kept hask])

/-- What a publication without faults leaves is no worse than what one leaves that is cut off. -/
theorem Leaves.interrupted (h : Leaves t here output part content t')
    (hground : Ground t here output part) : Interrupted t here output part t' := by
  obtain ⟨outer, name, hs⟩ := partialPath_eq_ok hground.path
  have hframe := h.framed
  refine ⟨⟨hground.path, hground.back, hframe.begins hs hground.begins, h.linkless, ?_, ?_⟩, hframe,
    h.untouched, h.unpublished⟩
  · by_cases hboth : Accepts t here output part ∧ Movable output
    · obtain ⟨number, hfile⟩ := h.published hboth.1 hboth.2
      exact .inr ⟨number, content, hfile⟩
    · rw [Loose, h.unpublished hboth]
      exact hground.at_output
  · by_cases haccepts : Accepts t here output part
    · exact .inl (h.removed haccepts)
    · rw [Loose, h.untouched haccepts]
      exact hground.at_part

end

/-- Whatever faults meet a publication, every step leaves a tree that may be left. -/
theorem interrupted_of_step {c : Config} {part : Path} {host : FaultyHost}
    (hok : c.validate = .ok ()) (hground : Ground host.tree host.here c.output part)
    (hhistory : host.history = []) {step : Step}
    (hstep : step ∈ (run (publish (m := StateM FaultyHost) c) host).2.history) :
    Interrupted host.tree host.here c.output part step.tree := by
  have hends := hground.interrupted_course.ends_stages
    (Interrupted host.tree host.here c.output part) (fun _ h => h)
    ((Config.validate_eq_ok_iff c).mp hok) (framed_refl host.tree host.here c.output [])
  have hseen {step : Step} (h : step ∈ host.history ∨
      Interrupted host.tree host.here c.output part step.tree) :
      Interrupted host.tree host.here c.output part step.tree :=
    h.resolve_left (by simp [hhistory])
  unfold World.Ends at hends
  rw [run_publish hok hground.path] at hstep
  rcases hrun : run (writeAndRename (m := StateM FaultyHost) c part).run host with
    ⟨e | dataLines, last⟩
  · rw [hrun] at hends hstep
    obtain ⟨succeeded, tree, hremove, hremoved, hkept⟩ := run_removePartial part last
    dsimp only at hstep
    rw [hremove] at hstep
    rcases List.mem_cons.mp hstep with rfl | hstep
    · cases succeeded with
      | true => exact hends.tree.remove (hends.here_eq ▸ hremoved rfl)
      | false => exact (hkept rfl).symm ▸ hends.tree
    · exact hseen (hends.passed step hstep)
  · rw [hrun] at hends hstep
    obtain ⟨l, number, hmoves⟩ := hends
    obtain ⟨t, ⟨-, u, hframe, hfilled⟩, hrename⟩ := hmoves.moved
    obtain ⟨latest, older, hhistory', htree, holder⟩ := hmoves.passed
    dsimp only at hstep
    rw [hhistory'] at hstep
    rcases List.mem_cons.mp hstep with rfl | hstep
    · rw [htree]
      exact hfilled.interrupted_of_rename hground hframe hrename
    · exact hseen (holder step hstep)

/-! ## Whole publications -/

/-- A publication on a tree that no fault meets: what it gives and the tree it leaves. -/
def undisturbed (c : Config) (here : Location) (t : FileTree) :
    Except Error Summary × FileTree :=
  let out := run (publish (m := StateM FaultyHost) c) { tree := t, here, faults := fun _ => .none }
  (out.1, out.2.tree)

section

variable {c : Config} {part : Path} {here : Location} {t t' : FileTree}

theorem undisturbed_spec (hok : c.validate = .ok ()) (hground : Ground t here c.output part) :
    Leaves t here c.output part c.trace (undisturbed c here t).2 ∧
      ((undisturbed c here t).1 = .ok ⟨c.lineCount, some c.output⟩ ∧
          (Accepts t here c.output part ∧ Movable c.output) ∨
        (∃ e, (undisturbed c here t).1 = .error e) ∧
          ¬ (Accepts t here c.output part ∧ Movable c.output)) := by
  have hstart : Calm here t { tree := t, here, faults := fun _ => .none } :=
    ⟨rfl, rfl, fun _ => rfl⟩
  obtain ⟨result, host, t', hrun, hcalm, hleaves, hresult⟩ := run_publish_calm hok hstart hground
  simp only [undisturbed, hrun, hcalm.tree_eq]
  exact ⟨hleaves, hresult⟩

/-- Whether two publications that no fault meets end alike: both fail, or both give the same and
leave the same files. -/
structure EndAlike (c : Config) (here : Location) (t t' : FileTree) : Prop where
  isOk_eq : (undisturbed c here t').1.isOk = (undisturbed c here t).1.isOk
  same : ∀ summary, (undisturbed c here t).1 = .ok summary →
    (undisturbed c here t').1 = .ok summary ∧
      SameFiles (undisturbed c here t).2 (undisturbed c here t').2

theorem endAlike_of_differs (hok : c.validate = .ok ()) (hground : Ground t here c.output part)
    (hground' : Ground t' here c.output part) (h : Differs here c.output part t t') :
    EndAlike c here t t' := by
  obtain ⟨outer, name, hs⟩ := partialPath_eq_ok hground.path
  obtain ⟨hleaves, hresult⟩ := undisturbed_spec hok hground
  obtain ⟨hleaves', hresult'⟩ := undisturbed_spec hok hground'
  rw [h.accepts_iff hs] at hresult'
  rcases hresult with ⟨hresult, hboth⟩ | ⟨⟨e, hresult⟩, hnot⟩
  · have hresult' := (hresult'.resolve_right fun hnot => hnot.2 hboth).1
    refine ⟨by rw [hresult, hresult'], fun summary hsummary => ⟨?_, ?_⟩⟩
    · rw [hresult', ← hsummary, hresult]
    · exact ⟨hleaves.linkless, hleaves'.linkless,
        h.sameAt_of_published hground.path hleaves hleaves' hboth.1 hboth.2⟩
  · obtain ⟨e', hresult'⟩ := (hresult'.resolve_left fun hyes => hnot hyes.2).1
    refine ⟨by rw [hresult, hresult']; rfl, fun summary hsummary => ?_⟩
    simp [hresult] at hsummary

end

/-- Leftovers make no difference. On two trees without links that differ at most in files at the
output and at the partial path, publications that no fault meets end alike. So does a second
publication on what the first one left, and it leaves the same files. And so does a publication on
what any other one left behind any of its steps, whatever faults it met; then even after a failure
nothing is different but directories that the other one made. -/
theorem publish_over_leftovers (c : Config) (part : Path) (here : Location) (t t' : FileTree)
    (hok : c.validate = .ok ()) (hback : .parent ∉ c.output.components)
    (hpart : partialPath c.output = .ok part) (hlinkless : t.Linkless) (hlinkless' : t'.Linkless)
    (hhere : t.entry? here = some .directory)
    (hloose : ∀ p ∈ [c.output, part], Loose t (direct here p) ∧ Loose t' (direct here p))
    (hsame : ∀ l, l ∉ [direct here c.output, direct here part] → SameAt t t' l) :
    EndAlike c here t t' ∧
    (∀ summary, (undisturbed c here t).1 = .ok summary →
      (undisturbed c here (undisturbed c here t).2).1 = .ok summary ∧
        SameFiles (undisturbed c here t).2 (undisturbed c here (undisturbed c here t).2).2) ∧
    ∀ faults, ∀ step ∈
        (run (publish (m := StateM FaultyHost) c) { tree := t, here, faults }).2.history,
      EndAlike c here t step.tree ∧
      ∀ l, SameAt (undisturbed c here t).2 (undisturbed c here step.tree).2 l ∨
        t.entry? l = none ∧ step.tree.entry? l = some .directory ∧
          FileTree.entry? (undisturbed c here t).2 l = none ∧
          FileTree.entry? (undisturbed c here step.tree).2 l = some .directory := by
  obtain ⟨outer, name, hs⟩ := partialPath_eq_ok hpart
  have hback' := Path.dotDot_not_mem_steps hback
  have hbegins : t.entry? (start here c.output) = some .directory := by
    unfold start
    split
    · exact entry?_root t
    · exact hhere
  have hbegins' : t'.entry? (start here c.output) = some .directory :=
    (hsame _ (hs.start_not_mem here)).directory_iff.mpr hbegins
  have hground : Ground t here c.output part :=
    ⟨hpart, hback', hbegins, hlinkless, (hloose _ (by simp)).1, (hloose _ (by simp)).1⟩
  have hground' : Ground t' here c.output part :=
    ⟨hpart, hback', hbegins', hlinkless', (hloose _ (by simp)).2, (hloose _ (by simp)).2⟩
  have hleaves := (undisturbed_spec hok hground).1
  refine ⟨endAlike_of_differs hok hground hground' fun l hl => .inl (hsame l hl),
    fun summary hsummary => ?_, fun faults step hstep => ?_⟩
  · have hleft := hleaves.interrupted hground
    exact (endAlike_of_differs hok hground hleft.ground hleft.frame.differs).same summary hsummary
  · have hleft : Interrupted t here c.output part step.tree :=
      interrupted_of_step hok hground rfl hstep
    have hleaves' := (undisturbed_spec hok hleft.ground).1
    exact ⟨endAlike_of_differs hok hground hleft.ground hleft.frame.differs, fun l =>
      hleft.frame.differs.sameAt_or hpart hleaves hleaves'
        (fun hnot => sameAt_of_eq (hleft.part_eq hnot))
        (fun hnot => sameAt_of_eq (hleft.output_eq hnot)) l⟩

/-- A partial file is left that is longer than the trace, and another publication is cut off in the
midst of its line. -/
theorem publish_over_leftovers_longer :
    let c : Config :=
      { output := ⟨[0x64, 0x2F, 0x74]⟩, rowCount := 1, burstCount := 1, bankOrder := [3] }
    let part : Path := ⟨[0x64, 0x2F, 0x74] ++ partialSuffix⟩
    let t : FileTree := ⟨[([[0x64]], .directory)]⟩
    let t' : FileTree := ⟨[([[0x64]], .directory), ([[0x74], [0x64]], .file 0 ⟨#[0x6F]⟩),
      ([[0x74] ++ partialSuffix, [0x64]], .file 1 (c.trace ++ c.trace))]⟩
    let faults : Nat → Fault := fun i => if i = 2 then .failure .noSpace 5 else .none
    let cut := run (publish (m := StateM FaultyHost) c) { tree := t, here := [], faults }
    (undisturbed c [] t).1 = .ok ⟨1, some c.output⟩ ∧
    (undisturbed c [] t').1 = .ok ⟨1, some c.output⟩ ∧
      SameFiles (undisturbed c [] t).2 (undisturbed c [] t').2 ∧
      .ok (c.trace.extract 0 5) ∈ cut.2.history.map (fun step => step.tree.read [] part) ∧
      ∀ step ∈ cut.2.history, EndAlike c [] t step.tree := by
  intro c part t t' faults cut
  have hok : c.validate = .ok () := by decide +kernel
  have hback : .parent ∉ c.output.components := by decide
  have hpart : partialPath c.output = .ok part := by decide +kernel
  have hlinkless : t.Linkless := linkless_of_entries (by simp [t]) (by decide)
  have hlinkless' : t'.Linkless := linkless_of_entries (by simp [t']) (by decide)
  have hhere : t.entry? [] = some .directory := rfl
  have hdirect : direct [] c.output = [[0x74], [0x64]] := by decide +kernel
  have hdirect' : direct [] part = [[0x74] ++ partialSuffix, [0x64]] := by decide +kernel
  have hloose : ∀ p ∈ [c.output, part], Loose t (direct [] p) ∧ Loose t' (direct [] p) := by
    intro p hp
    rcases List.mem_pair.mp hp with rfl | rfl
    · rw [hdirect]
      exact ⟨.inl rfl, .inr ⟨0, _, rfl⟩⟩
    · rw [hdirect']
      exact ⟨.inl rfl, .inr ⟨1, _, rfl⟩⟩
  have hsame : ∀ l, l ∉ [direct [] c.output, direct [] part] → SameAt t t' l := by
    intro l hl
    rw [hdirect, hdirect'] at hl
    refine sameAt_of_eq (entry?_eq_of_lookup (fun l hl => ?_) ?_ hl)
    · obtain ⟨hl, hlPart⟩ := not_or.mp (mt List.mem_pair.mpr hl)
      simp only [t, t', List.lookup_cons, beq_eq_false_iff_ne.mpr hl,
        beq_eq_false_iff_ne.mpr hlPart]
    · intro l hl
      rcases List.mem_pair.mp hl with rfl | rfl <;> exact iff_of_false (by nofun) (by nofun)
  have hresult : (undisturbed c [] t).1 = .ok ⟨1, some c.output⟩ := by decide +kernel
  have hcut : .ok (c.trace.extract 0 5) ∈
      (run (publish (m := StateM FaultyHost) c) { tree := t, here := [], faults }).2.history.map
        (fun step => step.tree.read [] part) := by
    decide +kernel
  clear_value c part t t' faults
  obtain ⟨halike, -, hlater⟩ :=
    publish_over_leftovers c part [] t t' hok hback hpart hlinkless hlinkless' hhere hloose hsame
  obtain ⟨hresult', hfiles⟩ := halike.same _ hresult
  exact ⟨hresult, hresult', hfiles, hcut, fun step hstep => (hlater faults step hstep).1⟩

end Publication

end BankTrace
