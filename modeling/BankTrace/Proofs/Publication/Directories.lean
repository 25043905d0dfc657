import BankTrace.Proofs.FileTree.Obstacles
import BankTrace.Proofs.Publication.FaultyHost
import BankTrace.Publication

/-!
# Directories that are made

Without faults, the directories of a path are made up to the first obstacle on its way: a location
where something else is than a directory, or that has too long a name. What is made does not depend
on how many of the directories were there before.
-/

namespace BankTrace

open World (run)
open FileTree

namespace FileTree

/-! ## The front of a way -/

variable {t t' : FileTree} {here l : Location} {p : Path} {steps outer front rest : List Name}
  {name : Name}

theorem along_iff_prefix {P : Location → Prop} :
    Along P here steps ↔ ∀ front, front ≠ [] → front <+: steps → P (front.reverse ++ here) := by
  constructor
  · intro h front hne hpre
    have hway := Along.of_prefix h hpre
    exact hway.last hne
  · intro h
    induction steps using List.reverseRecOn with
    | nil => trivial
    | append_singleton outer name ih =>
        refine along_concat.mpr ⟨ih fun front hne hpre => ?_, ?_⟩
        · exact h front hne (hpre.trans (List.prefix_append _ _))
        · simpa using h (outer ++ [name]) (by simp) (List.prefix_refl _)

/-- Whether a location is on a way, in front of the first obstacle. -/
def OnFront (t : FileTree) (here : Location) (steps : List Name) (l : Location) : Prop :=
  ∃ front, front ≠ [] ∧ front <+: steps ∧ t.Free here front ∧ l = front.reverse ++ here

theorem OnFront.vacant (h : t.OnFront here steps l) : t.Vacant l := by
  obtain ⟨front, hne, -, hfree, rfl⟩ := h
  exact hfree.last hne

theorem OnFront.length (h : t.OnFront here steps l) :
    here.length < l.length ∧ l.length ≤ steps.length + here.length := by
  obtain ⟨front, hne, hpre, -, rfl⟩ := h
  have := List.length_pos_iff.mpr hne
  have := hpre.length_le
  simp only [List.length_append, List.length_reverse]
  omega

theorem onFront_concat_iff : t.OnFront here (outer ++ [name]) l ↔ t.OnFront here outer l ∨
    t.Free here (outer ++ [name]) ∧ l = name :: (outer.reverse ++ here) := by
  constructor
  · rintro ⟨front, hne, hpre, hfree, rfl⟩
    rcases List.prefix_concat_iff.mp hpre with rfl | hpre
    · exact .inr ⟨hfree, by simp⟩
    · exact .inl ⟨front, hne, hpre, hfree, rfl⟩
  · rintro (⟨front, hne, hpre, hfree, rfl⟩ | ⟨hfree, rfl⟩)
    · exact ⟨front, hne, hpre.trans (List.prefix_append _ _), hfree, rfl⟩
    · exact ⟨outer ++ [name], by simp, List.prefix_refl _, hfree, by simp⟩

/-- A tree with directories on a way, up to the first obstacle, and otherwise as it was. -/
structure Made (t : FileTree) (here : Location) (steps : List Name) (t' : FileTree) : Prop where
  made : ∀ l, t.OnFront here steps l → t'.entry? l = some .directory
  kept : ∀ l, ¬ t.OnFront here steps l → t'.entry? l = t.entry? l

theorem made_nil (t : FileTree) (here : Location) : t.Made here [] t where
  made := by
    rintro l ⟨front, hne, hpre, -⟩
    exact absurd (List.prefix_nil.mp hpre) hne
  kept _ _ := rfl

/-- What is new is a directory, on the front of the way. -/
theorem Made.entry?_eq_or (h : t.Made here steps t') (l : Location) :
    t'.entry? l = t.entry? l ∨ t.OnFront here steps l ∧ t.entry? l = none ∧
      t'.entry? l = some .directory := by
  by_cases hl : t.OnFront here steps l
  · have hmade := h.made l hl
    rcases hl.vacant.2 with hnone | hdirectory
    · exact .inr ⟨hl, hnone, hmade⟩
    · exact .inl (hmade.trans hdirectory.symm)
  · exact .inl (h.kept l hl)

theorem Made.directory (h : t.Made here steps t') (hl : t.entry? l = some .directory) :
    t'.entry? l = some .directory := by
  rcases h.entry?_eq_or l with hsame | ⟨-, hnone, -⟩
  · rw [hsame, hl]
  · simp [hl] at hnone

theorem Made.not_link (h : t.Made here steps t')
    (hlink : ∀ l target, t.entry? l ≠ some (.link target))
    (l : Location) (target : Path) : t'.entry? l ≠ some (.link target) := by
  rcases h.entry?_eq_or l with hsame | ⟨-, -, hnew⟩
  · rw [hsame]
    exact hlink l target
  · simp [hnew]

theorem Made.clear (h : t.Made here steps t') (hfree : t.Free here steps) :
    t'.Clear here steps :=
  along_iff_prefix.mpr fun front hne hpre =>
    have hway := Along.of_prefix hfree hpre
    ⟨(hway.last hne).1, h.made _ ⟨front, hne, hpre, hway, rfl⟩⟩

theorem made_of_clear (hsteps : steps = front ++ rest) (hclear : t.Clear here front)
    (hrest : ∀ name more, rest = name :: more → ¬ t.Vacant (name :: (front.reverse ++ here))) :
    t.Made here steps t where
  made := by
    rintro l ⟨way, hne, hpre, hfree, rfl⟩
    subst hsteps
    rcases List.prefix_or_prefix_of_prefix hpre (List.prefix_append front rest) with hway | hway
    · have hmade := Along.of_prefix hclear hway
      exact (hmade.last hne).2
    · obtain ⟨more, rfl⟩ := hway
      obtain ⟨tail, hrests⟩ := (List.prefix_append_right_inj front).mp hpre
      cases more with
      | nil =>
          rw [List.append_nil] at hne ⊢
          exact (hclear.last hne).2
      | cons name more =>
          exact absurd (along_append.mp hfree).2.1 (hrest name (more ++ tail) hrests.symm)
  kept _ _ := rfl

theorem Made.concat_of_not_free (h : t.Made here outer t')
    (hnot : ¬ t.Free here (outer ++ [name])) : t.Made here (outer ++ [name]) t' := by
  have hiff (l : Location) : t.OnFront here (outer ++ [name]) l ↔ t.OnFront here outer l := by
    rw [onFront_concat_iff]
    exact or_iff_left fun hfree => hnot hfree.1
  exact ⟨fun l hl => h.made l ((hiff l).mp hl), fun l hl => h.kept l (mt (hiff l).mpr hl)⟩

theorem Made.concat_of_directory (h : t.Made here outer t')
    (hdirectory : t'.entry? (name :: (outer.reverse ++ here)) = some .directory) :
    t.Made here (outer ++ [name]) t' where
  made l hl := by
    rcases onFront_concat_iff.mp hl with hl | ⟨-, rfl⟩
    · exact h.made l hl
    · exact hdirectory
  kept l hl := h.kept l fun hfront => hl (onFront_concat_iff.mpr (.inl hfront))

theorem Made.concat_insert (h : t.Made here outer t') (hfree : t.Free here (outer ++ [name]))
    (htail : t'.entry? (outer.reverse ++ here) = some .directory)
    (hnone : t'.entry? (name :: (outer.reverse ++ here)) = none) :
    t.Made here (outer ++ [name]) (t'.insert (name :: (outer.reverse ++ here)) .directory) where
  made l hl := by
    by_cases heq : l = name :: (outer.reverse ++ here)
    · rw [heq, entry?_insert_self (List.cons_ne_nil _ _) htail]
    · rw [entry?_insert_of_ne (by simp [hnone]) heq]
      exact h.made l ((onFront_concat_iff.mp hl).resolve_right fun hend => heq hend.2)
  kept l hl := by
    have heq : l ≠ name :: (outer.reverse ++ here) := fun heq =>
      hl (onFront_concat_iff.mpr (.inr ⟨hfree, heq⟩))
    rw [entry?_insert_of_ne (by simp [hnone]) heq]
    exact h.kept l fun hfront => hl (onFront_concat_iff.mpr (.inl hfront))

/-- Where nothing can be made at the end of a way, the way is made with the directories in front. -/
theorem Made.concat_of_not_new (h : t.Made here outer t')
    (hl : l = name :: (outer.reverse ++ here)) (hkept : t'.entry? l = t.entry? l)
    (hnew : ¬ (IsShort l ∧ t.entry? l = none)) : t.Made here (outer ++ [name]) t' := by
  subst hl
  by_cases hfree : t.Free here (outer ++ [name])
  · obtain ⟨hshort, hend⟩ := (along_concat.mp hfree).2
    exact h.concat_of_directory (hkept.trans (hend.resolve_left fun hnone => hnew ⟨hshort, hnone⟩))
  · exact h.concat_of_not_free hfree

/-- Where nothing can be made at the end of a way, the way is clear if no obstacle is on it. -/
theorem Made.clear_concat_iff (h : t.Made here outer t') (hfree : t.Free here outer)
    (hl : l = name :: (outer.reverse ++ here)) (hkept : t'.entry? l = t.entry? l)
    (hnew : ¬ (IsShort l ∧ t.entry? l = none)) :
    t'.Clear here (outer ++ [name]) ↔ t.Free here (outer ++ [name]) := by
  subst hl
  refine along_concat.trans (Iff.trans ?_ along_concat.symm)
  refine and_congr (iff_of_true (h.clear hfree) hfree) (and_congr_right fun hshort => ?_)
  rw [hkept]
  exact (or_iff_right fun hnone => hnew ⟨hshort, hnone⟩).symm

/-! ## One directory -/

/-- Behind the directories around it, a directory is made unless something is in its place. -/
theorem Approach.makeDirectory_cases (happroach : t.Approach here p)
    (hlink : ∀ l target, t.entry? l ≠ some (.link target))
    (hmade : t.Made (start here p) p.steps.dropLast t')
    (hfree : t.Free (start here p) p.steps.dropLast) :
    (∃ t'', t'.makeDirectory here p = .ok t'' ∧ t.Free (start here p) p.steps ∧
        t.Made (start here p) p.steps t'') ∨
      ∃ e, e ≠ .notFound ∧ t'.makeDirectory here p = .error e ∧
        t.Made (start here p) p.steps t' ∧
        ((∃ l, t'.find here p = .ok (l, .directory)) ↔ t.Free (start here p) p.steps) := by
  have happroach' : t'.Approach here p :=
    ⟨hmade.directory happroach.begins, happroach.fault, happroach.back, happroach.tidy⟩
  have hclear := hmade.clear hfree
  rw [happroach'.find_directory_iff (hmade.not_link hlink)]
  rcases List.eq_nil_or_concat' p.steps with hnil | ⟨outer, name, hsteps⟩
  · obtain ⟨e, he, hmake⟩ := happroach'.makeDirectory_error hclear (.inl hnil)
    rw [hnil] at hmade ⊢
    exact .inr ⟨e, he, hmake, hmade, iff_of_true trivial trivial⟩
  have hne : p.steps ≠ [] := by simp [hsteps]
  have hdirect := direct_eq_cons here hsteps
  have hdrop : p.steps.dropLast = outer := by rw [hsteps, List.dropLast_concat]
  rw [hdrop] at hmade hfree hdirect
  have hkept : t'.entry? (direct here p) = t.entry? (direct here p) := by
    refine hmade.kept _ fun hfront => ?_
    have := hfront.length.2
    simp [hdirect] at this
  by_cases hnew : IsShort (direct here p) ∧ t.entry? (direct here p) = none
  · have hwhole : t.Free (start here p) (outer ++ [name]) :=
      along_concat.mpr ⟨hfree, hdirect ▸ ⟨hnew.1, .inl hnew.2⟩⟩
    have hnone := hkept.trans hnew.2
    have hmake := happroach'.makeDirectory_eq hclear hne hnew.1 hnone
    have htail := hclear.ends happroach'.begins
    rw [hdrop] at htail
    rw [hdirect] at hmake hnone
    rw [hsteps]
    exact .inl ⟨_, hmake, hwhole, hmade.concat_insert hwhole htail hnone⟩
  · obtain ⟨e, he, hmake⟩ := happroach'.makeDirectory_error hclear (.inr (hkept ▸ hnew))
    rw [hsteps]
    exact .inr ⟨e, he, hmake, hmade.concat_of_not_new hdirect hkept hnew,
      hmade.clear_concat_iff hfree hdirect hkept hnew⟩

/-- A directory that is not there around it is told from one that cannot be. -/
theorem Approach.makeDirectory_of_not_clear (h : t.Approach here p)
    (hlink : ∀ l target, t.entry? l ≠ some (.link target))
    (hclear : ¬ t.Clear (start here p) p.steps.dropLast) :
    t.makeDirectory here p = .error .notFound ∨
      (∃ e, e ≠ .notFound ∧ t.makeDirectory here p = .error e) ∧
        ¬ t.Free (start here p) p.steps ∧ t.Made (start here p) p.steps t := by
  obtain ⟨front, name, rest, hsteps, hfront, hobstacle⟩ := exists_first_of_not_along hclear
  obtain ⟨tail, htail⟩ := List.dropLast_prefix p.steps
  have hsteps' : p.steps = front ++ name :: (rest ++ tail) := by rw [← htail, hsteps]; simp
  rcases holder_of_obstacle h.fault h.back h.begins hlink h.tidy hsteps hfront hobstacle with
    ⟨-, hholder⟩ | ⟨hblocked, e, he, hholder⟩
  · exact .inl (by simp [makeDirectory, hholder, bind, Except.bind])
  · refine .inr ⟨⟨e, he, by simp [makeDirectory, hholder, bind, Except.bind]⟩, fun hfree => ?_, ?_⟩
    · rw [hsteps'] at hfree
      exact hblocked (along_append.mp hfree).2.1
    · refine made_of_clear hsteps' hfront fun name' more heq => ?_
      obtain ⟨rfl, -⟩ := List.cons.inj heq
      exact hblocked

end FileTree

/-! ## Hosts without faults -/

/-- A host on which no operation fails by itself. -/
structure Calm (here : Location) (t : FileTree) (host : FaultyHost) : Prop where
  here_eq : host.here = here
  tree_eq : host.tree = t
  faultless : ∀ i, host.faults i = .none

namespace Calm

variable {t t' : FileTree} {here : Location} {host : FaultyHost} {p : Path}

theorem after (h : Calm here t host) (operation : Operation) (succeeded : Bool) (t' : FileTree) :
    Calm here t' (host.after operation succeeded t') :=
  ⟨h.here_eq, rfl, h.faultless⟩

theorem run_whole_ok (h : Calm here t host) {α : Type} {a : α} {operation : Operation}
    {change : FileTree → Location → Except IoError (α × FileTree)}
    (hchange : change t here = .ok (a, t')) :
    run (FaultyHost.perform operation (FaultyHost.whole change)) host =
      (.ok a, host.after operation true t') := by
  rw [FaultyHost.run_perform_of_none _ _ (h.faultless _), h.tree_eq, h.here_eq]
  simp only [FaultyHost.whole, hchange]
  rfl

theorem run_whole_error (h : Calm here t host) {α : Type} {e : IoError} {operation : Operation}
    {change : FileTree → Location → Except IoError (α × FileTree)}
    (hchange : change t here = .error e) :
    run (FaultyHost.perform operation (FaultyHost.whole change)) host =
      (.error e, host.after operation false t) := by
  rw [FaultyHost.run_perform_of_none _ _ (h.faultless _), h.tree_eq, h.here_eq]
  simp only [FaultyHost.whole, hchange]
  rfl

theorem run_edit_ok (h : Calm here t host) {operation : Operation}
    {change : FileTree → Location → Except IoError FileTree} (hchange : change t here = .ok t') :
    run (FaultyHost.edit operation change) host = (.ok (), host.after operation true t') :=
  h.run_whole_ok (by rw [hchange]; rfl)

theorem run_edit_error (h : Calm here t host) {operation : Operation}
    {change : FileTree → Location → Except IoError FileTree} {e : IoError}
    (hchange : change t here = .error e) :
    run (FaultyHost.edit operation change) host = (.error e, host.after operation false t) :=
  h.run_whole_error (by rw [hchange]; rfl)

theorem edit_ok (h : Calm here t host) {operation : Operation}
    {change : FileTree → Location → Except IoError FileTree} (hchange : change t here = .ok t') :
    ∃ host', run (FaultyHost.edit operation change) host = (.ok (), host') ∧
      Calm here t' host' :=
  ⟨_, h.run_edit_ok hchange, h.after _ _ _⟩

theorem edit_error (h : Calm here t host) {operation : Operation}
    {change : FileTree → Location → Except IoError FileTree} {e : IoError}
    (hchange : change t here = .error e) :
    ∃ host', run (FaultyHost.edit operation change) host = (.error e, host') ∧
      Calm here t host' :=
  ⟨_, h.run_edit_error hchange, h.after _ _ _⟩

theorem look (h : Calm here t host) {α : Type} (p : Path)
    (answer : FileTree → Location → Except IoError α) :
    ∃ host', run (FaultyHost.look p answer) host = (answer t here, host') ∧ Calm here t host' := by
  have hrun := FaultyHost.run_look_of_none p answer (h.faultless host.history.length)
  simp only [h.tree_eq, h.here_eq] at hrun
  exact ⟨_, hrun, h.after _ _ _⟩

theorem isDirectory (h : Calm here t host) (p : Path) :
    ∃ answer host', run (Host.isDirectory (m := StateM FaultyHost) p) host = (answer, host') ∧
      Calm here t host' ∧ (answer = true ↔ ∃ l, t.find here p = .ok (l, .directory)) := by
  obtain ⟨host', hrun, hcalm⟩ := h.look p fun tree here => tree.find here p
  simp only [Host.isDirectory, World.run_bind, hrun]
  cases hfind : t.find here p with
  | error e => exact ⟨false, host', by simp, hcalm, by simp⟩
  | ok found =>
      obtain ⟨l, e⟩ := found
      exact ⟨e.isDirectory, host', by simp, hcalm, by cases e <;> simp [Entry.isDirectory]⟩

theorem isPresent (h : Calm here t host) (p : Path) :
    ∃ host', run (Host.isPresent (m := StateM FaultyHost) p) host = ((t.find here p).isOk, host') ∧
      Calm here t host' := by
  obtain ⟨host', hrun, hcalm⟩ := h.look p fun tree here => tree.find here p
  refine ⟨host', ?_, hcalm⟩
  simp only [Host.isPresent, World.run_bind, hrun, World.run_pure]

theorem makeDirectory_ok (h : Calm here t host) (hmake : t.makeDirectory here p = .ok t') :
    ∃ host', run (Host.makeDirectory (m := StateM FaultyHost) p) host = (.ok (), host') ∧
      Calm here t' host' :=
  h.edit_ok hmake

theorem makeDirectory_error (h : Calm here t host) {e : IoError}
    (hmake : t.makeDirectory here p = .error e) :
    ∃ host', run (Host.makeDirectory (m := StateM FaultyHost) p) host = (.error e, host') ∧
      Calm here t host' :=
  h.edit_error hmake

end Calm

/-! ## All directories of a path -/

/-- What making directories does without faults. -/
structure MakesWay (t : FileTree) (here : Location) (p : Path) (result : Except IoError Unit)
    (t' : FileTree) : Prop where
  made : t.Made (start here p) p.steps t'
  ok_iff : result = .ok () ↔ t.Free (start here p) p.steps

section

variable {t t' : FileTree} {here : Location} {host : FaultyHost} {p : Path}

theorem pathFault?_of_prefix {p q : Path} (hpre : p.bytes <+: q.bytes) (hne : p.bytes ≠ [])
    (hfault : pathFault? q = none) : pathFault? p = none := by
  have hlength := hpre.length_le
  unfold pathFault? at hfault ⊢
  split_ifs at hfault with hzero hnil hlong
  rw [if_neg fun hmem => hzero (hpre.subset hmem), if_neg hne, if_neg (by omega)]

/-- Asks whether a directory is there that could not be made. -/
def acceptDirectory (p : Path) (e : IoError) : StateM FaultyHost (Except IoError Unit) := do
  return if ← Host.isDirectory p then .ok () else .error e

/-- Where no directory was made, one that is there will do. -/
theorem Calm.run_acceptDirectory (h : Calm here t host) (p : Path) (e : IoError) {P : Prop}
    (hfind : (∃ l, t.find here p = .ok (l, .directory)) ↔ P) :
    ∃ result host', run (acceptDirectory p e) host = (result, host') ∧ Calm here t host' ∧
      (result = .ok () ↔ P) := by
  obtain ⟨answer, host', hrun, hcalm, hanswer⟩ := h.isDirectory p
  rw [hfind] at hanswer
  simp only [acceptDirectory, World.run_bind, hrun, World.run_pure]
  refine ⟨_, host', rfl, hcalm, ?_⟩
  rw [← hanswer]
  cases answer <;> simp

/-- Makes a directory behind those around it, if these were made. -/
def makeBehind (p : Path) : Except IoError Unit → StateM FaultyHost (Except IoError Unit)
  | .error e => pure (.error e)
  | .ok () => do
      match ← Host.makeDirectory (m := StateM FaultyHost) p with
      | .ok () => pure (.ok ())
      | .error e => acceptDirectory p e

theorem run_makeDirectories_cons {around : List Path} (hne : p.bytes ≠ []) (host : FaultyHost) :
    run (Host.makeDirectories (m := StateM FaultyHost) (p :: around)) host =
      match run (Host.makeDirectory (m := StateM FaultyHost) p) host with
      | (.ok (), host') => (.ok (), host')
      | (.error .notFound, host') =>
          let out := run (Host.makeDirectories (m := StateM FaultyHost) around) host'
          run (makeBehind p out.1) out.2
      | (.error e, host') => run (acceptDirectory p e) host' := by
  rw [Host.makeDirectories, if_neg (mt Path.components_eq_nil_iff.mp hne), World.run_bind]
  rcases run (Host.makeDirectory (m := StateM FaultyHost) p) host with ⟨e | _, host'⟩
  · cases e <;> rfl
  · exact World.run_pure _ _

/-- Behind the directories around it, a directory is made or is there, or an obstacle is in its
place. -/
theorem Calm.run_last (h : Calm here t' host) (happroach : t.Approach here p)
    (hlink : ∀ l target, t.entry? l ≠ some (.link target))
    (hmade : t.Made (start here p) p.steps.dropLast t')
    (hfree : t.Free (start here p) p.steps.dropLast) :
    (∃ host' t'', run (Host.makeDirectory (m := StateM FaultyHost) p) host = (.ok (), host') ∧
        Calm here t'' host' ∧ MakesWay t here p (.ok ()) t'') ∨
      ∃ e host', e ≠ .notFound ∧
        run (Host.makeDirectory (m := StateM FaultyHost) p) host = (.error e, host') ∧
        ∃ result host'', run (acceptDirectory p e) host' = (result, host'') ∧
          Calm here t' host'' ∧ MakesWay t here p result t' := by
  rcases happroach.makeDirectory_cases hlink hmade hfree with
    ⟨t'', hmake, hfree', hmade'⟩ | ⟨e, hne, hmake, hmade', hfind⟩
  · obtain ⟨host', hrun, hcalm⟩ := h.makeDirectory_ok hmake
    exact .inl ⟨host', t'', hrun, hcalm, hmade', iff_of_true rfl hfree'⟩
  · obtain ⟨host', hrun, hcalm⟩ := h.makeDirectory_error hmake
    obtain ⟨result, host'', hrun', hcalm', hok⟩ := hcalm.run_acceptDirectory p e hfind
    exact .inr ⟨e, host', hne, hrun, result, host'', hrun', hcalm', hmade', hok⟩

/-- The directories around it decide what comes of a directory that is made behind them. -/
theorem Calm.run_makeBehind (h : Calm here t' host) (happroach : t.Approach here p)
    (hlink : ∀ l target, t.entry? l ≠ some (.link target)) (hsteps : p.steps ≠ [])
    {result : Except IoError Unit} (hmade : t.Made (start here p) p.steps.dropLast t')
    (hok : result = .ok () ↔ t.Free (start here p) p.steps.dropLast) :
    ∃ result' host' t'', run (makeBehind p result) host = (result', host') ∧
      Calm here t'' host' ∧ MakesWay t here p result' t'' := by
  cases result with
  | error e =>
      obtain ⟨outer, name, hconcat⟩ := (List.eq_nil_or_concat' p.steps).resolve_left hsteps
      have hnot : ¬ t.Free (start here p) p.steps.dropLast := mt hok.mpr (by simp)
      rw [hconcat, List.dropLast_concat] at hmade hnot
      have hnot' : ¬ t.Free (start here p) (outer ++ [name]) := fun hfree =>
        hnot (along_append.mp hfree).1
      refine ⟨.error e, host, t', World.run_pure _ _, h, ?_, ?_⟩ <;> rw [hconcat]
      · exact hmade.concat_of_not_free hnot'
      · exact iff_of_false (by simp) hnot'
  | ok _ =>
      rw [makeBehind, World.run_bind]
      rcases h.run_last happroach hlink hmade (hok.mp rfl) with
        ⟨host', t'', hrun, hcalm, hmakes⟩ | ⟨e, host', -, hrun, result, host'', hrun', hrest⟩
      · rw [hrun]
        exact ⟨.ok (), host', t'', World.run_pure _ _, hcalm, hmakes⟩
      · rw [hrun]
        exact ⟨result, host'', t', hrun', hrest⟩

theorem Calm.run_makeDirectories_of_clear (h : Calm here t host) (happroach : t.Approach here p)
    (hlink : ∀ l target, t.entry? l ≠ some (.link target)) (hne : p.bytes ≠ [])
    (hclear : t.Clear (start here p) p.steps.dropLast) (around : List Path) :
    ∃ result host' t', run (Host.makeDirectories (m := StateM FaultyHost) (p :: around)) host =
        (result, host') ∧ Calm here t' host' ∧ MakesWay t here p result t' := by
  have hmade : t.Made (start here p) p.steps.dropLast t :=
    made_of_clear (List.append_nil _).symm hclear (by simp)
  rw [run_makeDirectories_cons hne]
  rcases h.run_last happroach hlink hmade hclear.free with
    ⟨host', t', hrun, hcalm, hmakes⟩ | ⟨e, host', hother, hrun, result, host'', hrun', hrest⟩
  · rw [hrun]
    exact ⟨_, host', t', rfl, hcalm, hmakes⟩
  · rw [hrun]
    refine ⟨result, host'', t, ?_, hrest⟩
    cases e <;> first | exact hrun' | exact absurd rfl hother

/-- At an obstacle that is told from a missing directory nothing is made. -/
theorem Calm.run_makeDirectories_of_obstacle (h : Calm here t host) (happroach : t.Approach here p)
    (hlink : ∀ l target, t.entry? l ≠ some (.link target)) (hne : p.bytes ≠ []) {e : IoError}
    (hother : e ≠ .notFound) (hmake : t.makeDirectory here p = .error e)
    (hclear : ¬ t.Clear (start here p) p.steps.dropLast) (hnot : ¬ t.Free (start here p) p.steps)
    (hmade : t.Made (start here p) p.steps t) (around : List Path) :
    ∃ result host', run (Host.makeDirectories (m := StateM FaultyHost) (p :: around)) host =
        (result, host') ∧ Calm here t host' ∧ MakesWay t here p result t := by
  have hfind : (∃ l, t.find here p = .ok (l, .directory)) ↔ t.Free (start here p) p.steps := by
    rw [happroach.find_directory_iff hlink]
    exact iff_of_false (fun hall => hclear (hall.of_prefix (List.dropLast_prefix _))) hnot
  obtain ⟨host', hrun, hcalm⟩ := h.makeDirectory_error hmake
  obtain ⟨result, host'', hrun', hcalm', hok⟩ := hcalm.run_acceptDirectory p e hfind
  rw [run_makeDirectories_cons hne, hrun]
  refine ⟨result, host'', ?_, hcalm', hmade, hok⟩
  cases e <;> first | exact hrun' | exact absurd rfl hother

/-- The induction is on the directories around the path, which are made before it. -/
theorem Calm.run_makeDirectories {count : Nat}
    (hlink : ∀ l target, t.entry? l ≠ some (.link target)) (h : Calm here t host)
    (hlength : p.bytes.length < count) (hbegins : t.entry? (start here p) = some .directory)
    (hback : Path.dotDot ∉ p.steps) (htidy : IsTidy p)
    (hfault : p.bytes ≠ [] → pathFault? p = none) :
    ∃ result host' t', run (Host.makeDirectories (m := StateM FaultyHost)
        (p.ancestorsWithin count)) host = (result, host') ∧ Calm here t' host' ∧
      MakesWay t here p result t' := by
  induction count generalizing p host with
  | zero => omega
  | succ count ih =>
      rw [Path.ancestorsWithin_succ]
      by_cases hnil : p.bytes = []
      · refine ⟨.ok (), host, t, ?_, h, ?_, ?_⟩
        · rw [Host.makeDirectories, if_pos (Path.components_eq_nil_iff.mpr hnil), World.run_pure]
        · rw [Path.steps_eq_nil hnil]
          exact made_nil t _
        · rw [Path.steps_eq_nil hnil]
          exact iff_of_true rfl trivial
      have happroach : t.Approach here p := ⟨hbegins, hfault hnil, hback, htidy⟩
      by_cases hclear : t.Clear (start here p) p.steps.dropLast
      · exact h.run_makeDirectories_of_clear happroach hlink hnil hclear _
      rcases happroach.makeDirectory_of_not_clear hlink hclear with
        hmake | ⟨⟨e, hother, hmake⟩, hnot, hmade⟩
      · have hsteps : p.steps ≠ [] := by
          intro hsteps
          rw [hsteps] at hclear
          exact hclear trivial
        obtain ⟨d, hd⟩ := Option.ne_none_iff_exists'.mp (Path.parent?_ne_none hsteps)
        obtain ⟨hdsteps, hrooted⟩ := Path.parent?_eq_some hd
        obtain ⟨hpre, hshorter⟩ := Path.parent?_bytes hd
        have hstart : start here d = start here p := by simp [start, hrooted]
        obtain ⟨host', hrun, hcalm⟩ := h.makeDirectory_error hmake
        obtain ⟨result, host'', t', haround, hcalm', hmade, hok⟩ := ih hcalm (by omega)
          (hstart ▸ hbegins) (fun hmem => hback (List.dropLast_subset _ (hdsteps ▸ hmem)))
          (isTidy_of_parent? hd) fun hne => pathFault?_of_prefix hpre hne (hfault hnil)
        rw [hstart, hdsteps] at hmade hok
        rw [run_makeDirectories_cons hnil, hrun, hd]
        dsimp only [Option.map_some, Option.getD_some]
        rw [haround]
        exact hcalm'.run_makeBehind happroach hlink hsteps hmade hok
      · obtain ⟨result, host', hrun, hrest⟩ :=
          h.run_makeDirectories_of_obstacle happroach hlink hnil hother hmake hclear hnot hmade _
        exact ⟨result, host', t, hrun, hrest⟩

end

/-! ## The directory of the output -/

namespace FileTree

variable {t : FileTree} {here l : Location} {p : Path} {e : Entry}

/-- Where something is at the end of a way, its front is made already. -/
theorem Approach.made_of_find (h : t.Approach here p)
    (hlink : ∀ l target, t.entry? l ≠ some (.link target)) (hfind : t.find here p = .ok (l, e)) :
    t.Made (start here p) p.steps t := by
  have hlinks : t.LinkFree here p := Along.of_length fun l _ => hlink l
  obtain ⟨l', hl', hfind⟩ := bind_eq_ok_iff.mp hfind
  obtain ⟨-, -, hway⟩ := (locate_eq_ok_iff (by simp) h.back hlinks).mp hl'
  obtain rfl := hway.eq_direct
  have hpresent : t.entry? (direct here p) ≠ none := fun hnone => by simp [hnone] at hfind
  rcases List.eq_nil_or_concat' p.steps with hnil | ⟨outer, name, hsteps⟩
  · rw [hnil]
    exact made_nil t _
  have hdirect := direct_eq_cons here hsteps
  have hshort := hway.short
  have hpassed := hway.passes
  have hdrop : p.steps.dropLast = outer := by rw [hsteps, List.dropLast_concat]
  rw [hdrop] at hdirect hpassed
  rw [moves_names, hsteps] at hshort
  have hclear : t.Clear (start here p) outer :=
    clear_iff.mpr ⟨hpassed, fun n hn => hshort n (List.mem_append_left _ hn)⟩
  rw [hsteps]
  by_cases hdirectory : t.entry? (direct here p) = some .directory
  · have hmade : t.Made (start here p) outer t :=
      made_of_clear (List.append_nil _).symm hclear (by simp)
    exact hmade.concat_of_directory (hdirect ▸ hdirectory)
  · refine made_of_clear rfl hclear fun name' more heq hvacant => ?_
    obtain ⟨rfl, -⟩ := List.cons.inj heq
    rw [← hdirect] at hvacant
    exact hvacant.2.elim hpresent hdirectory

end FileTree

namespace Publication

variable {t : FileTree} {here : Location} {host : FaultyHost} {output : Path}

/-- Whether the directory of an output has a path that may lead somewhere. -/
def Askable (output : Path) : Prop :=
  ∀ directory, output.parent? = some directory → directory.bytes ≠ [] →
    pathFault? directory = none

/-- A tree that is prepared for an output: the directories around it are made. -/
structure Prepared (t : FileTree) (here : Location) (output : Path) (t' : FileTree) : Prop where
  made : Askable output → t.Made (start here output) output.steps.dropLast t'
  kept : ¬ Askable output → t' = t

/-- A directory whose path leads nowhere is not made, nor are those around it. -/
theorem run_makeDirectories_of_fault (h : Calm here t host) {d : Path} {fault : IoError}
    (hne : d.bytes ≠ []) (hfault : pathFault? d = some fault) :
    ∃ e host', run (Host.makeDirectories (m := StateM FaultyHost) d.ancestors) host =
      (.error e, host') ∧ Calm here t host' := by
  have hother : fault ≠ .notFound := by
    unfold pathFault? at hfault
    split_ifs at hfault <;> simp_all [eq_comm]
  have hmake : t.makeDirectory here d = .error fault := by
    simp [makeDirectory, holder, walk, hfault, bind, Except.bind]
  have hnowhere : (∃ l, t.find here d = .ok (l, .directory)) ↔ False := by
    simp [find, locate, walk, hfault, bind, Except.bind]
  obtain ⟨host', hrun, hcalm⟩ := h.makeDirectory_error hmake
  obtain ⟨result, host'', hrun', hcalm', hresult⟩ := hcalm.run_acceptDirectory d fault hnowhere
  cases result with
  | ok _ => exact (hresult.mp rfl).elim
  | error e =>
      refine ⟨e, host'', ?_, hcalm'⟩
      rw [Path.ancestors, Path.ancestorsWithin_succ, run_makeDirectories_cons hne, hrun]
      cases fault <;> first | exact hrun' | exact absurd rfl hother

/-- Where nothing is at the directory of the output, it is made with those around it. -/
theorem run_makeAround (hlink : ∀ l target, t.entry? l ≠ some (.link target))
    (h : Calm here t host) (hbegins : t.entry? (start here output) = some .directory)
    (hback : Path.dotDot ∉ output.steps) {d : Path} (hparent : output.parent? = some d)
    (hne : d.bytes ≠ []) :
    ∃ result host' t', run (Host.makeDirectories (m := StateM FaultyHost) d.ancestors) host =
        (result, host') ∧ Calm here t' host' ∧ Prepared t here output t' ∧
      (Askable output → t.Free (start here output) output.steps.dropLast → result = .ok ()) := by
  obtain ⟨hdsteps, hrooted⟩ := Path.parent?_eq_some hparent
  have hstart : start here d = start here output := by simp [start, hrooted]
  cases hfault : pathFault? d with
  | none =>
      have hask : Askable output := fun d' hd' _ =>
        Option.some.inj (hparent.symm.trans hd') ▸ hfault
      obtain ⟨result, host', t', hrun, hcalm, hmade, hok⟩ :=
        Calm.run_makeDirectories hlink h (Nat.lt_succ_self d.bytes.length) (hstart ▸ hbegins)
          (fun hmem => hback (List.dropLast_subset _ (hdsteps ▸ hmem)))
          (isTidy_of_parent? hparent) fun _ => hfault
      rw [hstart, hdsteps] at hmade hok
      exact ⟨result, host', t', hrun, hcalm, ⟨fun _ => hmade, fun hnot => absurd hask hnot⟩,
        fun _ => hok.mpr⟩
  | some fault =>
      have hask : ¬ Askable output := fun hask => by simp [hask d hparent hne] at hfault
      obtain ⟨e, host', hrun, hcalm⟩ := run_makeDirectories_of_fault h hne hfault
      exact ⟨.error e, host', t, hrun, hcalm, ⟨fun h => absurd h hask, fun _ => rfl⟩,
        fun h => absurd h hask⟩

theorem run_prepareDirectory (hlink : ∀ l target, t.entry? l ≠ some (.link target))
    (h : Calm here t host) (hbegins : t.entry? (start here output) = some .directory)
    (hback : Path.dotDot ∉ output.steps) :
    ∃ result host' t', run (prepareDirectory (m := StateM FaultyHost) output).run host =
        (result, host') ∧ Calm here t' host' ∧ Prepared t here output t' ∧
      (Askable output → t.Free (start here output) output.steps.dropLast → result = .ok ()) := by
  have hnothing (host' : FaultyHost) (hcalm : Calm here t host')
      (hmade : t.Made (start here output) output.steps.dropLast t) :
      ∃ result host'' t', run (pure () : ExceptT Error (StateM FaultyHost) Unit).run host' =
          (result, host'') ∧ Calm here t' host'' ∧ Prepared t here output t' ∧
        (Askable output → t.Free (start here output) output.steps.dropLast → result = .ok ()) :=
    ⟨.ok (), host', t, World.run_pure _ _, hcalm, ⟨fun _ => hmade, fun _ => rfl⟩, fun _ _ => rfl⟩
  unfold prepareDirectory
  cases hparent : output.parent? with
  | none =>
      have hsteps : output.steps = [] := not_not.mp (mt Path.parent?_ne_none (not_not.mpr hparent))
      exact hnothing host h (hsteps ▸ made_nil t _)
  | some d =>
      obtain ⟨hdsteps, hrooted⟩ := Path.parent?_eq_some hparent
      have hstart : start here d = start here output := by simp [start, hrooted]
      dsimp only
      by_cases hnil : d.bytes = []
      · rw [if_pos hnil]
        refine hnothing host h ?_
        rw [← hdsteps, Path.steps_eq_nil hnil]
        exact made_nil t _
      rw [if_neg hnil, World.run_bind_except]
      obtain ⟨host', hlook, hcalm⟩ := h.isPresent d
      have hpresent : run (ExceptT.lift (Host.isPresent d) :
          ExceptT Error (StateM FaultyHost) Bool).run host = (.ok (t.find here d).isOk, host') := by
        simp only [ExceptT.run_lift, World.run_map, hlook]
      rw [hpresent]
      dsimp only
      cases hfind : t.find here d with
      | ok found =>
          obtain ⟨l, hl, -⟩ := bind_eq_ok_iff.mp hfind
          have happroach : t.Approach here d := ⟨hstart ▸ hbegins, (locate_eq_ok_iff_leads.mp hl).1,
            fun hmem => hback (List.dropLast_subset _ (hdsteps ▸ hmem)), isTidy_of_parent? hparent⟩
          have hmade := happroach.made_of_find hlink hfind
          rw [hstart, hdsteps] at hmade
          exact hnothing host' hcalm hmade
      | error cause =>
          obtain ⟨result, host'', t', hrun, hcalm', hprepared, hok⟩ :=
            run_makeAround hlink hcalm hbegins hback hparent hnil
          rw [if_neg (by simp [Except.isOk, Except.toBool]), World.run_bind_except,
            World.run_attempt, hrun]
          cases result with
          | error e =>
              exact ⟨_, host'', t', rfl, hcalm', hprepared, fun hask hfree =>
                absurd (hok hask hfree) (by simp)⟩
          | ok _ => exact ⟨.ok (), host'', t', rfl, hcalm', hprepared, fun _ _ => rfl⟩

end Publication

end BankTrace
