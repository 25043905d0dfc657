import BankTrace.Path
import Mathlib.Data.List.TakeWhile
import Mathlib.Tactic

/-!
# Steps of paths

The steps of a path are the segments that lead somewhere. A parent has all steps but the last, and
the path with another file name differs from its output in the last step only.
-/

namespace BankTrace.Path

/-! ## Segments -/

theorem slash_not_mem_of_mem_splitOn {bytes : List UInt8} :
    ∀ segment ∈ bytes.splitOn slash, slash ∉ segment := by
  induction bytes with
  | nil => simp
  | cons b bytes ih =>
      rw [List.splitOn_cons_eq_if_modifyHead]
      split
      · simpa using ih
      next hb =>
        obtain ⟨first, rest, hsplit⟩ := List.exists_cons_of_ne_nil (List.splitOn_ne_nil slash bytes)
        rw [hsplit] at ih ⊢
        have hb' : slash ≠ b := fun h => hb (by simp [h])
        simpa [hb'] using ih

theorem slash_not_mem {p : Path} {segment : Name} (h : segment ∈ p.segments) : slash ∉ segment :=
  slash_not_mem_of_mem_splitOn segment h

theorem segments_ofSegments {segments : List Name} (hne : segments ≠ [])
    (h : ∀ segment ∈ segments, slash ∉ segment) : (ofSegments segments).segments = segments :=
  List.splitOn_intercalate slash h hne

theorem ofSegments_segments (p : Path) : ofSegments p.segments = p := by
  simp [ofSegments, segments]

/-- Only a slash in front can leave the first segment empty and others behind it. -/
theorem isRooted_eq {p : Path} {first : Name} {rest : List Name} (h : p.segments = first :: rest) :
    p.isRooted = (first.isEmpty && !rest.isEmpty) := by
  have hfirst : slash ∉ first := slash_not_mem (h ▸ List.mem_cons_self)
  rw [← ofSegments_segments p, h, isRooted, ofSegments]
  cases first with
  | nil => cases rest <;> simp [List.intercalate]
  | cons b first =>
      have hb : ¬ b = slash := fun hb => hfirst (hb ▸ List.mem_cons_self)
      cases rest <;> simp [List.intercalate, hb]

/-- A path ends in a slash when its last segment is empty and is not all of it. -/
theorem segments_of_endsInSlash {p : Path} (h : p.endsInSlash = true) :
    ∃ before, p.segments = (⟨before⟩ : Path).segments ++ [[]] ∧ p.bytes = before ++ [slash] := by
  have hlast : p.bytes.getLast? = some slash := by simpa [endsInSlash] using h
  obtain ⟨before, hbytes⟩ := List.getLast?_eq_some_iff.mp hlast
  refine ⟨before, ?_, hbytes⟩
  rw [segments, hbytes, List.splitOn_append_cons_self]
  rfl

/-! ## Steps -/

/-- The segments of a path that lead somewhere, outermost first. -/
def steps (p : Path) : List Name := p.segments.filter fun segment => !isIdle segment

theorem steps_eq {p : Path} {first : Name} {rest : List Name} (h : p.segments = first :: rest) :
    p.steps = ([first].filter fun s => !isIdle s) ++ rest.filter fun s => !isIdle s := by
  rw [steps, h, ← List.filter_append]
  rfl

theorem slash_not_mem_of_mem_steps {p : Path} {name : Name} (h : name ∈ p.steps) : slash ∉ name :=
  slash_not_mem (List.mem_of_mem_filter h)

theorem not_isIdle_of_mem_steps {p : Path} {name : Name} (h : name ∈ p.steps) :
    isIdle name = false := by
  simpa using List.of_mem_filter h

theorem isIdle_nil : isIdle [] = true := rfl

theorem filter_eq_nil_of_isIdle {idle : List Name} (h : ∀ s ∈ idle, isIdle s = true) :
    idle.filter (fun s => !isIdle s) = [] := by
  rw [List.filter_eq_nil_iff]
  intro s hs
  simp [h s hs]

/-- Behind what is left without the idle segments at the end of a list, there are only idle ones. -/
theorem exists_idle_behind (segments : List Name) :
    ∃ idle, segments = trimIdle segments ++ idle ∧ ∀ s ∈ idle, isIdle s = true := by
  refine ⟨(segments.reverse.takeWhile isIdle).reverse, ?_, fun s hs => ?_⟩
  · have hsplit := List.takeWhile_append_dropWhile (p := isIdle) (l := segments.reverse)
    rw [trimIdle, ← List.reverse_append, hsplit, List.reverse_reverse]
  · exact List.mem_takeWhile_imp (List.mem_reverse.mp hs)

/-- What is left without the idle segments at the end of a list ends in a step. -/
theorem trimIdle_eq_nil_or (segments : List Name) :
    trimIdle segments = [] ∨
      ∃ before step, trimIdle segments = before ++ [step] ∧ isIdle step = false := by
  cases hdrop : segments.reverse.dropWhile isIdle with
  | nil => simp [trimIdle, hdrop]
  | cons step before =>
      refine .inr ⟨before.reverse, step, by simp [trimIdle, hdrop], ?_⟩
      have hhead := List.head?_dropWhile_not isIdle segments.reverse
      simpa [hdrop] using hhead

/-! ## Components -/

def Component.step? : Component → Option Name
  | .name n => some n
  | .parent => some dotDot
  | .root | .here => none

theorem Component.ofSegment?_step? (segment : Name) :
    (Component.ofSegment? segment).bind step? = if isIdle segment then none else some segment := by
  unfold ofSegment?
  split
  · rfl
  · split
    next h => simp [step?, h]
    · rfl

theorem Component.ofFirst?_step? (segment : Name) (more : Bool) :
    (Component.ofFirst? segment more).bind step? =
      if isIdle segment then none else some segment := by
  unfold ofFirst?
  split
  next h => cases more <;> simp [step?, isIdle, h]
  · split
    next h => simp [step?, isIdle, h]
    · exact ofSegment?_step? segment

theorem filterMap_step?_components (p : Path) :
    p.components.filterMap Component.step? = p.steps := by
  have hrest (rest : List Name) :
      (rest.filterMap Component.ofSegment?).filterMap Component.step? =
        rest.filter fun s => !isIdle s := by
    rw [List.filterMap_filterMap]
    simp only [Component.ofSegment?_step?]
    induction rest with
    | nil => rfl
    | cons s rest ih => cases h : isIdle s <;> simp [h, ih]
  cases h : p.segments with
  | nil => exact absurd h (List.splitOn_ne_nil slash p.bytes)
  | cons first rest =>
      rw [components, h, steps_eq h, List.filterMap_append, hrest]
      congr 1
      have hfirst := Component.ofFirst?_step? first (!rest.isEmpty)
      cases hc : Component.ofFirst? first (!rest.isEmpty) with
      | none => cases hi : isIdle first <;> simp_all
      | some component => cases hi : isIdle first <;> simp_all

theorem dotDot_not_mem_steps {p : Path} (h : .parent ∉ p.components) : dotDot ∉ p.steps := by
  intro hmem
  have hsegment : dotDot ∈ p.segments := List.mem_of_mem_filter hmem
  apply h
  unfold components
  split
  next hnil => simp [hnil] at hsegment
  next first rest hcons =>
    rw [hcons, List.mem_cons] at hsegment
    rw [List.mem_append]
    rcases hsegment with rfl | hrest
    · exact .inl (by simp [Component.ofFirst?, Component.ofSegment?, isIdle, dotDot, dot])
    · exact .inr (List.mem_filterMap.mpr ⟨dotDot, hrest, by decide⟩)

/-! ## Parents -/

/-- The segments of a path, and its parent: behind the parent's own segments there are only idle
ones and one that leads somewhere. The parent has no idle segments at its end. -/
inductive IsParent : List Name → Path → Prop where
  | empty {first : Name} {idle : List Name} (hfirst : first ≠ [])
      (hidle : ∀ s ∈ idle, isIdle s = true) : IsParent (first :: idle) ⟨[]⟩
  | root {idle behind : List Name} {step : Name} (hidle : ∀ s ∈ idle, isIdle s = true)
      (hstep : isIdle step = false) (hbehind : ∀ s ∈ behind, isIdle s = true) :
      IsParent ([] :: (idle ++ step :: behind)) ⟨[slash]⟩
  | inner {first step : Name} {outer idle behind : List Name}
      (hends : outer = [] ∧ first ≠ [] ∨
        ∃ before last, outer = before ++ [last] ∧ isIdle last = false)
      (hidle : ∀ s ∈ idle, isIdle s = true) (hstep : isIdle step = false)
      (hbehind : ∀ s ∈ behind, isIdle s = true) :
      IsParent (first :: outer ++ (idle ++ step :: behind)) (ofSegments (first :: outer))

theorem isParent_of_parent? {p d : Path} (h : p.parent? = some d) : IsParent p.segments d := by
  unfold parent? at h
  split at h
  next => exact absurd h (by simp)
  next first rest hsegments =>
    rw [hsegments]
    obtain ⟨behind, hrest, hbehind⟩ := exists_idle_behind rest
    split at h
    next hnone =>
      split_ifs at h with hfirst
      obtain rfl := Option.some.inj h
      rw [hnone, List.nil_append] at hrest
      exact .empty hfirst (hrest ▸ hbehind)
    next named hnamed =>
      obtain ⟨before, step, htrim, hstep⟩ := (trimIdle_eq_nil_or rest).resolve_left hnamed
      obtain ⟨idle, hbefore, hidle⟩ := exists_idle_behind before
      simp only [htrim, List.dropLast_concat] at h
      rw [htrim, List.append_assoc, List.singleton_append] at hrest
      split_ifs at h with hroot
      · obtain ⟨rfl, hnone⟩ := hroot
        obtain rfl := Option.some.inj h
        rw [hnone, List.nil_append] at hbefore
        rw [hrest]
        exact .root (hbefore ▸ hidle) hstep hbehind
      · obtain rfl := Option.some.inj h
        have hcut : first :: rest = first :: trimIdle before ++ (idle ++ step :: behind) := by
          rw [hrest]
          conv_lhs => rw [hbefore]
          simp
        rw [hcut]
        refine .inner ?_ hidle hstep hbehind
        rcases trimIdle_eq_nil_or before with hnil | hends
        · exact .inl ⟨hnil, fun hfirst => hroot ⟨hfirst, hnil⟩⟩
        · exact .inr hends

/-- The segments that a parent has in common with its path are all of its own. -/
theorem segments_ofSegments_of_append {p : Path} {first : Name} {outer more : List Name}
    (h : p.segments = first :: outer ++ more) :
    (ofSegments (first :: outer)).segments = first :: outer :=
  segments_ofSegments (List.cons_ne_nil _ _) fun _ hs =>
    slash_not_mem (p := p) (h ▸ List.mem_append_left more hs)

/-- A parent has all the steps but the last, from the same start. -/
theorem parent?_eq_some {p d : Path} (h : p.parent? = some d) :
    d.steps = p.steps.dropLast ∧ d.isRooted = p.isRooted := by
  have hparent := isParent_of_parent? h
  generalize hsegments : p.segments = segments at hparent
  cases hparent with
  | @empty first idle hfirst hidle =>
      rw [steps_eq hsegments, isRooted_eq hsegments, filter_eq_nil_of_isIdle hidle]
      refine ⟨?_, by simp [isRooted, hfirst]⟩
      cases hi : isIdle first <;> simp [hi] <;> decide
  | @root idle behind step hidle hstep hbehind =>
      have hsteps : p.steps = [step] := by
        simp [steps_eq hsegments, filter_eq_nil_of_isIdle hidle, filter_eq_nil_of_isIdle hbehind,
          hstep, isIdle_nil]
      rw [hsteps, isRooted_eq hsegments]
      refine ⟨?_, by simp [isRooted]⟩
      change (⟨[slash]⟩ : Path).steps = []
      decide
  | @inner first step outer idle behind hends hidle hstep hbehind =>
      have hd := segments_ofSegments_of_append hsegments
      rw [List.cons_append] at hsegments
      rw [steps_eq hsegments, isRooted_eq hsegments, steps_eq hd, isRooted_eq hd]
      constructor
      · simp [filter_eq_nil_of_isIdle hidle, filter_eq_nil_of_isIdle hbehind, hstep,
          List.dropLast_append_of_ne_nil]
      · rcases hends with ⟨rfl, hfirst⟩ | ⟨before, last, rfl, -⟩
        · simp [hfirst]
        · cases before <;> simp

theorem parent?_ne_none {p : Path} (h : p.steps ≠ []) : p.parent? ≠ none := by
  unfold parent?
  split
  next hnil => exact absurd hnil (List.splitOn_ne_nil slash p.bytes)
  next first rest hsegments =>
    split
    next hnone =>
      split_ifs with hfirst
      · refine absurd ?_ h
        obtain ⟨idle, hrest, hidle⟩ := exists_idle_behind rest
        rw [hnone, List.nil_append] at hrest
        rw [steps_eq hsegments, hfirst, hrest, filter_eq_nil_of_isIdle hidle]
        rfl
      · simp
    · dsimp only
      split_ifs <;> simp

/-- The directories around a path are met on its way. -/
theorem ancestorsWithin_steps {count : Nat} {p a : Path} (h : a ∈ ancestorsWithin count p) :
    a.steps <+: p.steps ∧ a.isRooted = p.isRooted := by
  induction count generalizing p with
  | zero => simp [ancestorsWithin] at h
  | succ count ih =>
      unfold ancestorsWithin at h
      split at h
      next =>
        obtain rfl := List.mem_singleton.mp h
        exact ⟨List.prefix_refl _, rfl⟩
      next d hd =>
        obtain ⟨hsteps, hrooted⟩ := parent?_eq_some hd
        rcases List.mem_cons.mp h with rfl | h
        · exact ⟨List.prefix_refl _, rfl⟩
        · obtain ⟨hpre, hstart⟩ := ih h
          refine ⟨hpre.trans ?_, hstart.trans hrooted⟩
          rw [hsteps]
          exact List.dropLast_prefix _

/-! ## File names -/

theorem fileName?_eq_some {p : Path} {n : Name} (h : p.fileName? = some n) :
    ∃ outer, p.steps = outer ++ [n] := by
  unfold fileName? at h
  split at h
  next name hlast =>
    obtain rfl := Option.some.inj h
    obtain ⟨before, hcomponents⟩ := List.getLast?_eq_some_iff.mp hlast
    refine ⟨before.filterMap Component.step?, ?_⟩
    rw [← filterMap_step?_components, hcomponents, List.filterMap_append]
    rfl
  next => exact absurd h (by simp)

/-- The name of an entry is the last segment of its path, behind the segments of the directory. An
empty segment at the end of those, which is all that the empty path has, makes room for it. -/
theorem segments_child {d : Path} {n : Name} (hn : slash ∉ n) :
    ∃ before, (d.child n).segments = before ++ [n] ∧
      (d.segments = before ∧ d.bytes ≠ [] ∨ d.segments = before ++ [[]]) := by
  have hsingle : n.splitOn slash = [n] := List.splitOn_eq_singleton hn
  unfold child
  split_ifs with h
  · rcases h with hempty | hslash
    · refine ⟨[], ?_, .inr ?_⟩
      · simpa [segments, hempty] using hsingle
      · simp [segments, hempty]
    · obtain ⟨before, hsegments, hbytes⟩ := segments_of_endsInSlash hslash
      refine ⟨(⟨before⟩ : Path).segments, ?_, .inr hsegments⟩
      rw [segments, hbytes, List.append_assoc, List.singleton_append,
        List.splitOn_append_cons_self, hsingle]
      rfl
  · refine ⟨d.segments, ?_, .inl ⟨rfl, fun hempty => h (.inl hempty)⟩⟩
    rw [segments, List.splitOn_append_cons_self, hsingle]
    rfl

theorem isRooted_child {d : Path} {n : Name} (hn : slash ∉ n) :
    (d.child n).isRooted = d.isRooted := by
  have hhead : n.head? ≠ some slash := fun h => hn (List.mem_of_head? h)
  unfold child isRooted
  cases hbytes : d.bytes with
  | nil => simp [hhead]
  | cons b bytes => split_ifs <;> simp

/-- A path with another file name has the same steps up to the last one, which is that name. -/
theorem withFileName_segments {p : Path} {old new : Name} (hold : p.fileName? = some old)
    (hnew : slash ∉ new) (hidle : isIdle new = false) :
    ∃ before, (p.withFileName new).segments = before ++ [new] ∧
      (p.withFileName new).steps = p.steps.dropLast ++ [new] ∧
      (p.withFileName new).isRooted = p.isRooted := by
  obtain ⟨outer, hsteps⟩ := fileName?_eq_some hold
  obtain ⟨d, hd⟩ := Option.ne_none_iff_exists'.mp
    (parent?_ne_none (p := p) (by simp [hsteps]))
  obtain ⟨hdsteps, hdrooted⟩ := parent?_eq_some hd
  have hpath : p.withFileName new = d.child new := by simp [withFileName, hold, hd]
  obtain ⟨before, hsegments, hbefore⟩ := segments_child (d := d) hnew
  have hdbefore : d.steps = before.filter fun s => !isIdle s := by
    rcases hbefore with ⟨hd, -⟩ | hd <;> simp [steps, hd, isIdle_nil]
  refine ⟨before, hpath ▸ hsegments, ?_, ?_⟩
  · rw [hpath, steps, hsegments, List.filter_append, ← hdbefore, hdsteps]
    simp [hidle]
  · rw [hpath, isRooted_child hnew, hdrooted]

theorem endsInSlash_eq_false {p : Path} {before : List Name} {n : Name}
    (h : p.segments = before ++ [n]) (hn : isIdle n = false) : p.endsInSlash = false := by
  rw [Bool.eq_false_iff]
  intro hslash
  obtain ⟨front, hsegments, -⟩ := segments_of_endsInSlash hslash
  obtain ⟨-, hlast⟩ := List.append_inj' (h.symm.trans hsegments) rfl
  obtain rfl : n = [] := by simpa using hlast
  simp [isIdle] at hn

end BankTrace.Path
