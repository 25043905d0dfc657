import BankTrace.Proofs.Path.Steps

/-!
# Parents of paths

The path of a parent is the front of the path, and the directories around a path get shorter and
shorter until nothing is left to name.
-/

namespace BankTrace.Path

/-! ## What a parent is written as -/

theorem intercalate_append {first : Name} {front more : List Name} (hmore : more ≠ []) :
    [slash].intercalate (first :: front ++ more) =
      [slash].intercalate (first :: front) ++ slash :: [slash].intercalate more := by
  induction front generalizing first with
  | nil => simp [List.intercalate_cons_of_ne_nil hmore]
  | cons next front ih =>
      rw [List.cons_append, List.cons_append, List.intercalate_cons_cons, ← List.cons_append, ih,
        List.intercalate_cons_cons]
      simp

theorem parent?_bytes {p d : Path} (h : p.parent? = some d) :
    d.bytes <+: p.bytes ∧ d.bytes.length < p.bytes.length := by
  have hparent := isParent_of_parent? h
  have hbytes : [slash].intercalate p.segments = p.bytes :=
    congrArg Path.bytes (ofSegments_segments p)
  generalize p.segments = segments at hparent hbytes
  rw [← hbytes]
  cases hparent with
  | @empty first idle hfirst _ =>
      refine ⟨List.nil_prefix, List.length_pos_iff.mpr ?_⟩
      cases idle <;> simp [hfirst]
  | @root idle behind step _ hstep _ =>
      have hnonempty : step ≠ [] := by
        rintro rfl
        simp [isIdle_nil] at hstep
      rw [List.intercalate_cons_of_ne_nil (by simp)]
      refine ⟨⟨_, rfl⟩, ?_⟩
      cases idle with
      | nil => cases behind <;> simp [List.length_pos_iff, hnonempty]
      | cons s idle => cases idle <;> simp
  | @inner first step outer idle behind _ _ _ _ =>
      rw [intercalate_append (by simp)]
      exact ⟨List.prefix_append _ _, by simp [ofSegments]⟩

/-- A parent that has steps ends in one of them. -/
theorem parent?_ends {p d : Path} (h : p.parent? = some d) (hsteps : d.steps ≠ []) :
    ∃ before step, d.segments = before ++ [step] ∧ isIdle step = false := by
  have hparent := isParent_of_parent? h
  generalize hsegments : p.segments = segments at hparent
  cases hparent with
  | empty => exact absurd (by decide) hsteps
  | root => exact absurd (by decide) hsteps
  | @inner first _ outer _ _ hends _ _ _ =>
      have hd := segments_ofSegments_of_append hsegments
      rw [hd]
      rcases hends with ⟨rfl, -⟩ | ⟨before, step, rfl, hstep⟩
      · refine ⟨[], first, rfl, ?_⟩
        by_contra hidle
        rw [steps, hd] at hsteps
        simp [hidle] at hsteps
      · exact ⟨first :: before, step, rfl, hstep⟩

theorem ancestorsWithin_succ (count : Nat) (p : Path) :
    p.ancestorsWithin (count + 1) = p :: (p.parent?.map (ancestorsWithin count)).getD [] := by
  rw [ancestorsWithin]
  cases p.parent? <;> rfl

theorem steps_eq_nil {p : Path} (h : p.bytes = []) : p.steps = [] := by
  obtain ⟨bytes⟩ := p
  obtain rfl : bytes = [] := h
  decide

theorem components_eq_nil_iff {p : Path} : p.components = [] ↔ p.bytes = [] := by
  constructor
  · intro h
    cases hsegments : p.segments with
    | nil => exact absurd hsegments (List.splitOn_ne_nil slash p.bytes)
    | cons first rest =>
        rw [components, hsegments, List.append_eq_nil_iff] at h
        obtain ⟨hfirst, -⟩ := h
        have hnil : first = [] ∧ rest = [] := by
          by_cases hf : first = []
          · cases rest with
            | nil => exact ⟨hf, rfl⟩
            | cons => simp [Component.ofFirst?, hf] at hfirst
          · by_cases hd : first = dot
            · simp [Component.ofFirst?, hd, dot] at hfirst
            · have hidle : isIdle first = false := by simp [isIdle, hf, hd]
              rw [Component.ofFirst?, if_neg hf, if_neg hd, Component.ofSegment?, hidle] at hfirst
              by_cases hb : first = dotDot <;> simp [hb] at hfirst
        rw [hnil.1, hnil.2] at hsegments
        have := congrArg Path.bytes (ofSegments_segments p)
        rw [hsegments] at this
        simpa [ofSegments] using this.symm
  · intro h
    obtain ⟨bytes⟩ := p
    obtain rfl : bytes = [] := h
    decide

end BankTrace.Path
