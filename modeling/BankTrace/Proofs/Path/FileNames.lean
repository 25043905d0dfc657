import BankTrace.Proofs.Path.Parents

/-!
# File names of paths

The file name of a path is one of its segments, and never a step back. Idle segments may stand
behind it; with another file name they are gone.
-/

namespace BankTrace.Path

/-- A name that an entry of a directory can have. -/
structure IsFileName (name : Name) : Prop where
  nonempty : name ≠ []
  slash_not_mem : slash ∉ name
  ne_dot : name ≠ dot
  ne_dotDot : name ≠ dotDot

variable {p : Path} {name : Name}

theorem IsFileName.isIdle_eq_false (h : IsFileName name) : isIdle name = false := by
  simp [isIdle, h.nonempty, h.ne_dot]

theorem IsFileName.segments (h : IsFileName name) : (⟨name⟩ : Path).segments = [name] :=
  List.splitOn_eq_singleton h.slash_not_mem

/-- A path that ends in a slash has an empty segment behind it, and so has the empty path. -/
theorem endsInSlash_of_segments {before : List Name} (h : p.segments = before ++ [[]])
    (hne : p.bytes ≠ []) : p.endsInSlash = true := by
  have hbytes := congrArg Path.bytes (ofSegments_segments p)
  rw [h, ofSegments] at hbytes
  cases before with
  | nil => exact absurd hbytes.symm (by simpa using hne)
  | cons first before =>
      rw [intercalate_append (List.cons_ne_nil _ _)] at hbytes
      simp [endsInSlash, ← hbytes]

theorem Component.ofSegment?_ne_dotDot {segment : Name} :
    Component.ofSegment? segment ≠ some (.name dotDot) := by
  unfold ofSegment?
  split_ifs with hidle hback
  · simp
  · simp
  · simpa using hback

theorem fileName?_ne_dotDot (h : p.fileName? = some name) : name ≠ dotDot := by
  rintro rfl
  have hmem : Component.name dotDot ∈ p.components := by
    unfold fileName? at h
    split at h
    next n hlast =>
      obtain rfl := Option.some.inj h
      exact List.mem_of_mem_getLast? hlast
    next => simp at h
  unfold components at hmem
  split at hmem
  next => simp at hmem
  next first rest _ =>
    rcases List.mem_append.mp hmem with hfirst | hrest
    · rw [Option.mem_toList, Component.ofFirst?] at hfirst
      split_ifs at hfirst <;>
        first | exact Component.ofSegment?_ne_dotDot hfirst | simp at hfirst
    · obtain ⟨segment, -, hsegment⟩ := List.mem_filterMap.mp hrest
      exact Component.ofSegment?_ne_dotDot hsegment

theorem isFileName_of_fileName? (h : p.fileName? = some name) : IsFileName name := by
  obtain ⟨outer, hsteps⟩ := fileName?_eq_some h
  have hmem : name ∈ p.steps := by simp [hsteps]
  have hidle := not_isIdle_of_mem_steps hmem
  simp only [isIdle, Bool.or_eq_false_iff, beq_eq_false_iff_ne] at hidle
  exact ⟨hidle.1, slash_not_mem_of_mem_steps hmem, hidle.2, fileName?_ne_dotDot h⟩

theorem subset_of_mem_splitOn {bytes : List UInt8} :
    ∀ segment ∈ bytes.splitOn slash, segment ⊆ bytes := by
  induction bytes with
  | nil => simp
  | cons b bytes ih =>
      rw [List.splitOn_cons_eq_if_modifyHead]
      split
      · intro segment hsegment
        rcases List.mem_cons.mp hsegment with rfl | hrest
        · exact List.nil_subset _
        · exact List.subset_cons_of_subset b (ih segment hrest)
      · obtain ⟨first, rest, hsplit⟩ := List.exists_cons_of_ne_nil (List.splitOn_ne_nil slash bytes)
        rw [hsplit] at ih ⊢
        obtain ⟨hfirst, hrest⟩ := List.forall_mem_cons.mp ih
        refine List.forall_mem_cons.mpr ⟨List.cons_subset_cons b hfirst, fun segment hsegment => ?_⟩
        exact List.subset_cons_of_subset b (hrest segment hsegment)

/-- The bytes of a path with another file name are bytes of the path, of that name, or slashes. -/
theorem mem_bytes_withFileName {new : Name} (h : p.fileName? = some name) {b : UInt8}
    (hb : b ∈ (p.withFileName new).bytes) : b ∈ p.bytes ∨ b = slash ∨ b ∈ new := by
  obtain ⟨outer, hsteps⟩ := fileName?_eq_some h
  obtain ⟨d, hd⟩ := Option.ne_none_iff_exists'.mp (parent?_ne_none (p := p) (by simp [hsteps]))
  have hpre := (parent?_bytes hd).1
  simp only [withFileName, h, hd, child] at hb
  split_ifs at hb
  · rcases List.mem_append.mp hb with hd | hnew
    · exact .inl (hpre.subset hd)
    · exact .inr (.inr hnew)
  · rcases List.mem_append.mp hb with hd | hnew
    · exact .inl (hpre.subset hd)
    · exact .inr (List.mem_cons.mp hnew)

end BankTrace.Path
