import BankTrace.Proofs.Path.FileNames

/-!
# Components of parents and entries

Two paths are the same when they have the same components. A parent has all components of its path
but the last one, and an entry of a directory has one component more than the directory. Between
them the file name of a path can be replaced without changing anything before it.
-/

namespace BankTrace.Path

variable {p d : Path} {n : Name}

/-! ## Components of segments -/

/-- Whether a slash follows the first segment counts only where that is empty. -/
theorem components_eq {first : Name} {rest : List Name} (h : p.segments = first :: rest)
    (hne : first ≠ [] ∨ rest ≠ []) : p.components =
      (Component.ofFirst? first true).toList ++ rest.filterMap Component.ofSegment? := by
  have hfirst : Component.ofFirst? first (!rest.isEmpty) = Component.ofFirst? first true := by
    rcases hne with hne | hne
    · rw [Component.ofFirst?, Component.ofFirst?, if_neg hne, if_neg hne]
    · rw [List.isEmpty_eq_false_iff.mpr hne]
      rfl
  rw [components, h, ← hfirst]

theorem bytes_eq_nil_iff : p.bytes = [] ↔ p.segments = [[]] := by
  constructor
  · intro h
    rw [segments, h, List.splitOn_nil]
  · intro h
    have hbytes := congrArg Path.bytes (ofSegments_segments p)
    rw [h] at hbytes
    exact hbytes.symm

theorem filterMap_eq_nil_of_isIdle {idle : List Name} (h : ∀ s ∈ idle, isIdle s = true) :
    idle.filterMap Component.ofSegment? = [] := by
  rw [List.filterMap_eq_nil_iff]
  exact fun s hs => if_pos (h s hs)

theorem IsFileName.ofSegment? (h : IsFileName n) : Component.ofSegment? n = some (.name n) := by
  rw [Component.ofSegment?, h.isIdle_eq_false, if_neg h.ne_dotDot]
  rfl

theorem exists_ofSegment?_eq_some {segment : Name} (h : isIdle segment = false) :
    ∃ c, Component.ofSegment? segment = some c := by
  unfold Component.ofSegment?
  split_ifs with hidle hback
  · simp [hidle] at h
  · exact ⟨_, rfl⟩
  · exact ⟨_, rfl⟩

/-! ## Parents -/

theorem parent?_components (h : p.parent? = some d) : d.components = p.components.dropLast := by
  have hparent := isParent_of_parent? h
  generalize hsegments : p.segments = segments at hparent
  cases hparent with
  | @empty first idle hfirst hidle =>
      rw [components_eq_nil_iff.mpr rfl, components_eq hsegments (.inl hfirst),
        filterMap_eq_nil_of_isIdle hidle]
      cases Component.ofFirst? first true <;> rfl
  | @root idle behind step hidle hstep hbehind =>
      obtain ⟨c, hc⟩ := exists_ofSegment?_eq_some hstep
      have hcomponents : p.components = [.root, c] := by
        rw [components_eq hsegments (.inr (by simp))]
        simp [filterMap_eq_nil_of_isIdle hidle, hc, filterMap_eq_nil_of_isIdle hbehind,
          Component.ofFirst?]
      rw [hcomponents]
      change (⟨[slash]⟩ : Path).components = [.root]
      decide
  | @inner first step outer idle behind hends hidle hstep hbehind =>
      obtain ⟨c, hc⟩ := exists_ofSegment?_eq_some hstep
      have hne : first ≠ [] ∨ outer ≠ [] := by
        rcases hends with ⟨-, hfirst⟩ | ⟨before, last, rfl, -⟩
        · exact .inl hfirst
        · exact .inr (by simp)
      have hcomponents : p.components = ((Component.ofFirst? first true).toList ++
          outer.filterMap Component.ofSegment?) ++ [c] := by
        rw [List.cons_append] at hsegments
        rw [components_eq hsegments (.inr (by simp))]
        simp [filterMap_eq_nil_of_isIdle hidle, hc, filterMap_eq_nil_of_isIdle hbehind]
      rw [hcomponents, List.dropLast_concat,
        components_eq (segments_ofSegments_of_append hsegments) hne]

theorem components_of_fileName? (hname : p.fileName? = some n) (h : p.parent? = some d) :
    p.components = d.components ++ [.name n] := by
  have hlast : p.components.getLast? = some (.name n) := by
    unfold fileName? at hname
    split at hname
    next name hlast => rw [hlast, Option.some.inj hname]
    next => simp at hname
  rw [parent?_components h, List.dropLast_append_getLast? _ hlast]

/-! ## Entries -/

theorem components_child (hn : IsFileName n) :
    (d.child n).components = d.components ++ [.name n] := by
  obtain ⟨before, hsegments, hbefore⟩ := segments_child (d := d) hn.slash_not_mem
  cases before with
  | nil =>
      have hd : d.segments = [[]] :=
        hbefore.resolve_left fun h => List.splitOn_ne_nil slash d.bytes h.1
      rw [components_eq hsegments (.inl hn.nonempty),
        components_eq_nil_iff.mpr (bytes_eq_nil_iff.mpr hd)]
      simp [Component.ofFirst?, hn.nonempty, hn.ne_dot, hn.ofSegment?]
  | cons first rest =>
      have hchild : (d.child n).components = (Component.ofFirst? first true).toList ++
          rest.filterMap Component.ofSegment? ++ [.name n] := by
        rw [components_eq hsegments (.inr (by simp))]
        simp [hn.ofSegment?]
      rw [hchild]
      rcases hbefore with ⟨hd, hbytes⟩ | hd
      · have hne : first ≠ [] ∨ rest ≠ [] := by
          by_contra hnil
          simp only [ne_eq, not_or, not_not] at hnil
          exact hbytes (bytes_eq_nil_iff.mpr (by rw [hd, hnil.1, hnil.2]))
        rw [components_eq hd hne]
      · rw [components_eq hd (.inr (by simp))]
        simp [Component.ofSegment?, isIdle_nil]

theorem fileName?_child (hn : IsFileName n) : (d.child n).fileName? = some n := by
  rw [fileName?, components_child hn, List.getLast?_concat]

theorem IsFileName.fileName? (hn : IsFileName n) : (⟨n⟩ : Path).fileName? = some n :=
  fileName?_child (d := ⟨[]⟩) hn

theorem IsFileName.parent? (hn : IsFileName n) : (⟨n⟩ : Path).parent? = some ⟨[]⟩ := by
  simp [Path.parent?, hn.segments, trimIdle, hn.nonempty]

theorem trimIdle_eq_self {segments : List Name}
    (h : segments = [] ∨ ∃ before last, segments = before ++ [last] ∧ isIdle last = false) :
    trimIdle segments = segments := by
  rcases h with rfl | ⟨before, last, rfl, hlast⟩
  · rfl
  · simp [trimIdle, hlast]

/-- What the parent is if no idle segment stands before the last one, nor in its place. -/
theorem parent?_of_segments {first : Name} {outer : List Name}
    (h : p.segments = first :: (outer ++ [n])) (hn : isIdle n = false)
    (houter : trimIdle outer = outer) : p.parent? =
      some (if first = [] ∧ outer = [] then ⟨[slash]⟩ else ofSegments (first :: outer)) := by
  have hlast : trimIdle (outer ++ [n]) = outer ++ [n] := trimIdle_eq_self (.inr ⟨_, _, rfl, hn⟩)
  rw [parent?, h]
  dsimp only
  rw [hlast]
  split
  next hnil => simp at hnil
  next =>
    rw [List.dropLast_concat, houter]
    split_ifs <;> rfl

/-- A directory that is written as parents are is the parent of its entries. -/
theorem parent?_child (h : p.parent? = some d) (hn : IsFileName n) :
    (d.child n).parent? = some d := by
  have hparent := isParent_of_parent? h
  generalize hcut : p.segments = segments at hparent
  cases hparent with
  | empty => exact hn.parent?
  | root =>
      have hsegments : ((⟨[slash]⟩ : Path).child n).segments = [] :: ([] ++ [n]) := by
        change ([] ++ slash :: n).splitOn slash = [] :: ([] ++ [n])
        rw [List.splitOn_append_cons_self, List.splitOn_eq_singleton hn.slash_not_mem]
        rfl
      rw [parent?_of_segments hsegments hn.isIdle_eq_false rfl]
      rfl
  | @inner first step outer idle behind hends _ _ _ =>
      have hd := segments_ofSegments_of_append hcut
      obtain ⟨before, hsegments, hbefore⟩ :=
        segments_child (d := ofSegments (first :: outer)) hn.slash_not_mem
      rw [hd] at hbefore
      have hend : (first :: outer).getLast? ≠ some [] := by
        rcases hends with ⟨rfl, hne⟩ | ⟨inner, last, rfl, hlast⟩
        · simpa using hne
        · rw [← List.cons_append, List.getLast?_concat]
          rintro ⟨rfl⟩
          simp [isIdle_nil] at hlast
      obtain ⟨rfl, -⟩ := hbefore.resolve_right fun h => hend (by rw [h, List.getLast?_concat])
      have hroot : ¬ (first = [] ∧ outer = []) := by
        rintro ⟨rfl, rfl⟩
        exact hend rfl
      rw [parent?_of_segments hsegments hn.isIdle_eq_false
        (trimIdle_eq_self (hends.imp_left And.left)), if_neg hroot]

end BankTrace.Path
