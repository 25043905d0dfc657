import BankTrace.Proofs.Json.Leaves

/-!
# Skipping passes over every value

Whatever value the grammar admits, skipping passes over it and stops right behind it: at any depth,
over numbers that no word holds and over halves of surrogate pairs.
-/

namespace BankTrace.Json.Reader

variable {text rest left : List Char} {frames : List Frame} {frame : Frame}

/-! ## Strings and numbers -/

theorem takes_skipEscaped {letter c : Char} (hletter : escapes.lookup letter = some c)
    (rest : List Char) : skipEscaped.Takes (letter :: rest) () rest := by
  unfold skipEscaped
  apply (takes_get _).bind
  split
  next hnil => simp at hnil
  next hcons => exact absurd (List.cons.inj hcons).1 (ne_of_lookup_escapes hletter)
  next hcons =>
    obtain ⟨rfl, rfl⟩ := List.cons.inj hcons
    rw [hletter]
    exact takes_set _ _

theorem takes_skipEscaped_unit {digits : List Char} {unit : Nat} (hunit : IsUnit digits unit)
    (rest : List Char) : skipEscaped.Takes ('u' :: (digits ++ rest)) () rest :=
  (takes_get _).bind ((takes_set _ _).bind ((takes_unit hunit rest).map fun _ => ()))

theorem takes_skipTextWithin_plain {c : Char} (hc : IsUnescaped c) {fuel : Nat}
    (h : (skipTextWithin fuel).Takes text () rest) :
    (skipTextWithin (fuel + 1)).Takes (c :: text) () rest := by
  obtain ⟨hquote, hslash, hcontrol⟩ := hc
  unfold skipTextWithin
  apply (takes_get _).bind
  split
  next hnil => simp at hnil
  next hcons => exact absurd (List.cons.inj hcons).1 hquote
  next hcons => exact absurd (List.cons.inj hcons).1 hslash
  next hcons =>
    obtain ⟨rfl, rfl⟩ := List.cons.inj hcons
    rw [if_neg (by omega)]
    exact (takes_set _ _).bind h

theorem takes_skipTextWithin {letters : List Char} (h : IsLetters letters) {fuel : Nat}
    (hfuel : letters.length < fuel) (rest : List Char) :
    (skipTextWithin fuel).Takes (letters ++ '"' :: rest) () rest := by
  induction h generalizing fuel with
  | nil =>
      obtain ⟨fuel, rfl⟩ := Nat.exists_eq_succ_of_ne_zero (Nat.ne_of_gt hfuel)
      rfl
  | plain hc h ih =>
      obtain ⟨fuel, rfl⟩ := Nat.exists_eq_succ_of_ne_zero (Nat.ne_zero_of_lt hfuel)
      exact takes_skipTextWithin_plain hc (ih (Nat.lt_of_succ_lt_succ hfuel))
  | escape hletter h ih =>
      obtain ⟨fuel, rfl⟩ := Nat.exists_eq_succ_of_ne_zero (Nat.ne_zero_of_lt hfuel)
      simp only [List.length_cons] at hfuel
      have hmore := @ih fuel (by omega)
      exact (takes_get _).bind ((takes_set _ _).bind ((takes_skipEscaped hletter _).bind hmore))
  | unit hunit h ih =>
      obtain ⟨fuel, rfl⟩ := Nat.exists_eq_succ_of_ne_zero (Nat.ne_zero_of_lt hfuel)
      simp only [List.length_cons, List.length_append] at hfuel
      have hmore := @ih fuel (by omega)
      rw [unit_append]
      exact (takes_get _).bind ((takes_set _ _).bind ((takes_skipEscaped_unit hunit _).bind hmore))

theorem takes_skipText {letters : List Char} (h : IsLetters letters) (rest : List Char) :
    skipText.Takes (letters ++ '"' :: rest) () rest := by
  unfold skipText
  refine (takes_get _).bind (takes_skipTextWithin h ?_ rest)
  simp only [List.length_append, List.length_cons]
  omega

/-! ## Steps -/

/-- Whether skipping gets from a point to the end of the value, with fuel for two steps to each
character. Behind an opening and behind a value there is one step more. -/
def Skips (point : SkipPoint) (frames : List Frame) (text left : List Char) : Prop :=
  ∀ fuel, 2 * text.length + (if point = .atValue then 0 else 1) ≤ fuel →
    (skipWithin fuel point frames).Takes text () left

/-- Whether skipping passes over a value, whatever is open around it. -/
def IsSkipped (v : List Char) : Prop :=
  ∀ frames spaces rest left, Spaces spaces → Delimited rest → Skips .afterValue frames rest left →
    Skips .atValue frames (spaces ++ (v ++ rest)) left

theorem skips_done (rest : List Char) : Skips .afterValue [] rest rest := by
  intro fuel hfuel
  obtain ⟨fuel, rfl⟩ := Nat.exists_eq_succ_of_ne_zero (Nat.ne_zero_of_lt hfuel)
  rfl

theorem isSkipped_of_isLeaf {v : List Char} (h : IsLeaf v) : IsSkipped v := by
  intro frames spaces rest left hspaces hrest hafter fuel hfuel
  obtain ⟨c, more, hv, -⟩ := h.head
  have hpositive : 0 < v.length := by simp [hv]
  simp only [List.length_append, ↓reduceIte] at hfuel
  obtain ⟨fuel, rfl⟩ := Nat.exists_eq_succ_of_ne_zero (n := fuel) (by omega)
  have hnext := hafter fuel (by simp; omega)
  unfold skipWithin
  cases h with
  | null =>
      exact (takes_peek hspaces (by decide) _ _).bind
        ((takes_advance _ _).bind ((takes_letters _ rest).bind hnext))
  | ofTrue =>
      exact (takes_peek hspaces (by decide) _ _).bind
        ((takes_advance _ _).bind ((takes_letters _ rest).bind hnext))
  | ofFalse =>
      exact (takes_peek hspaces (by decide) _ _).bind
        ((takes_advance _ _).bind ((takes_letters _ rest).bind hnext))
  | @string letters h =>
      rw [List.cons_append, List.append_assoc]
      exact (takes_peek hspaces (by decide) _ _).bind
        ((takes_advance _ _).bind ((takes_skipText h rest).bind hnext))
  | @number n h =>
      obtain ⟨written, hwritten⟩ := takes_numerals h
      obtain ⟨c, more, rfl, hc⟩ := h.head
      refine (takes_peek hspaces (not_mem_of_startsNumber hc).1 _ _).bind ?_
      split
      case h_7 =>
        simp only [hc]
        exact ((hwritten .invalidNumber rest hrest).map fun _ => ()).bind hnext
      -- none of the characters that open something else starts a number
      all_goals exact absurd hc (by decide)

theorem skips_opening {c : Char} (hc : c = '[' ∧ frame = .list ∨ c = '{' ∧ frame = .object)
    {spaces : List Char} (hspaces : Spaces spaces)
    (h : Skips .afterOpening (frame :: frames) text left) :
    Skips .atValue frames (spaces ++ c :: text) left := by
  intro fuel hfuel
  obtain ⟨fuel, rfl⟩ := Nat.exists_eq_succ_of_ne_zero (n := fuel) (by simp at hfuel; omega)
  have hnext := h fuel (by simp at hfuel ⊢; omega)
  unfold skipWithin
  rcases hc with ⟨rfl, rfl⟩ | ⟨rfl, rfl⟩
  · exact (takes_peek hspaces (by decide) _ _).bind ((takes_advance _ _).bind hnext)
  · exact (takes_peek hspaces (by decide) _ _).bind ((takes_advance _ _).bind hnext)

theorem isSpace_closing (frame : Frame) : isSpace frame.closing = false := by
  cases frame <;> decide

/-- A closing ends the value of its opening, whether anything stands between them or not. -/
theorem skips_closing {point : SkipPoint} (hpoint : point ≠ .atValue) {spaces : List Char}
    (hspaces : Spaces spaces) (h : Skips .afterValue frames rest left) :
    Skips point (frame :: frames) (spaces ++ frame.closing :: rest) left := by
  intro fuel hfuel
  obtain ⟨fuel, rfl⟩ := Nat.exists_eq_succ_of_ne_zero (n := fuel) (by simp at hfuel; omega)
  have hnext := h fuel (by simp at hfuel ⊢; omega)
  have hpeek (ended : Error) := takes_peek hspaces (isSpace_closing frame) rest ended
  cases point with
  | atValue => exact absurd rfl hpoint
  | afterOpening =>
      refine (hpeek _).bind ?_
      simp only [if_pos]
      exact (takes_advance _ _).bind hnext
  | afterValue =>
      have hcomma : frame.closing ≠ ',' := by cases frame <;> decide
      refine (hpeek _).bind ?_
      simp only [if_neg hcomma, if_pos]
      exact (takes_advance _ _).bind hnext

/-! ## Lists and objects -/

/-- Whether skipping gets from the front of a text into a value there, over its key if it has one.
Spaces in front of either are passed over when need be. -/
def Enters (frame : Frame) (core v : List Char) : Prop :=
  ∀ gap, Spaces gap → ∃ spaces, Spaces spaces ∧
    spaces.length + v.length ≤ gap.length + core.length ∧ ∀ rest,
      frame.skipKey.Takes (gap ++ (core ++ rest)) () (spaces ++ (v ++ rest))

inductive IsPiece (frame : Frame) : List Char → Prop where
  | mk (before behind : Gap) {core v : List Char}
      (hhead : ∃ c more, core = c :: more ∧ isSpace c = false ∧ c ≠ frame.closing)
      (henters : Enters frame core v) (hv : IsSkipped v) :
      IsPiece frame (before.val ++ (core ++ behind.val))

theorem isPiece_element {e : Spaced} (hv : IsValue e.inner) (hskipped : IsSkipped e.inner) :
    IsPiece .list e.text := by
  obtain ⟨c, more, hinner, hspace, hclose, -⟩ := hv.head
  refine .mk e.before e.behind ⟨c, more, hinner, hspace, hclose⟩ (fun gap hgap => ?_) hskipped
  exact ⟨gap, hgap, le_rfl, fun rest => Takes.pure () _⟩

theorem takes_colon_behind {spaces : List Char} (hspaces : Spaces spaces) (rest : List Char) :
    colon.Takes (spaces ++ ':' :: rest) () rest :=
  (takes_peek hspaces (by decide) _ _).bind (takes_advance _ _)

theorem isPiece_member {m : Member} (hkey : IsLetters m.key.inner)
    (hskipped : IsSkipped m.value.inner) : IsPiece .object m.text := by
  have htext : m.text = m.key.before.val ++ ('"' :: (m.key.inner ++ '"' :: (m.key.behind.val ++
      ':' :: (m.value.before.val ++ m.value.inner))) ++ m.value.behind.val) := by
    simp [Member.text, Member.lead, Spaced.text]
  rw [htext]
  refine .mk _ _ ⟨'"', _, rfl, by decide⟩ (fun gap hgap => ?_) hskipped
  refine ⟨m.value.before.val, m.value.before.property, by simp; omega, fun rest => ?_⟩
  simp only [List.cons_append, List.append_assoc]
  refine (takes_peek hgap (by decide) _ _).bind ((takes_advance _ _).bind ?_)
  exact (takes_skipText hkey _).bind (takes_colon_behind m.key.behind.property _)

theorem delimited_pieces (pieces : List (List Char)) {gap : List Char} (hgap : Spaces gap)
    (frame : Frame) (rest : List Char) :
    Delimited (gap ++ (pieces.flatMap (',' :: ·) ++ frame.closing :: rest)) := by
  apply delimited_append hgap
  cases pieces with
  | nil => cases frame <;> exact delimited_cons (by decide) rest
  | cons piece pieces => exact delimited_cons (by decide) _

theorem Enters.takes {core v : List Char} (h : Enters frame core v) (hv : IsSkipped v)
    {gap : List Char} (hgap : Spaces gap) (hrest : Delimited rest)
    (hafter : Skips .afterValue (frame :: frames) rest left) {fuel : Nat}
    (hfuel : 2 * (gap ++ (core ++ rest)).length ≤ fuel) :
    Takes (do frame.skipKey; skipWithin fuel .atValue (frame :: frames)) (gap ++ (core ++ rest)) ()
      left := by
  obtain ⟨spaces, hspaces, hlength, hkey⟩ := h gap hgap
  refine (hkey rest).bind (hv _ spaces rest left hspaces hrest hafter fuel ?_)
  simp only [List.length_append, ↓reduceIte] at hfuel ⊢
  omega

/-- Behind an element or a member stand more of them, and the closing. -/
theorem skips_pieces {pieces : List (List Char)} (hpieces : ∀ piece ∈ pieces, IsPiece frame piece)
    {gap : List Char} (hgap : Spaces gap) (h : Skips .afterValue frames rest left) :
    Skips .afterValue (frame :: frames)
      (gap ++ (pieces.flatMap (',' :: ·) ++ frame.closing :: rest)) left := by
  induction pieces generalizing gap with
  | nil => exact skips_closing (by decide) hgap h
  | cons piece pieces ih =>
      obtain ⟨before, behind, hhead, henters, hv⟩ := hpieces piece List.mem_cons_self
      have hafter := ih (fun piece hpiece => hpieces piece (List.mem_cons_of_mem _ hpiece))
        behind.property
      intro fuel hfuel
      obtain ⟨fuel, rfl⟩ := Nat.exists_eq_succ_of_ne_zero (n := fuel) (by simp at hfuel; omega)
      simp only [List.flatMap_cons, List.cons_append, List.append_assoc] at hfuel ⊢
      refine (takes_peek hgap (by decide) _ _).bind ((takes_advance _ _).bind ?_)
      refine henters.takes hv before.property
        (delimited_pieces pieces behind.property frame rest) hafter ?_
      simp at hfuel ⊢
      omega

/-- Behind an opening stand elements or members, or none, and the closing. -/
theorem skips_opened (frame : Frame) {pieces : List (List Char)}
    (hpieces : ∀ piece ∈ pieces, IsPiece frame piece) {gap : List Char} (hgap : Spaces gap)
    (h : Skips .afterValue frames rest left) :
    Skips .afterOpening (frame :: frames)
      (gap ++ (separated pieces ++ frame.closing :: rest)) left := by
  cases pieces with
  | nil => exact skips_closing (by decide) hgap h
  | cons piece pieces =>
      obtain ⟨before, behind, ⟨c, more, rfl, hspace, hclose⟩, henters, hv⟩ :=
        hpieces piece List.mem_cons_self
      have hmore (piece) (hpiece : piece ∈ pieces) := hpieces piece (List.mem_cons_of_mem _ hpiece)
      have hafter := skips_pieces hmore behind.property h
      intro fuel hfuel
      obtain ⟨fuel, rfl⟩ := Nat.exists_eq_succ_of_ne_zero (n := fuel) (by simp at hfuel; omega)
      simp only [separated, List.cons_append, List.append_assoc] at hfuel ⊢
      rw [← List.append_assoc]
      refine (takes_peek (hgap.append before.property) hspace _ _).bind ?_
      simp only [if_neg hclose]
      refine henters.takes hv spaces_nil
        (delimited_pieces pieces behind.property frame rest) hafter ?_
      simp at hfuel ⊢
      omega

theorem isSkipped_of_isValue {v : List Char} (h : IsValue v) : IsSkipped v := by
  induction h with
  | leaf h => exact isSkipped_of_isLeaf h
  | list gap h ih =>
      intro frames spaces rest left hspaces hrest hafter
      have hopened := skips_opened .list
        (List.forall_mem_map.mpr fun e he => isPiece_element (h e he) (ih e he)) gap.property hafter
      simpa [listText, Frame.closing] using skips_opening (.inl ⟨rfl, rfl⟩) hspaces hopened
  | object gap hkeys h ih =>
      intro frames spaces rest left hspaces hrest hafter
      have hopened := skips_opened .object
        (List.forall_mem_map.mpr fun m hm => isPiece_member (hkeys m hm) (ih m hm))
        gap.property hafter
      simpa [objectText, Frame.closing] using skips_opening (.inr ⟨rfl, rfl⟩) hspaces hopened

/-- Skipping takes every value, and nothing of what stands behind it. -/
theorem judges_skip {v : List Char} (h : IsValue v) : Judges skip v (some ()) := by
  intro spaces hspaces rest hrest
  have hskips := isSkipped_of_isValue h [] spaces rest rest hspaces hrest (skips_done rest)
  exact (takes_get _).bind (hskips _ (by simp))

end BankTrace.Json.Reader
