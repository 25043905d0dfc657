import BankTrace.Proofs.Json.Takes

/-!
# Values spread over lines are read back

Lists and objects are taken element by element and member by member, over the line starts between
them. The readers of the elements and members may be any that take theirs.
-/

namespace BankTrace.Json.Reader

open Value

variable {α β : Type}

/-- Whether a reader reads a value as it is written at a depth: behind spaces, and in front of
anything that ends a number. -/
def Reads (reader : Reader α) (depth : Nat) (v : Value) (a : α) : Prop :=
  ∀ spaces, Spaces spaces → ∀ rest, EndsNumber rest →
    reader.Takes (spaces ++ v.spread depth ++ rest) a rest

theorem Reads.map {reader : Reader α} {depth : Nat} {v : Value} {a : α} (h : Reads reader depth v a)
    (f : α → β) : Reads (f <$> reader) depth v (f a) := fun spaces hspaces rest hend =>
  (h spaces hspaces rest hend).map f

theorem reads_string (s : String) (depth : Nat) (expected : String) :
    Reads (string expected) depth (.ofString s) s := fun _ hspaces rest _ =>
  takes_string hspaces s rest expected

theorem spread_ofNat (n depth : Nat) : (Value.ofNat n).spread depth = Nat.toDigits 10 n := by
  simp [ofNat, spread, compact, Number.text, Numeral.write]

theorem reads_natural {n greatest : Nat} (hn : n ≤ greatest) (hgreatest : greatest < UInt64.size)
    (depth : Nat) (expected : String) :
    Reads (natural greatest expected) depth (.ofNat n) n := by
  intro spaces hspaces rest hend
  rw [spread_ofNat]
  exact takes_natural hspaces hn hgreatest hend expected

theorem head_spread_ofNat (n depth : Nat) :
    ∃ c more, (Value.ofNat n).spread depth = c :: more ∧ isSpace c = false ∧ c ≠ ']' := by
  obtain ⟨c, more, hdigits⟩ := List.exists_cons_of_ne_nil (Nat.toDigits_ne_nil (n := n) (b := 10))
  have hdigit : c.isDigit = true :=
    Nat.isDigit_of_mem_toDigits (b := 10) (n := n) (by omega) le_rfl (by simp [hdigits])
  refine ⟨c, more, (spread_ofNat n depth).trans hdigits, isSpace_eq_false_of_isDigit hdigit, ?_⟩
  rintro rfl
  simp at hdigit

/-! ## Lists -/

/-- What stands between the opening of a list and its closing. The flag tells whether an element
comes first, in front of which there is no comma. -/
def separator (first : Bool) : List Char := if first then [] else [',']

theorem takes_hasElement (depth : Nat) (first : Bool) {c : Char} (hspace : isSpace c = false)
    (hclose : c ≠ ']') (rest : List Char) :
    (hasElement first).Takes (separator first ++ newLine depth ++ c :: rest) true (c :: rest) := by
  unfold hasElement
  cases first with
  | true =>
      apply (takes_peek (spaces_newLine depth) hspace _ _).bind
      split
      next => exact absurd rfl hclose
      · exact Takes.pure _ _
  | false =>
      apply (takes_peek_at (c := ',') (by decide) _ _).bind
      refine (takes_advance _ _).bind ((takes_peek (spaces_newLine depth) hspace _ _).bind ?_)
      simp only [if_neg hclose]
      exact Takes.pure _ _

theorem takes_hasElement_end (depth : Nat) (first : Bool) (rest : List Char) :
    (hasElement first).Takes (newLine depth ++ ']' :: rest) false (']' :: rest) :=
  (takes_peek (spaces_newLine depth) (by decide) _ _).bind (Takes.pure _ _)

theorem takes_endList (rest : List Char) : endList.Takes (']' :: rest) () rest :=
  (takes_peek_at (by decide) _ _).bind (takes_advance _ _)

theorem endsNumber_separator (depth : Nat) (rest : List Char) :
    EndsNumber (newLine depth ++ rest) ∧ EndsNumber (',' :: rest) := by
  refine ⟨⟨'\n', _, rfl, ?_⟩, ⟨',', _, rfl, ?_⟩⟩ <;> decide

/-- What follows an element ends a number: a comma or a new line. -/
theorem endsNumber_spreadElements (depth outer : Nat) (vs : List Value) (rest : List Char) :
    EndsNumber (spreadElements depth false vs ++ newLine outer ++ rest) := by
  cases vs with
  | nil => exact (endsNumber_separator outer rest).1
  | cons v vs => exact ⟨',', _, rfl, by decide⟩

theorem takes_elementsWithin {item : Reader α} {toValue : α → Value} {depth : Nat}
    (hitem : ∀ a, Reads item depth (toValue a) a)
    (hhead : ∀ a, ∃ c more, (toValue a).spread depth = c :: more ∧ isSpace c = false ∧ c ≠ ']')
    (outer : Nat) (as : List α) {fuel : Nat} (hfuel : as.length < fuel) (first : Bool)
    (seen : List α) (rest : List Char) :
    (elementsWithin item fuel first seen).Takes
      (spreadElements depth first (as.map toValue) ++ newLine outer ++ ']' :: rest)
      (seen.reverse ++ as) (']' :: rest) := by
  induction as generalizing fuel first seen with
  | nil =>
      obtain ⟨fuel, rfl⟩ := Nat.exists_eq_succ_of_ne_zero (Nat.ne_of_gt hfuel)
      rw [List.append_nil]
      exact (takes_hasElement_end outer first rest).bind (Takes.pure _ _)
  | cons a as ih =>
      obtain ⟨fuel, rfl⟩ := Nat.exists_eq_succ_of_ne_zero (Nat.ne_of_gt (Nat.zero_lt_of_lt hfuel))
      obtain ⟨c, more, hspread, hspace, hclose⟩ := hhead a
      have hmore := hitem a [] spaces_nil _
        (endsNumber_spreadElements depth outer (as.map toValue) (']' :: rest))
      have htext : spreadElements depth first ((a :: as).map toValue) ++ newLine outer ++
          ']' :: rest = separator first ++ newLine depth ++ c :: (more ++
            (spreadElements depth false (as.map toValue) ++ newLine outer ++ ']' :: rest)) := by
        simp [spreadElements, hspread, separator]
      rw [hspread, List.nil_append] at hmore
      rw [htext]
      refine (takes_hasElement depth first hspace hclose _).bind (hmore.bind ?_)
      have h := ih (Nat.lt_of_succ_lt_succ hfuel) false (a :: seen)
      have hlist : (a :: seen).reverse ++ as = seen.reverse ++ a :: as := by simp
      rwa [hlist] at h

theorem length_le_length_spreadElements (depth : Nat) (first : Bool) (vs : List Value) :
    vs.length ≤ (spreadElements depth first vs).length := by
  induction vs generalizing first with
  | nil => simp
  | cons v vs ih =>
      have := ih false
      simp only [spreadElements, newLine, List.length_append, List.length_cons]
      omega

theorem takes_elements {item : Reader α} {toValue : α → Value} {depth : Nat}
    (hitem : ∀ a, Reads item (depth + 1) (toValue a) a)
    (hhead : ∀ a, ∃ c more, (toValue a).spread (depth + 1) = c :: more ∧ isSpace c = false ∧
      c ≠ ']')
    (as : List α) (rest : List Char) :
    ∃ behind, (Value.list (as.map toValue)).spread depth ++ rest = '[' :: behind ∧
      (elements item).Takes behind as rest := by
  cases as with
  | nil =>
      refine ⟨']' :: rest, by simp [spread, compact, compactElements], ?_⟩
      unfold elements
      apply (takes_get _).bind
      have hnone : (hasElement true).Takes (']' :: rest) false (']' :: rest) :=
        (takes_peek_at (by decide) _ _).bind (Takes.pure _ _)
      have hnil : (elementsWithin item ((']' :: rest).length + 1) true []).Takes (']' :: rest) []
          (']' :: rest) := hnone.bind (Takes.pure _ _)
      exact hnil.bind ((takes_endList rest).bind (Takes.pure _ _))
  | cons a as =>
      refine ⟨spreadElements (depth + 1) true ((a :: as).map toValue) ++ newLine depth ++
        ']' :: rest, by simp [spread], ?_⟩
      unfold elements
      apply (takes_get _).bind
      have hfuel := length_le_length_spreadElements (depth + 1) true ((a :: as).map toValue)
      rw [List.length_map] at hfuel
      refine (takes_elementsWithin hitem hhead depth (a :: as) ?_ true [] rest).bind
        ((takes_endList rest).bind (Takes.pure _ _))
      simp only [List.length_append]
      omega

/-! ## Objects -/

theorem takes_colon (rest : List Char) : colon.Takes (':' :: rest) () rest :=
  (takes_peek_at (by decide) _ _).bind (takes_advance _ _)

theorem takes_hasMember (depth : Nat) (first : Bool) (rest : List Char) :
    (hasMember first).Takes (separator first ++ newLine depth ++ '"' :: rest) true
      ('"' :: rest) := by
  unfold hasMember
  cases first with
  | true =>
      exact (takes_peek (spaces_newLine depth) (by decide) _ _).bind
        ((Takes.pure _ _).bind (Takes.pure _ _))
  | false =>
      apply (takes_peek_at (c := ',') (by decide) _ _).bind
      exact (takes_advance _ _).bind
        ((takes_peek (spaces_newLine depth) (by decide) _ _).bind (Takes.pure _ _))

theorem takes_hasMember_end (depth : Nat) (first : Bool) (rest : List Char) :
    (hasMember first).Takes (newLine depth ++ '}' :: rest) false ('}' :: rest) :=
  (takes_peek (spaces_newLine depth) (by decide) _ _).bind (Takes.pure _ _)

/-- What reading members one after the other makes of a start. -/
inductive Makes (member : β → List Char → Reader β) (depth : Nat) :
    β → List (List Char × Value) → β → Prop where
  | nil (b) : Makes member depth b [] b
  | cons {b next last key v members}
      (h : ∀ rest, EndsNumber rest →
        (member b key).Takes (':' :: ([' '] ++ v.spread depth ++ rest)) next rest)
      (hmore : Makes member depth next members last) :
      Makes member depth b ((key, v) :: members) last

theorem endsNumber_spreadMembers (depth outer : Nat) (ms : List (List Char × Value))
    (rest : List Char) : EndsNumber (spreadMembers depth false ms ++ newLine outer ++ rest) := by
  cases ms with
  | nil => exact (endsNumber_separator outer rest).1
  | cons m ms => exact ⟨',', _, rfl, by decide⟩

theorem takes_membersWithin {member : β → List Char → Reader β} {depth : Nat} (outer : Nat)
    {ms : List (List Char × Value)} {b last : β} (h : Makes member depth b ms last) {fuel : Nat}
    (hfuel : ms.length < fuel) (first : Bool) (rest : List Char) :
    (membersWithin member fuel first b).Takes
      (spreadMembers depth first ms ++ newLine outer ++ '}' :: rest) last ('}' :: rest) := by
  induction h generalizing fuel first with
  | nil b =>
      obtain ⟨fuel, rfl⟩ := Nat.exists_eq_succ_of_ne_zero (Nat.ne_of_gt hfuel)
      exact (takes_hasMember_end outer first rest).bind (Takes.pure _ _)
  | @cons b next last key v ms h hmore ih =>
      obtain ⟨fuel, rfl⟩ := Nat.exists_eq_succ_of_ne_zero (Nat.ne_of_gt (Nat.zero_lt_of_lt hfuel))
      have hmember := h _ (endsNumber_spreadMembers depth outer ms ('}' :: rest))
      have htext : spreadMembers depth first ((key, v) :: ms) ++ newLine outer ++ '}' :: rest =
          separator first ++ newLine depth ++ '"' :: (key.flatMap escape ++ '"' ::
            (':' :: ([' '] ++ v.spread depth ++
              (spreadMembers depth false ms ++ newLine outer ++ '}' :: rest)))) := by
        simp [spreadMembers, separator, quote]
      rw [htext]
      exact (takes_hasMember depth first _).bind ((takes_advance _ _).bind
        ((takes_text key _).bind (hmember.bind (ih (Nat.lt_of_succ_lt_succ hfuel) false))))

theorem length_le_length_spreadMembers (depth : Nat) (first : Bool)
    (ms : List (List Char × Value)) : ms.length ≤ (spreadMembers depth first ms).length := by
  induction ms generalizing first with
  | nil => simp
  | cons m ms ih =>
      obtain ⟨key, v⟩ := m
      have := ih false
      simp only [spreadMembers, newLine, List.length_append, List.length_cons]
      omega

theorem takes_members {member : β → List Char → Reader β} {depth : Nat}
    {ms : List (List Char × Value)} (hne : ms ≠ []) {start last : β}
    (h : Makes member (depth + 1) start ms last) (rest : List Char) :
    ∃ behind, (Value.object ms).spread depth ++ rest = '{' :: behind ∧
      (members start member).Takes behind last rest := by
  obtain ⟨m, more, rfl⟩ := List.exists_cons_of_ne_nil hne
  refine ⟨spreadMembers (depth + 1) true (m :: more) ++ newLine depth ++ '}' :: rest,
    by simp [spread], ?_⟩
  unfold members
  apply (takes_get _).bind
  have hfuel := length_le_length_spreadMembers (depth + 1) true (m :: more)
  refine (takes_membersWithin depth h ?_ true rest).bind
    ((takes_advance _ _).bind (Takes.pure _ _))
  simp only [List.length_append]
  omega

/-! ## Names -/

theorem reads_named_alone {name : List Char} {a : α} {resolve : List Char → Except Error α}
    (hname : resolve name = .ok a) {alone content : α → Reader β} {b : β}
    (h : ∀ rest, (alone a).Takes rest b rest) (depth : Nat) :
    Reads (named resolve alone content) depth (.string name) b := by
  intro spaces hspaces rest _
  have htext : spaces ++ (Value.string name).spread depth ++ rest =
      spaces ++ '"' :: (name.flatMap escape ++ '"' :: rest) := by
    simp [spread, compact, quote]
  have hresolved : Takes (liftM (Except.ok a : Except Error α)) rest a rest := rfl
  rw [htext]
  unfold named
  apply (takes_peek hspaces (by decide) _ _).bind
  refine (takes_advance _ _).bind ((takes_text name rest).bind ?_)
  rw [hname]
  exact hresolved.bind (h rest)

theorem reads_named_content {name : List Char} {a : α} {resolve : List Char → Except Error α}
    (hname : resolve name = .ok a) {alone content : α → Reader β} {depth : Nat} {v : Value} {b : β}
    (h : Reads (content a) (depth + 1) v b) :
    Reads (named resolve alone content) depth (.object [(name, v)]) b := by
  intro spaces hspaces rest _
  have htext : spaces ++ (Value.object [(name, v)]).spread depth ++ rest =
      spaces ++ '{' :: (newLine (depth + 1) ++ '"' :: (name.flatMap escape ++ '"' ::
        (':' :: ([' '] ++ v.spread (depth + 1) ++ (newLine depth ++ '}' :: rest))))) := by
    simp [spread, spreadMembers, quote]
  have hcontent := h [' '] (by simp [Spaces, isSpace]) _
    (endsNumber_separator depth ('}' :: rest)).1
  have hresolved : Takes (liftM (Except.ok a : Except Error α))
      (':' :: ([' '] ++ v.spread (depth + 1) ++ (newLine depth ++ '}' :: rest))) a _ := rfl
  rw [htext]
  unfold named
  refine (takes_peek hspaces (by decide) _ _).bind ((takes_advance _ _).bind ?_)
  apply (takes_peek (spaces_newLine _) (by decide) _ _).bind
  refine (takes_advance _ _).bind ((takes_text name _).bind ?_)
  rw [hname]
  refine hresolved.bind ((takes_colon _).bind (hcontent.bind ?_))
  exact (takes_peek (spaces_newLine depth) (by decide) _ _).bind
    ((takes_advance _ _).bind (Takes.pure _ _))

end BankTrace.Json.Reader
