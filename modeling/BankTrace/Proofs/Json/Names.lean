import BankTrace.Proofs.Json.Leaves

/-!
# Names in JSON text

A text that is read as a string is read as the name which the string is, however the string is
spelled, and a name is resolved by a table that has it.
-/

namespace BankTrace.Json.Reader

variable {α : Type} {input rest : List Char}

/-! ## Texts that are strings -/

theorem Takes.head_of_peek {ended : Error} {c : Char} (h : (peek ended).Takes input c rest) :
    ∃ more, rest = c :: more := by
  obtain ⟨_, left, _, hlook⟩ := h.of_bind
  obtain ⟨_, _, hget, hfirst⟩ := hlook.of_bind
  obtain ⟨hseen, hleft⟩ := hget.unique (takes_get left)
  rw [hseen, hleft] at hfirst
  cases left with
  | nil => cases hfirst
  | cons d more =>
      obtain ⟨rfl, rfl⟩ := hfirst.of_pure
      exact ⟨more, rfl⟩

/-- Only what begins with a quote is found to be a string. -/
theorem Takes.text_of_found {s : String} (h : found.Takes input (.string s) rest) :
    ∃ more, (peek .endInValue).Takes input '"' ('"' :: more) ∧ text.Takes more s.toList rest := by
  obtain ⟨c, middle, hpeek, hkind⟩ := h.of_bind
  obtain ⟨more, rfl⟩ := hpeek.head_of_peek
  have hletters {word : List Char} {other : Found}
      (htakes : (do advance; letters word; Pure.pure other : Reader Found).Takes (c :: more)
        (.string s) rest) : .string s = other := by
    obtain ⟨_, _, _, hword⟩ := htakes.of_bind
    obtain ⟨_, _, _, hpure⟩ := hword.of_bind
    exact hpure.of_pure.1
  split at hkind
  · exact absurd (hletters hkind) (by simp)
  · exact absurd (hletters hkind) (by simp)
  · exact absurd (hletters hkind) (by simp)
  · obtain ⟨_, _, hadvance, hstring⟩ := hkind.of_bind
    obtain ⟨-, rfl⟩ := hadvance.unique (takes_advance _ _)
    obtain ⟨name, _, htext, hpure⟩ := hstring.of_bind
    obtain ⟨hname, rfl⟩ := hpure.of_pure
    obtain rfl := Found.string.inj hname
    exact ⟨_, hpeek, by rwa [String.toList_ofList]⟩
  · exact absurd hkind.of_pure.1 (by simp)
  · exact absurd hkind.of_pure.1 (by simp)
  · split_ifs at hkind
    · obtain ⟨_, hother⟩ := hkind.of_map
      exact absurd hother (by simp)
    · cases hkind

/-! ## Reading strings -/

theorem run_string_of_spells {letters before behind : List Char} {s expected : String}
    (h : Spells letters s.toList) (hbefore : Spaces before) (hbehind : Spaces behind) :
    run (string expected) (String.ofList (before ++ '"' :: (letters ++ '"' :: behind))) =
      .ok s := by
  have hdelimited : Delimited behind := by
    simpa using delimited_append hbehind delimited_nil
  have hfound : found.Takes _ (.string (String.ofList s.toList)) behind :=
    judges_found_string (readsAs_of_spells h) before hbefore behind hdelimited
  have htext : before ++ '"' :: (letters ++ '"' :: behind) =
      before ++ ('"' :: (letters ++ ['"']) ++ behind) := by simp
  rw [String.ofList_toList, ← htext] at hfound
  refine run_eq_ok_iff.mpr ⟨behind, ?_, hbehind⟩
  rw [String.toList_ofList]
  exact hfound.bind (Takes.pure s behind)

theorem run_string_line (s expected : String) :
    run (string expected) (Value.ofString s).line = .ok s := by
  have htakes := takes_string spaces_nil s [] expected
  refine run_eq_ok_iff.mpr ⟨[], ?_, spaces_nil⟩
  rw [Value.line, String.toList_ofList]
  simpa [Value.ofString, Value.compact, Value.quote] using htakes

/-- What is read as a string is read as a name by resolving it. -/
theorem run_named {resolve : List Char → Except Error α} {content : α → Reader α}
    {text s expected : String} (h : run (string expected) text = .ok s) :
    run (named resolve pure content) text = resolve s.toList := by
  obtain ⟨rest, hstring, hspaces⟩ := run_eq_ok_iff.mp h
  obtain ⟨leaf, middle, hfound, hleaf⟩ := hstring.of_bind
  obtain ⟨rfl, rfl⟩ : leaf = .string s ∧ rest = middle := by
    split at hleaf
    next t =>
      obtain ⟨rfl, rfl⟩ := hleaf.of_pure
      exact ⟨rfl, rfl⟩
    next => cases hleaf
  obtain ⟨more, hpeek, htext⟩ := hfound.text_of_found
  have hnamed : StateT.run (named resolve pure content) text.toList =
      (resolve s.toList).map fun a => (a, rest) := by
    refine (hpeek.run_bind _).trans ?_
    refine ((takes_advance _ _).run_bind _).trans ?_
    refine (htext.run_bind _).trans ?_
    cases resolve s.toList <;> rfl
  cases hname : resolve s.toList with
  | ok a =>
      rw [hname] at hnamed
      exact run_eq_ok_iff.mpr ⟨rest, hnamed, hspaces⟩
  | error e =>
      rw [run, hnamed, hname]
      rfl

/-! ## Tables -/

/-- Where no two entries have one name, a name is resolved to the value of its entry. -/
theorem resolveIn_eq_ok_iff {table : List (String × α)} (hnames : (table.map Prod.fst).Nodup)
    {s : String} {a : α} : resolveIn table s.toList = .ok a ↔ (s, a) ∈ table := by
  unfold resolveIn
  constructor
  · intro h
    split at h
    next entry hentry =>
      obtain rfl := Except.ok.inj h
      have hname : entry.1.toList = s.toList := by simpa using List.find?_some hentry
      rw [← String.toList_inj.mp hname]
      exact List.mem_of_find?_eq_some hentry
    next => simp at h
  · intro h
    cases hentry : table.find? fun entry => entry.1.toList == s.toList with
    | none => simpa using List.find?_eq_none.mp hentry _ h
    | some entry =>
        have hname : entry.1.toList = s.toList := by simpa using List.find?_some hentry
        have hsame := List.inj_on_of_nodup_map hnames (List.mem_of_find?_eq_some hentry) h
          (String.toList_inj.mp hname)
        rw [hsame]

theorem resolveIn_eq_error {table : List (String × α)} {s : String}
    (h : ∀ a, resolveIn table s.toList ≠ .ok a) :
    resolveIn table s.toList = .error (.unknownName s (table.map Prod.fst)) := by
  unfold resolveIn at h ⊢
  split
  next entry hentry =>
    rw [hentry] at h
    exact absurd rfl (h entry.2)
  next => rw [String.ofList_toList]

end BankTrace.Json.Reader
