import BankTrace.Proofs.Json.Verdicts

/-!
# What readers make of strings, numbers and words

A string is read as the text it spells, if it spells one, and a number as what it is worth, if that
is in range. Where the reading ends does not depend on either.
-/

namespace BankTrace.Json.Reader

variable {α β : Type} {reader : Reader α} {middle rest : List Char}

/-! ## Strings -/

theorem takes_unit {digits : List Char} {unit : Nat} (h : IsUnit digits unit) (rest : List Char) :
    codeUnit.Takes (digits ++ rest) unit rest := by
  obtain ⟨hlength, hdigits⟩ := h
  have hbytes : ¬ byteCount digits < 4 := by
    have hone (text : List Char) : text.length ≤ byteCount text := by
      induction text with
      | nil => simp
      | cons c text ih =>
          have := c.utf8Size_pos
          simp only [byteCount, List.foldr_cons, List.length_cons] at ih ⊢
          omega
    have := hone digits
    omega
  have htake : (digits ++ rest).take 4 = digits := by rw [← hlength, List.take_left]
  have hdrop : (digits ++ rest).drop 4 = rest := by rw [← hlength, List.drop_left]
  unfold codeUnit
  apply (takes_get _).bind
  simp only [htake, hdrop, hbytes, hdigits]
  rfl

section TextWithin

variable {fuel unit unit' : Nat} {c letter : Char} {digits digits' seen : List Char}
variable {outcome : Option (List Char)}

theorem yields_textWithin_plain (hc : IsUnescaped c)
    (h : (textWithin fuel (c :: seen)).Yields middle outcome rest) :
    (textWithin (fuel + 1) seen).Yields (c :: middle) outcome rest := by
  obtain ⟨hquote, hslash, hcontrol⟩ := hc
  have hrun := run_textWithin_cons hquote hslash (Nat.not_lt.mpr hcontrol) fuel seen middle
  cases outcome with
  | none =>
      obtain ⟨e, he⟩ := h
      exact ⟨e, hrun.trans he⟩
  | some text => exact hrun.trans h

/-- Behind a backslash, an escape decides over the character and over how the text goes on. -/
theorem yields_textWithin_escaped {text : List Char}
    (h : (escaped >>= fun c => textWithin fuel (c :: seen)).Yields text outcome rest) :
    (textWithin (fuel + 1) seen).Yields ('\\' :: text) outcome rest :=
  (takes_get _).yields_bind ((takes_set _ _).yields_bind h)

theorem yields_textWithin_escape (hletter : escapes.lookup letter = some c)
    (h : (textWithin fuel (c :: seen)).Yields middle outcome rest) :
    (textWithin (fuel + 1) seen).Yields ('\\' :: letter :: middle) outcome rest :=
  yields_textWithin_escaped ((takes_escaped hletter middle).yields_bind h)

theorem yields_textWithin_unit (hunit : IsUnit digits unit) (hhigh : isHighSurrogate unit = false)
    (hlow : isLowSurrogate unit = false)
    (h : (textWithin fuel (Char.ofNat unit :: seen)).Yields middle outcome rest) :
    (textWithin (fuel + 1) seen).Yields ('\\' :: 'u' :: (digits ++ middle)) outcome rest := by
  have hescaped : escaped.Takes ('u' :: (digits ++ middle)) (Char.ofNat unit) middle := by
    unfold escaped
    refine (takes_get _).bind ((takes_set _ _).bind ((takes_unit hunit middle).bind ?_))
    simp only [hlow, hhigh]
    exact Takes.pure _ _
  exact yields_textWithin_escaped (hescaped.yields_bind h)

theorem fails_textWithin_low (hunit : IsUnit digits unit) (hlow : isLowSurrogate unit = true)
    (middle : List Char) :
    (textWithin (fuel + 1) seen).Fails ('\\' :: 'u' :: (digits ++ middle)) := by
  have hescaped : escaped.Fails ('u' :: (digits ++ middle)) := by
    unfold escaped
    refine (takes_get _).bind_fails ((takes_set _ _).bind_fails
      ((takes_unit hunit middle).bind_fails ?_))
    simp only [hlow]
    exact ⟨_, rfl⟩
  have htext : (textWithin (fuel + 1) seen).Yields _ none middle :=
    yields_textWithin_escaped (hescaped.bind _)
  exact htext

theorem isLowSurrogate_of_high (h : isHighSurrogate unit = true) : isLowSurrogate unit = false := by
  simp only [isHighSurrogate, isLowSurrogate, Bool.and_eq_true, decide_eq_true_eq,
    Bool.and_eq_false_iff, decide_eq_false_iff_not] at *
  omega

/-- The first half of a pair leaves it to the second whether there is a character. -/
theorem yields_escaped_high (hunit : IsUnit digits unit) (hhigh : isHighSurrogate unit = true)
    {low : Option Nat} (h : lowSurrogate.Yields middle low rest) :
    escaped.Yields ('u' :: (digits ++ middle)) (low.map (ofPair unit)) rest := by
  unfold escaped
  refine (takes_get _).yields_bind ((takes_set _ _).yields_bind
    ((takes_unit hunit middle).yields_bind ?_))
  simp only [isLowSurrogate_of_high hhigh, hhigh]
  exact h.map (ofPair unit)

theorem takes_lowSurrogate (hunit : IsUnit digits unit) (hlow : isLowSurrogate unit = true)
    (rest : List Char) : lowSurrogate.Takes ('\\' :: 'u' :: (digits ++ rest)) unit rest := by
  unfold lowSurrogate
  refine (takes_get _).bind ((takes_set _ _).bind ((takes_unit hunit rest).bind ?_))
  simp only [hlow]
  exact Takes.pure _ _

/-- What follows the first half of a pair is the second half, or it is no help. -/
theorem lowSurrogate_of_isLetters {letters : List Char} (h : IsLetters letters) :
    (∃ digits unit more, letters = '\\' :: 'u' :: (digits ++ more) ∧ IsUnit digits unit ∧
      isLowSurrogate unit = true ∧ IsLetters more) ∨
    ∀ rest, lowSurrogate.Fails (letters ++ '"' :: rest) := by
  cases h with
  | nil => exact .inr fun rest => ⟨_, rfl⟩
  | @plain c letters hc h =>
      refine .inr fun rest => ?_
      unfold lowSurrogate
      apply (takes_get _).bind_fails
      split
      next hnil => simp at hnil
      next hcons => exact absurd (List.cons.inj hcons).1 hc.2.1
      next hcons => exact absurd (List.cons.inj hcons).1 hc.2.1
      next => exact fails_throw _ _
  | @escape letter c letters hletter h =>
      refine .inr fun rest => ?_
      unfold lowSurrogate
      apply (takes_get _).bind_fails
      split
      next => exact fails_throw _ _
      next => exact fails_throw _ _
      next hcons =>
        exact absurd (List.cons.inj (List.cons.inj hcons).2).1 (ne_of_lookup_escapes hletter)
      next => exact fails_throw _ _
  | @unit digits unit letters hunit h =>
      cases hlow : isLowSurrogate unit with
      | true => exact .inl ⟨digits, unit, letters, rfl, hunit, hlow, h⟩
      | false =>
          refine .inr fun rest => ?_
          unfold lowSurrogate
          rw [List.cons_append, List.cons_append, List.append_assoc]
          refine (takes_get _).bind_fails ((takes_set _ _).bind_fails
            ((takes_unit hunit _).bind_fails ?_))
          simp only [hlow]
          exact ⟨_, rfl⟩

end TextWithin

/-- What is read of what stands between quotes, behind whatever has been read before. -/
def ReadsAs (letters : List Char) (outcome : Option (List Char)) : Prop :=
  ∀ fuel seen rest, letters.length < fuel →
    (textWithin fuel seen).Yields (letters ++ '"' :: rest) (outcome.map (seen.reverse ++ ·)) rest

section ReadsAs

variable {high low : Nat} {c letter : Char} {letters more digits digits' : List Char}
variable {outcome : Option (List Char)}

theorem readsAs_nil : ReadsAs [] (some []) := by
  intro fuel seen rest hfuel
  obtain ⟨fuel, rfl⟩ := Nat.exists_eq_succ_of_ne_zero (Nat.ne_of_gt hfuel)
  rw [Option.map_some, List.append_nil]
  rfl

/-- A step of the reader spells one character. -/
theorem ReadsAs.step (h : ReadsAs more outcome) (hlength : more.length < letters.length)
    (hstep : ∀ fuel seen rest result,
      (textWithin fuel (c :: seen)).Yields (more ++ '"' :: rest) result rest →
        (textWithin (fuel + 1) seen).Yields (letters ++ '"' :: rest) result rest) :
    ReadsAs letters (outcome.map (c :: ·)) := by
  intro fuel seen rest hfuel
  obtain ⟨fuel, rfl⟩ := Nat.exists_eq_succ_of_ne_zero (Nat.ne_zero_of_lt hfuel)
  have hresult : (outcome.map (c :: ·)).map (seen.reverse ++ ·) =
      outcome.map ((c :: seen).reverse ++ ·) := by cases outcome <;> simp
  rw [hresult]
  exact hstep fuel seen rest _ (h fuel (c :: seen) rest (by omega))

theorem readsAs_none (h : ∀ fuel seen rest,
    (textWithin (fuel + 1) seen).Fails (letters ++ '"' :: rest)) : ReadsAs letters none := by
  intro fuel seen rest hfuel
  obtain ⟨fuel, rfl⟩ := Nat.exists_eq_succ_of_ne_zero (Nat.ne_zero_of_lt hfuel)
  exact h fuel seen rest

theorem ReadsAs.plain (h : ReadsAs letters outcome) (hc : IsUnescaped c) :
    ReadsAs (c :: letters) (outcome.map (c :: ·)) :=
  h.step (by simp) fun _ _ _ _ hyields => yields_textWithin_plain hc hyields

theorem ReadsAs.escape (h : ReadsAs letters outcome) (hletter : escapes.lookup letter = some c) :
    ReadsAs ('\\' :: letter :: letters) (outcome.map (c :: ·)) :=
  h.step (by simp) fun _ _ _ _ hyields => yields_textWithin_escape hletter hyields

theorem unit_append (digits letters rest : List Char) :
    '\\' :: 'u' :: (digits ++ letters) ++ rest = '\\' :: 'u' :: (digits ++ (letters ++ rest)) := by
  simp

theorem ReadsAs.unit (h : ReadsAs letters outcome) {unit : Nat} (hunit : IsUnit digits unit)
    (hhigh : isHighSurrogate unit = false) (hlow : isLowSurrogate unit = false) :
    ReadsAs ('\\' :: 'u' :: (digits ++ letters)) (outcome.map (Char.ofNat unit :: ·)) :=
  h.step (by simp; omega) fun _ _ _ _ hyields => by
    rw [unit_append]
    exact yields_textWithin_unit hunit hhigh hlow hyields

theorem ReadsAs.pair (h : ReadsAs letters outcome) (hunit : IsUnit digits high)
    (hunit' : IsUnit digits' low) (hhigh : isHighSurrogate high = true)
    (hlow : isLowSurrogate low = true) :
    ReadsAs ('\\' :: 'u' :: (digits ++ '\\' :: 'u' :: (digits' ++ letters)))
      (outcome.map (ofPair high low :: ·)) :=
  h.step (by simp; omega) fun _ _ rest _ hyields => by
    rw [unit_append, unit_append]
    have hlowest : lowSurrogate.Yields _ (some low) _ :=
      takes_lowSurrogate hunit' hlow (letters ++ '"' :: rest)
    exact yields_textWithin_escaped
      (Takes.yields_bind (yields_escaped_high hunit hhigh hlowest) hyields)

theorem readsAs_low (hunit : IsUnit digits low) (hlow : isLowSurrogate low = true) :
    ReadsAs ('\\' :: 'u' :: (digits ++ letters)) none :=
  readsAs_none fun _ _ _ => by
    rw [unit_append]
    exact fails_textWithin_low hunit hlow _

theorem readsAs_high (hunit : IsUnit digits high) (hhigh : isHighSurrogate high = true)
    (hfails : ∀ rest, lowSurrogate.Fails (letters ++ '"' :: rest)) :
    ReadsAs ('\\' :: 'u' :: (digits ++ letters)) none :=
  readsAs_none fun fuel seen rest => by
    rw [unit_append]
    have hlow : lowSurrogate.Yields (letters ++ '"' :: rest) none rest := hfails rest
    have htext : (textWithin (fuel + 1) seen).Yields _ none rest :=
      yields_textWithin_escaped (Fails.bind (yields_escaped_high hunit hhigh hlow) _)
    exact htext

end ReadsAs

theorem readsAs_of_isLetters {letters : List Char} (h : IsLetters letters) :
    ∃ outcome, ReadsAs letters outcome := by
  -- on the length, since the two halves of a pair are read in one step
  induction hlength : letters.length using Nat.strong_induction_on generalizing letters with
  | _ n ih =>
    subst hlength
    cases h with
    | nil => exact ⟨_, readsAs_nil⟩
    | plain hc h =>
        obtain ⟨outcome, hreads⟩ := ih _ (by simp) h rfl
        exact ⟨_, hreads.plain hc⟩
    | escape hletter h =>
        obtain ⟨outcome, hreads⟩ := ih _ (by simp) h rfl
        exact ⟨_, hreads.escape hletter⟩
    | @unit digits unit letters hunit h =>
        cases hlow : isLowSurrogate unit with
        | true => exact ⟨_, readsAs_low hunit hlow⟩
        | false =>
          cases hhigh : isHighSurrogate unit with
          | false =>
              obtain ⟨outcome, hreads⟩ := ih _ (by simp; omega) h rfl
              exact ⟨_, hreads.unit hunit hhigh hlow⟩
          | true =>
              rcases lowSurrogate_of_isLetters h with
                ⟨digits', unit', more, rfl, hunit', hlow', hmore⟩ | hfails
              · obtain ⟨outcome, hreads⟩ := ih _ (by simp; omega) hmore rfl
                exact ⟨_, hreads.pair hunit hunit' hhigh hlow'⟩
              · exact ⟨_, readsAs_high hunit hhigh hfails⟩

theorem readsAs_of_spells {letters s : List Char} (h : Spells letters s) :
    ReadsAs letters (some s) := by
  induction h with
  | nil => exact readsAs_nil
  | plain hc _ ih => exact ih.plain hc
  | escape hletter _ ih => exact ih.escape hletter
  | unit hunit hhigh hlow _ ih => exact ih.unit hunit hhigh hlow
  | pair hunit hunit' hhigh hlow _ ih => exact ih.pair hunit hunit' hhigh hlow

theorem ReadsAs.text {letters : List Char} {outcome : Option (List Char)}
    (h : ReadsAs letters outcome) (rest : List Char) :
    Reader.text.Yields (letters ++ '"' :: rest) outcome rest := by
  unfold Reader.text
  apply (takes_get _).yields_bind
  simpa using h _ [] rest (by simp)

/-! ## Numbers -/

theorem takes_accept (c : Char) (rest : List Char) : (accept c).Takes (c :: rest) true rest := by
  unfold accept
  apply (takes_get _).bind
  simp only [↓reduceIte]
  exact (takes_set _ _).bind (Takes.pure _ _)

theorem takes_accept_of_head {expected : Char} {rest : List Char}
    (h : ∀ c ∈ rest.head?, c ≠ expected) : (accept expected).Takes rest false rest := by
  cases rest with
  | nil => rfl
  | cons c rest => exact takes_accept_of_ne (h c rfl) rest

theorem takes_whole_of_isWhole {digits rest : List Char} (h : IsWhole digits)
    (hrest : ∀ c ∈ rest.head?, c.isDigit = false) (ended : Error) :
    (whole ended).Takes (digits ++ rest) digits rest := by
  have hzero : ¬ (digits.head? = some '0' ∧ digits.length ≠ 1) := by
    rintro ⟨hhead, hlength⟩
    rw [h.2 hhead] at hlength
    exact hlength rfl
  unfold whole
  apply (takes_digits h.1.1 (List.all_eq_true.mp h.1.2) hrest ended).bind
  rw [if_neg hzero]
  exact Takes.pure _ _

theorem takes_signedDigits {sign digits rest : List Char}
    (hsign : sign = [] ∨ sign = ['+'] ∨ sign = ['-']) (hdigits : IsDigits digits)
    (hrest : Delimited rest) (ended : Error) :
    (signedDigits ended).Takes (sign ++ (digits ++ rest)) (decide (sign = ['-']), digits) rest := by
  have htake : (Reader.digits ended).Takes (digits ++ rest) digits rest :=
    takes_digits hdigits.1 (List.all_eq_true.mp hdigits.2) (fun c hc => (hrest c hc).1) ended
  unfold signedDigits
  rcases hsign with rfl | rfl | rfl
  · have hplus := takes_accept_of_head (hdigits.ne_of_head (c := '+') (by decide) rest)
    exact (takes_accept_of_head (hdigits.ne_of_head (by decide) rest)).bind
      ((hplus.map fun _ => ()).bind (htake.bind (Takes.pure _ _)))
  · refine (takes_accept_of_ne (by decide) _).bind ?_
    exact ((takes_accept '+' _).map fun _ => ()).bind (htake.bind (Takes.pure _ _))
  · exact (takes_accept '-' _).bind (htake.bind (Takes.pure _ _))

theorem takes_sign {sign rest : List Char} (hsign : sign = [] ∨ sign = ['-'])
    (hrest : ∀ c ∈ rest.head?, c ≠ '-') :
    (accept '-').Takes (sign ++ rest) (decide (sign = ['-'])) rest := by
  rcases hsign with rfl | rfl
  · exact takes_accept_of_head hrest
  · exact takes_accept '-' rest

theorem takes_fraction {fraction : List Char} (h : IsFraction fraction) :
    ∃ read, ∀ ended rest, (∀ c ∈ rest.head?, c.isDigit = false ∧ c ≠ '.') →
      ∀ {next : Option (List Char) → Reader β} {b left}, (next read).Takes rest b left →
        Takes (do
          let found ← if ← accept '.' then some <$> digits ended else pure none
          next found) (fraction ++ rest) b left := by
  cases h with
  | none =>
      refine ⟨none, fun ended rest hrest next b left hnext => ?_⟩
      exact (takes_accept_of_head fun c hc => (hrest c hc).2).bind ((Takes.pure _ _).bind hnext)
  | @some run hrun =>
      refine ⟨some run, fun ended rest hrest next b left hnext => ?_⟩
      have hdigits := takes_digits hrun.1 (List.all_eq_true.mp hrun.2)
        (fun c hc => (hrest c hc).1) ended
      exact (takes_accept '.' _).bind ((hdigits.map some).bind hnext)

theorem takes_exponent {exponent : List Char} (h : IsExponent exponent) :
    ∃ read, ∀ ended rest, Delimited rest →
      (Reader.exponent ended).Takes (exponent ++ rest) read rest := by
  cases h with
  | none =>
      refine ⟨none, fun ended rest hrest => ?_⟩
      exact (takes_accept_of_head fun c hc => (hrest c hc).2.2.1).bind
        ((takes_accept_of_head fun c hc => (hrest c hc).2.2.2).bind (Takes.pure _ _))
  | @some mark sign digits hmark hsign hdigits =>
      refine ⟨some (decide (sign = ['-']), digits), fun ended rest hrest => ?_⟩
      have hsigned := (takes_signedDigits hsign hdigits hrest ended).map some
      rw [List.cons_append, List.append_assoc]
      rcases hmark with rfl | rfl
      · exact (takes_accept 'e' _).bind hsigned
      · exact (takes_accept_of_ne (by decide) _).bind ((takes_accept 'E' _).bind hsigned)

/-- A number is read the same in front of anything that ends it. -/
theorem takes_numerals {n : List Char} (h : IsNumber n) :
    ∃ written, ∀ ended rest, Delimited rest → (numerals ended).Takes (n ++ rest) written rest := by
  obtain @⟨sign, whole, fraction, exponent, hsign, hwhole, hfraction, hexponent⟩ := h
  obtain ⟨read, hread⟩ := takes_fraction hfraction
  obtain ⟨read', hread'⟩ := takes_exponent hexponent
  refine ⟨⟨decide (sign = ['-']), whole, read, read'⟩, fun ended rest hrest => ?_⟩
  have hhead := hexponent.head hrest
  simp only [List.append_assoc]
  refine (takes_sign hsign (hwhole.1.ne_of_head (by decide) _)).bind ?_
  refine (takes_whole_of_isWhole hwhole (hfraction.head fun c hc => (hhead c hc).1) ended).bind ?_
  exact hread ended _ hhead ((hread' ended rest hrest).bind (Takes.pure _ _))

theorem yields_number {n : List Char} {written : Numerals}
    (h : ∀ ended rest, Delimited rest → (numerals ended).Takes (n ++ rest) written rest)
    {rest : List Char} (hrest : Delimited rest) :
    number.Yields (n ++ rest) (Number.ofNumerals? written) rest := by
  apply (h .endInValue rest hrest).yields_bind
  cases Number.ofNumerals? written with
  | none => exact fails_throw _ _
  | some n => exact Takes.pure _ _

/-! ## Leaves -/

theorem takes_letters (word rest : List Char) : (letters word).Takes (word ++ rest) () rest := by
  induction word with
  | nil => rfl
  | cons c word ih =>
      unfold letters
      apply (takes_get _).bind
      simp only [List.cons_append, ↓reduceIte]
      exact (takes_set _ _).bind ih

theorem judges_found_string {letters : List Char} {outcome : Option (List Char)}
    (h : ReadsAs letters outcome) :
    Judges found ('"' :: (letters ++ ['"'])) (outcome.map fun s => .string (String.ofList s)) := by
  intro spaces hspaces rest _
  rw [List.cons_append, List.append_assoc]
  refine (takes_peek hspaces (by decide) _ _).yields_bind ((takes_advance _ _).yields_bind ?_)
  exact (h.text rest).map _

theorem judges_found_number {n : List Char} (h : IsNumber n) {written : Numerals}
    (hwritten : ∀ ended rest, Delimited rest → (numerals ended).Takes (n ++ rest) written rest) :
    Judges found n ((Number.ofNumerals? written).map .number) := by
  intro spaces hspaces rest hrest
  have hnumber := yields_number hwritten hrest
  obtain ⟨c, more, rfl, hc⟩ := h.head
  refine (takes_peek hspaces (not_mem_of_startsNumber hc).1 _ _).yields_bind ?_
  split
  case h_7 =>
    rw [if_pos hc]
    exact hnumber.map _
  -- none of the characters that open something else starts a number
  all_goals exact absurd hc (by decide)

theorem found_of_isLeaf {v : List Char} (h : IsLeaf v) :
    ∃ outcome, Judges found v outcome ∧ outcome ≠ some .list ∧ outcome ≠ some .object := by
  cases h with
  | null =>
      refine ⟨some .null, fun spaces hspaces rest _ => ?_, by simp, by simp⟩
      exact (takes_peek hspaces (by decide) _ _).bind
        ((takes_advance _ _).bind ((takes_letters _ rest).bind (Takes.pure _ _)))
  | ofTrue =>
      refine ⟨some (.boolean true), fun spaces hspaces rest _ => ?_, by simp, by simp⟩
      exact (takes_peek hspaces (by decide) _ _).bind
        ((takes_advance _ _).bind ((takes_letters _ rest).bind (Takes.pure _ _)))
  | ofFalse =>
      refine ⟨some (.boolean false), fun spaces hspaces rest _ => ?_, by simp, by simp⟩
      exact (takes_peek hspaces (by decide) _ _).bind
        ((takes_advance _ _).bind ((takes_letters _ rest).bind (Takes.pure _ _)))
  | @string letters h =>
      obtain ⟨outcome, hreads⟩ := readsAs_of_isLetters h
      exact ⟨_, judges_found_string hreads, by simp, by simp⟩
  | @number n h =>
      obtain ⟨written, hwritten⟩ := takes_numerals h
      exact ⟨_, judges_found_number h hwritten, by simp, by simp⟩

theorem takes_found_list {spaces : List Char} (hspaces : Spaces spaces) (rest : List Char) :
    found.Takes (spaces ++ '[' :: rest) .list ('[' :: rest) :=
  (takes_peek hspaces (by decide) _ _).bind (Takes.pure _ _)

theorem takes_found_object {spaces : List Char} (hspaces : Spaces spaces) (rest : List Char) :
    found.Takes (spaces ++ '{' :: rest) .object ('{' :: rest) :=
  (takes_peek hspaces (by decide) _ _).bind (Takes.pure _ _)

/-- A reader that goes by what it finds, where it is enough to look at one leaf, one list and one
object. -/
theorem decides_found {next : Found → Reader α}
    (hleaf : ∀ leaf, leaf ≠ .list → leaf ≠ .object →
      ∃ outcome, ∀ text, (next leaf).Yields text outcome text)
    (hlist : ∀ gap elements, (∀ e ∈ elements, IsValue e.inner) →
      ∃ outcome, ∀ rest, (next .list).Yields (listText gap elements ++ rest) outcome rest)
    (hobject : ∀ gap members, (∀ m ∈ members, IsLetters m.key.inner) →
      (∀ m ∈ members, IsValue m.value.inner) →
      ∃ outcome, ∀ rest, (next .object).Yields (objectText gap members ++ rest) outcome rest) :
    Decides (found >>= next) := by
  intro v hv
  cases hv with
  | leaf h =>
      obtain ⟨outcome, hfound, hnotList, hnotObject⟩ := found_of_isLeaf h
      cases outcome with
      | none => exact ⟨none, fun spaces hspaces rest hrest =>
          Fails.bind (hfound spaces hspaces rest hrest) next⟩
      | some leaf =>
          obtain ⟨result, hresult⟩ := hleaf leaf (fun heq => hnotList (congrArg some heq))
            fun heq => hnotObject (congrArg some heq)
          exact ⟨result, fun spaces hspaces rest hrest =>
            Takes.yields_bind (hfound spaces hspaces rest hrest) (hresult rest)⟩
  | list gap h =>
      obtain ⟨outcome, houtcome⟩ := hlist gap _ h
      exact ⟨outcome, fun spaces hspaces rest _ =>
        (takes_found_list hspaces _).yields_bind (houtcome rest)⟩
  | object gap hkeys h =>
      obtain ⟨outcome, houtcome⟩ := hobject gap _ hkeys h
      exact ⟨outcome, fun spaces hspaces rest _ =>
        (takes_found_object hspaces _).yields_bind (houtcome rest)⟩

/-- A reader that goes by what it finds and wants no list and no object. -/
theorem decides_found_leaf {next : Found → Reader α}
    (hleaf : ∀ leaf, ∃ outcome, ∀ text, (next leaf).Yields text outcome text)
    (hlist : ∀ text, (next .list).Fails text) (hobject : ∀ text, (next .object).Fails text) :
    Decides (found >>= next) :=
  decides_found (fun leaf _ _ => hleaf leaf) (fun _ _ _ => ⟨none, fun _ => hlist _⟩)
    fun _ _ _ _ => ⟨none, fun _ => hobject _⟩

theorem decides_natural (greatest : Nat) (expected : String) :
    Decides (natural greatest expected) := by
  refine decides_found_leaf (fun leaf => ?_) (fails_throw _) (fails_throw _)
  split
  next n =>
    by_cases hn : n ≤ greatest
    · exact ⟨some n, fun text => by rw [if_pos hn]; exact Takes.pure n text⟩
    · exact ⟨none, fun text => by rw [if_neg hn]; exact fails_throw _ text⟩
  next => exact ⟨none, fails_throw _⟩
  next => exact ⟨none, fails_throw _⟩

theorem decides_string (expected : String) : Decides (string expected) := by
  refine decides_found_leaf (fun leaf => ?_) (fails_throw _) (fails_throw _)
  split
  next s => exact ⟨some s, Takes.pure s⟩
  next => exact ⟨none, fails_throw _⟩

theorem decides_nothing : Decides nothing := by
  refine decides_found_leaf (fun leaf => ?_) (fails_throw _) (fails_throw _)
  split
  next => exact ⟨some (), Takes.pure ()⟩
  next => exact ⟨none, fails_throw _⟩

end BankTrace.Json.Reader
