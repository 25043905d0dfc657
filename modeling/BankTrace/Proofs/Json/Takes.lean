import BankTrace.Json.Reader
import BankTrace.Proofs.Text.Numeral
import Mathlib.Data.List.TakeWhile

/-!
# What readers take

A reader takes what a writer has written from the front of a text and leaves what follows, whatever
that is, except that a number has to end somewhere.
-/

namespace BankTrace.Json.Reader

variable {α β : Type}

/-- The reader takes a value from the front of a text and leaves the rest. -/
def Takes (reader : Reader α) (text : List Char) (a : α) (rest : List Char) : Prop :=
  StateT.run reader text = .ok (a, rest)

theorem Takes.unique {reader : Reader α} {text rest left : List Char} {a b : α}
    (h : reader.Takes text a rest) (h' : reader.Takes text b left) : a = b ∧ rest = left :=
  have heq : (a, rest) = (b, left) := Except.ok.inj (h.symm.trans h')
  ⟨congrArg Prod.fst heq, congrArg Prod.snd heq⟩

/-! ## Readers in a row -/

theorem Takes.pure (a : α) (text : List Char) : Takes (Pure.pure a) text a text := rfl

theorem Takes.run_bind {reader : Reader α} {text middle : List Char} {a : α}
    (h : reader.Takes text a middle) (next : α → Reader β) :
    StateT.run (reader >>= next) text = StateT.run (next a) middle := by
  rw [StateT.run_bind, h]
  rfl

theorem Takes.bind {reader : Reader α} {next : α → Reader β} {text middle rest : List Char} {a : α}
    {b : β} (ha : reader.Takes text a middle) (hb : (next a).Takes middle b rest) :
    (reader >>= next).Takes text b rest :=
  (ha.run_bind next).trans hb

theorem Takes.of_bind {reader : Reader α} {next : α → Reader β} {text rest : List Char} {b : β}
    (h : (reader >>= next).Takes text b rest) :
    ∃ a middle, reader.Takes text a middle ∧ (next a).Takes middle b rest := by
  unfold Takes at *
  rw [StateT.run_bind] at h
  cases hrun : StateT.run reader text with
  | error e =>
      rw [hrun] at h
      cases h
  | ok result =>
      rw [hrun] at h
      exact ⟨result.1, result.2, rfl, h⟩

theorem Takes.map {reader : Reader α} {text rest : List Char} {a : α} (h : reader.Takes text a rest)
    (f : α → β) : (f <$> reader).Takes text (f a) rest := by
  unfold Takes at *
  rw [StateT.run_map, h]
  rfl

theorem Takes.of_map {reader : Reader α} {f : α → β} {text rest : List Char} {b : β}
    (h : (f <$> reader).Takes text b rest) : ∃ a, b = f a := by
  unfold Takes at h
  rw [StateT.run_map] at h
  cases hrun : StateT.run reader text with
  | error e => simp [hrun] at h
  | ok result =>
      simp only [hrun] at h
      exact ⟨result.1, (congrArg Prod.fst (Except.ok.inj h)).symm⟩

theorem Takes.of_pure {a b : α} {text rest : List Char} (h : Takes (Pure.pure a) text b rest) :
    b = a ∧ rest = text :=
  h.unique (Takes.pure a text)

theorem takes_get (text : List Char) : Takes get text text text := rfl

theorem takes_set (text rest : List Char) : Takes (set rest) text ⟨⟩ rest := rfl

theorem takes_advance (c : Char) (rest : List Char) : advance.Takes (c :: rest) () rest := rfl

/-! ## Spaces -/

def Spaces (text : List Char) : Prop := ∀ c ∈ text, isSpace c = true

theorem spaces_nil : Spaces [] := by simp [Spaces]

theorem Spaces.append {front back : List Char} (hfront : Spaces front) (hback : Spaces back) :
    Spaces (front ++ back) := fun c hc => (List.mem_append.mp hc).elim (hfront c) (hback c)

theorem spaces_newLine (depth : Nat) : Spaces (Value.newLine depth) := by
  intro c hc
  rcases List.mem_cons.mp hc with rfl | hc
  · decide
  · obtain rfl := List.eq_of_mem_replicate hc
    decide

/-- The next character that is no space is seen and left. -/
theorem takes_peek {spaces : List Char} (hspaces : Spaces spaces) {c : Char}
    (hc : isSpace c = false) (rest : List Char) (ended : Error) :
    (peek ended).Takes (spaces ++ c :: rest) c (c :: rest) := by
  have hskip : (spaces ++ c :: rest).dropWhile isSpace = c :: rest := by
    induction spaces with
    | nil => simp [hc]
    | cons b spaces ih =>
        rw [List.cons_append, List.dropWhile_cons, hspaces b List.mem_cons_self]
        exact ih fun x hx => hspaces x (List.mem_cons_of_mem _ hx)
  have hmodify : skipSpace.Takes (spaces ++ c :: rest) () (c :: rest) :=
    congrArg (fun text => Except.ok ((), text)) hskip
  exact hmodify.bind ((takes_get _).bind (Takes.pure _ _))

theorem takes_peek_at {c : Char} (hc : isSpace c = false) (rest : List Char) (ended : Error) :
    (peek ended).Takes (c :: rest) c (c :: rest) :=
  takes_peek spaces_nil hc rest ended

theorem isSpace_eq_false_of_isDigit {c : Char} (h : c.isDigit = true) : isSpace c = false := by
  rw [Bool.eq_false_iff]
  intro hspace
  simp only [isSpace, Bool.or_eq_true, beq_iff_eq, or_assoc] at hspace
  rcases hspace with rfl | rfl | rfl | rfl <;> simp at h

/-- A whole text is read if nothing but spaces is left of it. -/
theorem run_eq_ok_iff {reader : Reader α} {text : String} {a : α} :
    run reader text = .ok a ↔ ∃ rest, reader.Takes text.toList a rest ∧ Spaces rest := by
  have hspaces (rest : List Char) : rest.dropWhile isSpace = [] ↔ Spaces rest :=
    List.dropWhile_eq_nil_iff
  unfold run Takes
  cases StateT.run reader text.toList with
  | error e => simp [bind, Except.bind]
  | ok result =>
      by_cases hrest : Spaces result.2
      · simp [bind, Except.bind, pure, Except.pure, hspaces, hrest, Prod.ext_iff]
      · simp [bind, Except.bind, hspaces, hrest, Prod.ext_iff]

/-! ## Strings -/

/-- The escapes of control characters are hexadecimal numerals. -/
theorem digits?_control : ∀ n < 0x20, Numeral.digits? 16
    ['0', '0', Nat.digitChar (n / 16), Nat.digitChar (n % 16)] = some n := by decide

theorem utf8Size_control : ∀ n < 0x20,
    byteCount ['0', '0', Nat.digitChar (n / 16), Nat.digitChar (n % 16)] = 4 := by decide

theorem takes_codeUnit {n : Nat} (hn : n < 0x20) (rest : List Char) :
    codeUnit.Takes
      ('0' :: '0' :: Nat.digitChar (n / 16) :: Nat.digitChar (n % 16) :: rest) n rest := by
  unfold codeUnit
  apply (takes_get _).bind
  have htake : ('0' :: '0' :: Nat.digitChar (n / 16) :: Nat.digitChar (n % 16) :: rest).take 4 =
      ['0', '0', Nat.digitChar (n / 16), Nat.digitChar (n % 16)] := rfl
  simp only [htake, utf8Size_control n hn, digits?_control n hn]
  rfl

/-- The letter of hexadecimal escapes stands for no character by itself. -/
theorem ne_of_lookup_escapes {letter c : Char} (h : escapes.lookup letter = some c) :
    letter ≠ 'u' := by
  rintro rfl
  have hnone : escapes.lookup 'u' = none := by decide
  simp [hnone] at h

/-- An escape with a letter is the character of the letter. -/
theorem takes_escaped {letter c : Char} (hletter : escapes.lookup letter = some c)
    (rest : List Char) : escaped.Takes (letter :: rest) c rest := by
  unfold escaped
  apply (takes_get _).bind
  split
  next h => simp at h
  next h => exact absurd (List.cons.inj h).1 (ne_of_lookup_escapes hletter)
  next h =>
    obtain ⟨rfl, rfl⟩ := List.cons.inj h
    rw [hletter]
    rfl

theorem takes_escaped_control {n : Nat} (hn : n < 0x20) (rest : List Char) :
    escaped.Takes
      ('u' :: '0' :: '0' :: Nat.digitChar (n / 16) :: Nat.digitChar (n % 16) :: rest)
      (Char.ofNat n) rest := by
  unfold escaped
  refine (takes_get _).bind ((takes_set _ _).bind ((takes_codeUnit hn rest).bind ?_))
  have hlow : isLowSurrogate n = false := by
    simp [isLowSurrogate]
    omega
  have hhigh : isHighSurrogate n = false := by
    simp [isHighSurrogate]
    omega
  simp only [hlow, hhigh]
  exact Takes.pure _ _

theorem run_textWithin_cons {c : Char} (hquote : c ≠ '"') (hslash : c ≠ '\\')
    (hcontrol : ¬ c.toNat < 0x20) (fuel : Nat) (seen rest : List Char) :
    StateT.run (textWithin (fuel + 1) seen) (c :: rest) =
      StateT.run (textWithin fuel (c :: seen)) rest := by
  rw [textWithin, (takes_get _).run_bind]
  split
  next hnil => simp at hnil
  next hcons => exact absurd (List.cons.inj hcons).1 hquote
  next hcons => exact absurd (List.cons.inj hcons).1 hslash
  next hcons =>
    obtain ⟨rfl, rfl⟩ := List.cons.inj hcons
    rw [if_neg hcontrol]
    exact (takes_set _ _).run_bind _

theorem takes_escape (c : Char) {fuel : Nat} {seen rest text left : List Char}
    (h : (textWithin fuel (c :: seen)).Takes rest text left) :
    (textWithin (fuel + 1) seen).Takes (Value.escape c ++ rest) text left := by
  have hescaped {more : List Char} (hc : escaped.Takes (more ++ rest) c rest) :
      (textWithin (fuel + 1) seen).Takes ('\\' :: more ++ rest) text left := by
    unfold textWithin
    exact (takes_get _).bind ((takes_set _ _).bind (hc.bind h))
  have hletter {letter : Char} (hc : escapes.lookup letter = some c) :
      (textWithin (fuel + 1) seen).Takes ('\\' :: [letter] ++ rest) text left :=
    hescaped (takes_escaped hc rest)
  unfold Value.escape
  split_ifs with hquote hslash hline hreturn htab hback hform hcontrol
  · exact hletter (by rw [hquote]; rfl)
  · exact hletter (by rw [hslash]; rfl)
  · exact hletter (by rw [hline]; rfl)
  · exact hletter (by rw [hreturn]; rfl)
  · exact hletter (by rw [htab]; rfl)
  · exact hletter (by rw [hback]; rfl)
  · exact hletter (by rw [hform]; rfl)
  · have hc := takes_escaped_control hcontrol rest
    rw [Char.ofNat_toNat] at hc
    exact hescaped hc
  · exact (run_textWithin_cons hquote hslash hcontrol fuel seen rest).trans h

theorem takes_textWithin (s : List Char) {fuel : Nat} (hfuel : s.length < fuel) (seen : List Char)
    (rest : List Char) :
    (textWithin fuel seen).Takes (s.flatMap Value.escape ++ '"' :: rest) (seen.reverse ++ s)
      rest := by
  induction s generalizing fuel seen with
  | nil =>
      obtain ⟨fuel, rfl⟩ := Nat.exists_eq_succ_of_ne_zero (Nat.ne_of_gt hfuel)
      rw [List.append_nil]
      rfl
  | cons c s ih =>
      obtain ⟨fuel, rfl⟩ := Nat.exists_eq_succ_of_ne_zero (Nat.ne_of_gt (Nat.zero_lt_of_lt hfuel))
      have h := ih (Nat.lt_of_succ_lt_succ hfuel) (c :: seen)
      rw [List.reverse_cons, List.append_assoc, List.singleton_append] at h
      rw [List.flatMap_cons, List.append_assoc]
      exact takes_escape c h

theorem length_le_length_flatMap_escape (s : List Char) :
    s.length ≤ (s.flatMap Value.escape).length := by
  induction s with
  | nil => simp
  | cons c s ih =>
      have hone : 1 ≤ (Value.escape c).length := by
        unfold Value.escape
        split_ifs <;> simp
      rw [List.flatMap_cons, List.length_append, List.length_cons]
      omega

theorem takes_text (s rest : List Char) :
    text.Takes (s.flatMap Value.escape ++ '"' :: rest) s rest := by
  unfold text
  refine (takes_get _).bind (takes_textWithin s ?_ [] rest)
  have := length_le_length_flatMap_escape s
  rw [List.length_append]
  omega

/-! ## Numbers -/

def EndsNumber (text : List Char) : Prop :=
  ∃ c rest, text = c :: rest ∧ c.isDigit = false ∧ c ≠ '.' ∧ c ≠ 'e' ∧ c ≠ 'E'

/-- Whether no number in front of a text goes on in it: the text is empty or ends the number. -/
def Delimited (text : List Char) : Prop :=
  ∀ c ∈ text.head?, c.isDigit = false ∧ c ≠ '.' ∧ c ≠ 'e' ∧ c ≠ 'E'

theorem EndsNumber.delimited {text : List Char} (h : EndsNumber text) : Delimited text := by
  obtain ⟨c, rest, rfl, hc⟩ := h
  rintro d ⟨rfl⟩
  exact hc

theorem takes_accept_of_ne {c expected : Char} (h : c ≠ expected) (rest : List Char) :
    (accept expected).Takes (c :: rest) false (c :: rest) := by
  unfold accept
  apply (takes_get _).bind
  simp only [if_neg h]
  exact Takes.pure _ _

theorem takes_digits {run rest : List Char} (hne : run ≠ [])
    (hrun : ∀ c ∈ run, c.isDigit = true) (hend : ∀ c ∈ rest.head?, c.isDigit = false)
    (ended : Error) : (digits ended).Takes (run ++ rest) run rest := by
  obtain ⟨first, more, rfl⟩ := List.exists_cons_of_ne_nil hne
  have hnone : rest.takeWhile Char.isDigit = [] ∧ rest.dropWhile Char.isDigit = rest := by
    cases rest with
    | nil => simp
    | cons c rest => simp [hend c rfl]
  have htake : ((first :: more) ++ rest).takeWhile Char.isDigit = first :: more := by
    rw [List.takeWhile_append_of_pos hrun, hnone.1, List.append_nil]
  have hdrop : ((first :: more) ++ rest).dropWhile Char.isDigit = rest := by
    rw [List.dropWhile_append_of_pos hrun, hnone.2]
  unfold digits
  apply (takes_get _).bind
  rw [List.cons_append] at htake hdrop ⊢
  simp only [hrun first List.mem_cons_self, htake, hdrop]
  rfl

/-- Only zero is written with a zero in front. -/
theorem eq_zero_of_head?_toDigits {n : Nat} (h : (Nat.toDigits 10 n).head? = some '0') :
    n = 0 := by
  induction n using Nat.strong_induction_on with
  | _ n ih =>
      rw [Nat.toDigits_eq_if (by omega)] at h
      split at h
      next hlt =>
        have hall : ∀ n < 10, Nat.digitChar n = '0' → n = 0 := by decide
        exact hall n hlt (by simpa using h)
      next hge =>
        rw [List.head?_append_of_ne_nil _ Nat.toDigits_ne_nil] at h
        have := ih (n / 10) (by omega) h
        omega

theorem takes_whole (n : Nat) {rest : List Char} (hend : EndsNumber rest) (ended : Error) :
    (whole ended).Takes (Nat.toDigits 10 n ++ rest) (Nat.toDigits 10 n) rest := by
  have hdigit : ∀ c ∈ Nat.toDigits 10 n, c.isDigit = true := fun c hc =>
    Nat.isDigit_of_mem_toDigits (by omega) le_rfl hc
  have hzero : ¬ ((Nat.toDigits 10 n).head? = some '0' ∧ (Nat.toDigits 10 n).length ≠ 1) := by
    rintro ⟨hhead, hlength⟩
    obtain rfl := eq_zero_of_head?_toDigits hhead
    simp at hlength
  unfold whole
  apply (takes_digits Nat.toDigits_ne_nil hdigit (fun c hc => (hend.delimited c hc).1) ended).bind
  simp only [if_neg hzero]
  exact Takes.pure _ _

theorem takes_number {n : Nat} (hn : n < UInt64.size) {rest : List Char} (hend : EndsNumber rest) :
    number.Takes (Nat.toDigits 10 n ++ rest) (.natural n) rest := by
  obtain ⟨first, more, hfirst⟩ :=
    List.exists_cons_of_ne_nil (Nat.toDigits_ne_nil (n := n) (b := 10))
  have hminus : first ≠ '-' := by
    rintro rfl
    have := Nat.isDigit_of_mem_toDigits (b := 10) (n := n) (c := '-') (by omega) le_rfl
      (by simp [hfirst])
    simp at this
  have hwhole := takes_whole n hend .endInValue
  obtain ⟨c, left, rfl, -, hpoint, hlower, hupper⟩ := hend
  have hsign : (accept '-').Takes (Nat.toDigits 10 n ++ c :: left) false
      (Nat.toDigits 10 n ++ c :: left) := by
    rw [hfirst]
    exact takes_accept_of_ne hminus _
  have hexponent : (exponent .endInValue).Takes (c :: left) none (c :: left) :=
    (takes_accept_of_ne hlower left).bind ((takes_accept_of_ne hupper left).bind (Takes.pure _ _))
  have hnumerals : (numerals .endInValue).Takes (Nat.toDigits 10 n ++ c :: left)
      ⟨false, Nat.toDigits 10 n, none, none⟩ (c :: left) :=
    hsign.bind (hwhole.bind ((takes_accept_of_ne hpoint left).bind
      ((Takes.pure _ _).bind (hexponent.bind (Takes.pure _ _)))))
  apply hnumerals.bind
  simp only [Number.ofNumerals?, Number.accumulate_toDigits hn]
  exact Takes.pure _ _

/-! ## Leaves -/

theorem takes_found_string {spaces : List Char} (hspaces : Spaces spaces) (s rest : List Char) :
    found.Takes (spaces ++ Value.quote s ++ rest) (.string (String.ofList s)) rest := by
  have htext : spaces ++ Value.quote s ++ rest =
      spaces ++ '"' :: (s.flatMap Value.escape ++ '"' :: rest) := by
    simp [Value.quote]
  rw [htext]
  unfold found
  apply (takes_peek hspaces (by decide) _ _).bind
  exact (takes_advance _ _).bind ((takes_text s rest).bind (Takes.pure _ _))

theorem takes_string {spaces : List Char} (hspaces : Spaces spaces) (s : String)
    (rest : List Char) (expected : String) :
    (string expected).Takes (spaces ++ Value.quote s.toList ++ rest) s rest := by
  apply (takes_found_string hspaces s.toList rest).bind
  rw [String.ofList_toList]
  exact Takes.pure _ _

theorem takes_found_number {spaces : List Char} (hspaces : Spaces spaces) {n : Nat}
    (hn : n < UInt64.size) {rest : List Char} (hend : EndsNumber rest) :
    found.Takes (spaces ++ Nat.toDigits 10 n ++ rest) (.number (.natural n)) rest := by
  obtain ⟨first, more, hfirst⟩ :=
    List.exists_cons_of_ne_nil (Nat.toDigits_ne_nil (n := n) (b := 10))
  have hdigit : first.isDigit = true :=
    Nat.isDigit_of_mem_toDigits (b := 10) (n := n) (by omega) le_rfl (by simp [hfirst])
  have hnumber := (takes_number hn hend).map Found.number
  rw [hfirst, List.cons_append] at hnumber
  rw [hfirst, List.append_assoc, List.cons_append]
  unfold found
  apply (takes_peek hspaces (isSpace_eq_false_of_isDigit hdigit) _ _).bind
  split
  -- none of the characters that open something else is a digit
  any_goals simp at hdigit
  rw [startsNumber, hdigit, Bool.or_true, if_pos rfl]
  exact hnumber

theorem takes_natural {spaces : List Char} (hspaces : Spaces spaces) {n greatest : Nat}
    (hn : n ≤ greatest) (hgreatest : greatest < UInt64.size) {rest : List Char}
    (hend : EndsNumber rest) (expected : String) :
    (natural greatest expected).Takes (spaces ++ Nat.toDigits 10 n ++ rest) n rest := by
  apply (takes_found_number hspaces (by omega) hend).bind
  simp only [if_pos hn]
  exact Takes.pure _ _

end BankTrace.Json.Reader
