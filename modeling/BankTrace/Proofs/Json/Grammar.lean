import BankTrace.Proofs.Json.Takes

/-!
# The grammar of JSON

What a value looks like, said without the readers: strings in any spelling, numbers of any size,
lists and objects of any depth, and spaces wherever they may stand.
-/

namespace BankTrace.Json

open Reader (Spaces Delimited escapes isHighSurrogate isLowSurrogate)

/-! ## Strings -/

/-- Whether a character stands for itself in a string. -/
def IsUnescaped (c : Char) : Prop := c ≠ '"' ∧ c ≠ '\\' ∧ 0x20 ≤ c.toNat

instance (c : Char) : Decidable (IsUnescaped c) := inferInstanceAs (Decidable (_ ∧ _ ∧ _))

/-- Whether four characters are the hexadecimal digits of a unit of 16 bits. -/
def IsUnit (digits : List Char) (unit : Nat) : Prop :=
  digits.length = 4 ∧ Numeral.digits? 16 digits = some unit

/-- What may stand between the quotes of a string. -/
inductive IsLetters : List Char → Prop where
  | nil : IsLetters []
  | plain {c letters} (hc : IsUnescaped c) (h : IsLetters letters) : IsLetters (c :: letters)
  | escape {letter c letters} (hletter : escapes.lookup letter = some c) (h : IsLetters letters) :
      IsLetters ('\\' :: letter :: letters)
  | unit {digits unit letters} (hunit : IsUnit digits unit) (h : IsLetters letters) :
      IsLetters ('\\' :: 'u' :: (digits ++ letters))

/-- The character that the two units of a pair stand for. -/
def ofPair (high low : Nat) : Char :=
  Char.ofNat (0x10000 + (high - 0xD800) * 0x400 + (low - 0xDC00))

/-- A text and what stands for it between the quotes of a string. Characters beyond 16 bits are
spelled as themselves or as two units; a unit that is half of a pair alone spells nothing. -/
inductive Spells : List Char → List Char → Prop where
  | nil : Spells [] []
  | plain {c letters text} (hc : IsUnescaped c) (h : Spells letters text) :
      Spells (c :: letters) (c :: text)
  | escape {letter c letters text} (hletter : escapes.lookup letter = some c)
      (h : Spells letters text) : Spells ('\\' :: letter :: letters) (c :: text)
  | unit {digits unit letters text} (hunit : IsUnit digits unit)
      (hhigh : isHighSurrogate unit = false) (hlow : isLowSurrogate unit = false)
      (h : Spells letters text) :
      Spells ('\\' :: 'u' :: (digits ++ letters)) (Char.ofNat unit :: text)
  | pair {digits unit digits' unit' letters text} (hunit : IsUnit digits unit)
      (hunit' : IsUnit digits' unit') (hhigh : isHighSurrogate unit = true)
      (hlow : isLowSurrogate unit' = true) (h : Spells letters text) :
      Spells ('\\' :: 'u' :: (digits ++ '\\' :: 'u' :: (digits' ++ letters)))
        (ofPair unit unit' :: text)

theorem Spells.isLetters {letters text : List Char} (h : Spells letters text) :
    IsLetters letters := by
  induction h with
  | nil => exact .nil
  | plain hc _ ih => exact .plain hc ih
  | escape hletter _ ih => exact .escape hletter ih
  | unit hunit _ _ _ ih => exact .unit hunit ih
  | pair hunit hunit' _ _ _ ih => exact .unit hunit (.unit hunit' ih)

theorem spells_self {text : List Char} (h : text.all (IsUnescaped ·) = true) :
    Spells text text := by
  induction text with
  | nil => exact .nil
  | cons c text ih =>
      rw [List.all_cons, Bool.and_eq_true, decide_eq_true_eq] at h
      exact .plain h.1 (ih h.2)

/-! ## Numbers -/

def IsDigits (digits : List Char) : Prop := digits ≠ [] ∧ digits.all Char.isDigit = true

/-- The digits before the point: no zero leads others. -/
def IsWhole (digits : List Char) : Prop :=
  IsDigits digits ∧ (digits.head? = some '0' → digits = ['0'])

inductive IsFraction : List Char → Prop where
  | none : IsFraction []
  | some {digits} (h : IsDigits digits) : IsFraction ('.' :: digits)

inductive IsExponent : List Char → Prop where
  | none : IsExponent []
  | some {mark sign digits} (hmark : mark = 'e' ∨ mark = 'E')
      (hsign : sign = [] ∨ sign = ['+'] ∨ sign = ['-']) (h : IsDigits digits) :
      IsExponent (mark :: (sign ++ digits))

/-- A number of any size. -/
inductive IsNumber : List Char → Prop where
  | mk {sign whole fraction exponent} (hsign : sign = [] ∨ sign = ['-']) (hwhole : IsWhole whole)
      (hfraction : IsFraction fraction) (hexponent : IsExponent exponent) :
      IsNumber (sign ++ (whole ++ (fraction ++ exponent)))

/-! ## Values -/

abbrev Gap := { text : List Char // Spaces text }

/-- A piece of text and the gaps around it. -/
structure Spaced where
  before : Gap
  inner : List Char
  behind : Gap

def Spaced.text (s : Spaced) : List Char := s.before.val ++ (s.inner ++ s.behind.val)

def Spaced.tight (inner : List Char) : Spaced :=
  ⟨⟨[], Reader.spaces_nil⟩, inner, ⟨[], Reader.spaces_nil⟩⟩

/-- A member of an object: what stands between the quotes of the key, and the value. -/
structure Member where
  key : Spaced
  value : Spaced

/-- What stands of a member before its value. -/
def Member.lead (m : Member) : List Char :=
  m.key.before.val ++ '"' :: (m.key.inner ++ '"' :: (m.key.behind.val ++ [':']))

def Member.text (m : Member) : List Char := m.lead ++ m.value.text

def separated : List (List Char) → List Char
  | [] => []
  | piece :: more => piece ++ more.flatMap (',' :: ·)

def listText (gap : Gap) (elements : List Spaced) : List Char :=
  '[' :: (gap.val ++ (separated (elements.map Spaced.text) ++ [']']))

def objectText (gap : Gap) (members : List Member) : List Char :=
  '{' :: (gap.val ++ (separated (members.map Member.text) ++ ['}']))

theorem listText_append (gap : Gap) (elements : List Spaced) (rest : List Char) :
    listText gap elements ++ rest =
      '[' :: (gap.val ++ (separated (elements.map Spaced.text) ++ ']' :: rest)) := by
  simp [listText]

theorem objectText_append (gap : Gap) (members : List Member) (rest : List Char) :
    objectText gap members ++ rest =
      '{' :: (gap.val ++ (separated (members.map Member.text) ++ '}' :: rest)) := by
  simp [objectText]

/-- What a value may look like that is neither a list nor an object. -/
inductive IsLeaf : List Char → Prop where
  | null : IsLeaf ['n', 'u', 'l', 'l']
  | ofTrue : IsLeaf ['t', 'r', 'u', 'e']
  | ofFalse : IsLeaf ['f', 'a', 'l', 's', 'e']
  | string {letters} (h : IsLetters letters) : IsLeaf ('"' :: (letters ++ ['"']))
  | number {text} (h : IsNumber text) : IsLeaf text

/-- What a value may look like. -/
inductive IsValue : List Char → Prop where
  | leaf {text} (h : IsLeaf text) : IsValue text
  | list (gap) {elements : List Spaced} (h : ∀ e ∈ elements, IsValue e.inner) :
      IsValue (listText gap elements)
  | object (gap) {members : List Member} (hkeys : ∀ m ∈ members, IsLetters m.key.inner)
      (h : ∀ m ∈ members, IsValue m.value.inner) : IsValue (objectText gap members)

/-! ## Where a piece begins and ends -/

theorem IsDigits.head {digits : List Char} (h : IsDigits digits) :
    ∃ c more, digits = c :: more ∧ c.isDigit = true := by
  obtain ⟨c, more, rfl⟩ := List.exists_cons_of_ne_nil h.1
  exact ⟨c, more, rfl, List.all_eq_true.mp h.2 c List.mem_cons_self⟩

theorem IsDigits.ne_of_head {digits : List Char} (h : IsDigits digits) {c : Char}
    (hc : c.isDigit = false) (rest : List Char) : ∀ d ∈ (digits ++ rest).head?, d ≠ c := by
  obtain ⟨first, more, rfl, hfirst⟩ := h.head
  rintro d ⟨rfl⟩ rfl
  simp [hfirst] at hc

/-- Neither an exponent nor what ends a number goes on with the digits before it. -/
theorem IsExponent.head {exponent rest : List Char} (h : IsExponent exponent)
    (hrest : Delimited rest) :
    ∀ c ∈ (exponent ++ rest).head?, c.isDigit = false ∧ c ≠ '.' := by
  cases h with
  | none => exact fun c hc => ⟨(hrest c hc).1, (hrest c hc).2.1⟩
  | some hmark =>
      rintro c ⟨rfl⟩
      rcases hmark with rfl | rfl <;> decide

theorem IsFraction.head {fraction rest : List Char} (h : IsFraction fraction)
    (hrest : ∀ c ∈ rest.head?, c.isDigit = false) :
    ∀ c ∈ (fraction ++ rest).head?, c.isDigit = false := by
  cases h with
  | none => exact hrest
  | some =>
      rintro c ⟨rfl⟩
      decide

theorem IsNumber.head {text : List Char} (h : IsNumber text) :
    ∃ c more, text = c :: more ∧ Reader.startsNumber c = true := by
  obtain ⟨hsign, hwhole, -, -⟩ := h
  obtain ⟨c, more, rfl, hc⟩ := hwhole.1.head
  rcases hsign with rfl | rfl
  · exact ⟨c, _, rfl, by simp [Reader.startsNumber, hc]⟩
  · exact ⟨'-', _, rfl, by decide⟩

theorem not_mem_of_startsNumber {c : Char} (hc : Reader.startsNumber c = true) :
    Reader.isSpace c = false ∧ c ∉ ['[', ']', '{', '}', '"'] := by
  rw [Reader.startsNumber, Bool.or_eq_true, beq_iff_eq] at hc
  rcases hc with rfl | hdigit
  · decide
  · refine ⟨Reader.isSpace_eq_false_of_isDigit hdigit, fun hmem => ?_⟩
    revert hdigit
    fin_cases hmem <;> decide

theorem IsLeaf.head {v : List Char} (h : IsLeaf v) :
    ∃ c more, v = c :: more ∧ Reader.isSpace c = false ∧ c ∉ ['[', ']', '{', '}'] := by
  cases h with
  | null => exact ⟨'n', _, rfl, by decide⟩
  | ofTrue => exact ⟨'t', _, rfl, by decide⟩
  | ofFalse => exact ⟨'f', _, rfl, by decide⟩
  | string => exact ⟨'"', _, rfl, by decide⟩
  | number h =>
      obtain ⟨c, more, rfl, hc⟩ := h.head
      obtain ⟨hspace, hnot⟩ := not_mem_of_startsNumber hc
      exact ⟨c, more, rfl, hspace, fun hmem => hnot (List.mem_append_left ['"'] hmem)⟩

theorem IsValue.head {v : List Char} (h : IsValue v) :
    ∃ c more, v = c :: more ∧ Reader.isSpace c = false ∧ c ≠ ']' ∧ c ≠ '}' := by
  cases h with
  | leaf h =>
      obtain ⟨c, more, rfl, hspace, hnot⟩ := h.head
      simp only [List.mem_cons, not_or] at hnot
      exact ⟨c, more, rfl, hspace, hnot.2.1, hnot.2.2.2.1⟩
  | list => exact ⟨'[', _, rfl, by decide⟩
  | object => exact ⟨'{', _, rfl, by decide⟩

theorem delimited_nil : Delimited [] := by simp [Delimited]

/-- Spaces end a number, and so does nothing in front of what ends one. -/
theorem delimited_append {spaces rest : List Char} (hspaces : Spaces spaces)
    (hrest : Delimited rest) : Delimited (spaces ++ rest) := by
  cases spaces with
  | nil => exact hrest
  | cons c spaces =>
      have hc := hspaces c List.mem_cons_self
      simp only [Reader.isSpace, Bool.or_eq_true, beq_iff_eq, or_assoc] at hc
      rintro d ⟨rfl⟩
      rcases hc with rfl | rfl | rfl | rfl <;> decide

theorem delimited_cons {c : Char} (hc : c = ',' ∨ c = ':' ∨ c = ']' ∨ c = '}' ∨ c = '"')
    (rest : List Char) : Delimited (c :: rest) := by
  rintro d ⟨rfl⟩
  rcases hc with rfl | rfl | rfl | rfl | rfl <;> decide

end BankTrace.Json
