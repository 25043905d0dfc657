import BankTrace.Json.Error
import BankTrace.Json.Value

/-!
# Reading JSON text

A reader takes a value of its own kind from the front of a text and leaves the rest. It looks at
no character behind the first that it cannot accept. What nobody asks for is skipped: skipping
knows no limit of depth or range, and checks less than reading does.
-/

namespace BankTrace.Json

/-- A step through a text: what was read, and the characters that are left. -/
abbrev Reader := StateT (List Char) (Except Error)

namespace Reader

variable {α β : Type}

/-! ### Characters -/

def isSpace (c : Char) : Bool := c == ' ' || c == '\t' || c == '\n' || c == '\r'

def skipSpace : Reader Unit := modify (List.dropWhile isSpace)

/-- Passes over one character. -/
def advance : Reader Unit := modify List.tail

/-- The next character that is no space, which is left in the text. -/
def peek (ended : Error) : Reader Char := do
  skipSpace
  match ← get with
  | [] => throw ended
  | c :: _ => pure c

/-- The given letters, one after the other. -/
def letters : List Char → Reader Unit
  | [] => pure ()
  | expected :: more => do
      match ← get with
      | [] => throw .endInValue
      | c :: rest =>
          if c = expected then
            set rest
            letters more
          else throw .expectedLiteral

/-! ### Strings -/

/-- The number of bytes that characters take in UTF-8. -/
def byteCount (text : List Char) : Nat := text.foldr (fun c n => c.utf8Size + n) 0

/-- Four hexadecimal digits. Fewer than four bytes are a text that ended, whatever they are. -/
def codeUnit : Reader Nat := do
  let text ← get
  if byteCount (text.take 4) < 4 then throw .endInString
  match Numeral.digits? 16 (text.take 4) with
  | some unit =>
      set (text.drop 4)
      pure unit
  | none => throw .invalidEscape

/-- The character that a letter behind a backslash stands for. -/
def escapes : List (Char × Char) :=
  [('"', '"'), ('\\', '\\'), ('/', '/'), ('b', '\x08'), ('f', '\x0c'), ('n', '\n'), ('r', '\r'),
    ('t', '\t')]

def isHighSurrogate (unit : Nat) : Bool := 0xD800 ≤ unit && unit ≤ 0xDBFF

def isLowSurrogate (unit : Nat) : Bool := 0xDC00 ≤ unit && unit ≤ 0xDFFF

/-- The low half of a surrogate pair whose high half has been read. -/
def lowSurrogate : Reader Nat := do
  match ← get with
  | [] => throw .endInString
  | ['\\'] => throw .endInString
  | '\\' :: 'u' :: rest =>
      set rest
      let unit ← codeUnit
      if isLowSurrogate unit then pure unit else throw .loneSurrogate
  | _ => throw .unfinishedPair

/-- The character of an escape, its backslash having been read. -/
def escaped : Reader Char := do
  match ← get with
  | [] => throw .endInString
  | 'u' :: rest =>
      set rest
      let unit ← codeUnit
      if isLowSurrogate unit then throw .loneSurrogate
      if isHighSurrogate unit then
        let low ← lowSurrogate
        pure (Char.ofNat (0x10000 + (unit - 0xD800) * 0x400 + (low - 0xDC00)))
      else pure (Char.ofNat unit)
  | c :: rest =>
      match escapes.lookup c with
      | some character =>
          set rest
          pure character
      | none => throw .invalidEscape

/-- The characters up to the closing quote, behind those already read, last one first. -/
def textWithin : Nat → List Char → Reader (List Char)
  | 0, _ => throw .endInString
  | fuel + 1, seen => do
      match ← get with
      | [] => throw .endInString
      | '"' :: rest =>
          set rest
          pure seen.reverse
      | '\\' :: rest =>
          set rest
          textWithin fuel ((← escaped) :: seen)
      | c :: rest =>
          if c.toNat < 0x20 then throw .controlCharacter
          set rest
          textWithin fuel (c :: seen)

/-- The text of a string whose opening quote has been read. -/
def text : Reader (List Char) := do
  textWithin ((← get).length + 1) []

/-- Passes over an escape, its backslash having been read. -/
def skipEscaped : Reader Unit := do
  match ← get with
  | [] => throw .endInString
  | 'u' :: rest =>
      set rest
      discard codeUnit
  | c :: rest => if (escapes.lookup c).isSome then set rest else throw .invalidEscape

def skipTextWithin : Nat → Reader Unit
  | 0 => throw .endInString
  | fuel + 1 => do
      match ← get with
      | [] => throw .endInString
      | '"' :: rest => set rest
      | '\\' :: rest =>
          set rest
          skipEscaped
          skipTextWithin fuel
      | c :: rest =>
          if c.toNat < 0x20 then throw .controlCharacter
          set rest
          skipTextWithin fuel

/-- Passes over a string whose opening quote has been read. -/
def skipText : Reader Unit := do
  skipTextWithin ((← get).length + 1)

/-! ### Numbers -/

/-- One or more digits; `ended` is the error of a text that ends before them. -/
def digits (ended : Error) : Reader (List Char) := do
  let text ← get
  match text with
  | [] => throw ended
  | c :: _ =>
      if !c.isDigit then throw .invalidNumber
      set (text.dropWhile Char.isDigit)
      pure (text.takeWhile Char.isDigit)

/-- Passes over the character if it comes next, and says whether it did. -/
def accept (expected : Char) : Reader Bool := do
  match ← get with
  | c :: rest =>
      if c = expected then
        set rest
        pure true
      else pure false
  | [] => pure false

/-- The digits before the point. A zero is the only digit it leads. -/
def whole (ended : Error) : Reader (List Char) := do
  let run ← digits ended
  if run.head? = some '0' ∧ run.length ≠ 1 then throw .invalidNumber
  pure run

/-- The sign and the digits of an exponent. -/
def signedDigits (ended : Error) : Reader (Bool × List Char) := do
  if ← accept '-' then pure (true, ← digits ended)
  else
    discard (accept '+')
    pure (false, ← digits ended)

/-- The exponent, if there is one. -/
def exponent (ended : Error) : Reader (Option (Bool × List Char)) := do
  if ← accept 'e' then some <$> signedDigits ended
  else if ← accept 'E' then some <$> signedDigits ended
  else pure none

/-- A number as it is written; `ended` is the error of a text that ends where a digit is due. -/
def numerals (ended : Error) : Reader Numerals := do
  let isNegative ← accept '-'
  let whole ← whole ended
  let fraction ← if ← accept '.' then some <$> digits ended else pure none
  let exponent ← exponent ended
  pure { isNegative, whole, fraction, exponent }

def number : Reader Number := do
  match Number.ofNumerals? (← numerals .endInValue) with
  | some n => pure n
  | none => throw .numberOutOfRange

def startsNumber (c : Char) : Bool := c == '-' || c.isDigit

/-! ### Leaves -/

/-- What comes next: a leaf is read, a list or an object is only seen. -/
def found : Reader Found := do
  match ← peek .endInValue with
  | 'n' =>
      advance
      letters ['u', 'l', 'l']
      pure .null
  | 't' =>
      advance
      letters ['r', 'u', 'e']
      pure (.boolean true)
  | 'f' =>
      advance
      letters ['a', 'l', 's', 'e']
      pure (.boolean false)
  | '"' =>
      advance
      pure (.string (String.ofList (← text)))
  | '[' => pure .list
  | '{' => pure .object
  | c => if startsNumber c then .number <$> number else throw .expectedValue

/-- Refuses what comes next as something other than what is expected. -/
def refuse (expected : String) : Reader α := do
  throw (.invalidType (← found) expected)

/-- A natural number up to a bound. -/
def natural (greatest : Nat) (expected : String) : Reader Nat := do
  match ← found with
  | .number (.natural n) =>
      if n ≤ greatest then pure n else throw (.invalidValue (.number (.natural n)) expected)
  | .number (.negative n) => throw (.invalidValue (.number (.negative n)) expected)
  | other => throw (.invalidType other expected)

def string (expected : String) : Reader String := do
  match ← found with
  | .string s => pure s
  | other => throw (.invalidType other expected)

/-- The value `null`, where no content is asked for. -/
def nothing : Reader Unit := do
  match ← found with
  | .null => pure ()
  | other => throw (.invalidType other "unit")

/-! ### Lists and objects -/

/-- Whether an element follows, the bracket or the elements before it having been read. -/
def hasElement (first : Bool) : Reader Bool := do
  match ← peek .endInList with
  | ']' => pure false
  | c =>
      if first then pure true
      else if c = ',' then
        advance
        if (← peek .endInValue) = ']' then throw .trailingComma
        pure true
      else throw .expectedCommaOrBracket

/-- Passes over the bracket that closes a list, nothing but which may follow. -/
def endList : Reader Unit := do
  match ← peek .endInList with
  | ']' => advance
  | ',' =>
      advance
      skipSpace
      if (← get).head? = some ']' then throw .trailingComma else throw .trailingCharacters
  | _ => throw .trailingCharacters

def elementsWithin (item : Reader α) : Nat → Bool → List α → Reader (List α)
  | 0, _, _ => throw .endInList
  | fuel + 1, first, seen => do
      if ← hasElement first then elementsWithin item fuel false ((← item) :: seen)
      else pure seen.reverse

/-- The elements of a list, its opening bracket having been read. -/
def elements (item : Reader α) : Reader (List α) := do
  let items ← elementsWithin item ((← get).length + 1) true []
  endList
  pure items

/-- Whether a member follows, the brace or the members before it having been read. -/
def hasMember (first : Bool) : Reader Bool := do
  match ← peek .endInObject with
  | '}' => pure false
  | c =>
      let next ←
        if first then pure c
        else if c = ',' then
          advance
          peek .endInValue
        else throw .expectedCommaOrBrace
      match next with
      | '"' => pure true
      | '}' => throw .trailingComma
      | _ => throw .keyNotString

/-- The colon between a key and its value. -/
def colon : Reader Unit := do
  match ← peek .endInObject with
  | ':' => advance
  | _ => throw .expectedColon

def membersWithin (member : β → List Char → Reader β) : Nat → Bool → β → Reader β
  | 0, _, _ => throw .endInObject
  | fuel + 1, first, seen => do
      if ← hasMember first then
        advance
        membersWithin member fuel false (← member seen (← text))
      else pure seen

/-- The members of an object, its opening brace having been read. `member` is given what the
members before made of `start`, and the key; it reads the colon and the value. -/
def members (start : β) (member : β → List Char → Reader β) : Reader β := do
  let result ← membersWithin member ((← get).length + 1) true start
  advance
  pure result

/-- A name, alone or as the only key of an object that holds the content belonging to it. Names
are resolved as soon as they are read. -/
def named (resolve : List Char → Except Error α) (alone content : α → Reader β) : Reader β := do
  match ← peek .endInValue with
  | '"' =>
      advance
      alone (← resolve (← text))
  | '{' =>
      advance
      match ← peek .endInObject with
      | '"' => pure ()
      | '}' => throw .expectedValue
      | _ => throw .keyNotString
      advance
      let name ← resolve (← text)
      colon
      let result ← content name
      if (← peek .endInObject) ≠ '}' then throw .expectedValue
      advance
      pure result
  | _ => throw .expectedValue

/-- The entry of a table that has a name. -/
def resolveIn (table : List (String × α)) (name : List Char) : Except Error α :=
  match table.find? fun entry => entry.1.toList == name with
  | some entry => .ok entry.2
  | none => .error (.unknownName (String.ofList name) (table.map Prod.fst))

/-! ### Whole values -/

/-- A value, given the readers of a list and of an object that stand at their opening. -/
def valueWith (list object : Reader Value) : Reader Value := do
  match ← found with
  | .null => pure .null
  | .boolean b => pure (.boolean b)
  | .number n => pure (.number n)
  | .string s => pure (.string s.toList)
  | .list => list
  | .object => object
  | .bareName => throw .expectedValue

/-- Any value that opens no more than `depth` lists and objects inside each other. -/
def value : (depth : Nat) → Reader Value
  | 0 => valueWith (throw .tooDeep) (throw .tooDeep)
  | depth + 1 =>
      valueWith
        (do
          advance
          .list <$> elements (value depth))
        (do
          advance
          let members ← members [] fun seen key => do
            colon
            pure ((key, ← value depth) :: seen)
          pure (.object members.reverse))

/-! ### Skipping -/

/-- A list or an object that has been opened. -/
inductive Frame where
  | list
  | object
deriving DecidableEq, Repr

namespace Frame

def closing : Frame → Char
  | list => ']'
  | object => '}'

def ended : Frame → Error
  | list => .endInList
  | object => .endInObject

def commaExpected : Frame → Error
  | list => .expectedCommaOrBracket
  | object => .expectedCommaOrBrace

/-- Passes over what stands before a value: in an object, the key and the colon. -/
def skipKey : Frame → Reader Unit
  | list => pure ()
  | object => do
      if (← peek .endInObject) ≠ '"' then throw .keyNotString
      advance
      skipText
      colon

end Frame

/-- Where skipping stands: before a value, behind an opening, or behind a value. -/
inductive SkipPoint where
  | atValue
  | afterOpening
  | afterValue
deriving DecidableEq, Repr

/-- Passes over the rest of the value in which the frames have been opened, innermost first. -/
def skipWithin : Nat → SkipPoint → List Frame → Reader Unit
  | 0, _, _ => throw .endInValue
  | _ + 1, .afterOpening, [] => pure ()
  | _ + 1, .afterValue, [] => pure ()
  | fuel + 1, .atValue, frames => do
      match ← peek .endInValue with
      | 'n' =>
          advance
          letters ['u', 'l', 'l']
          skipWithin fuel .afterValue frames
      | 't' =>
          advance
          letters ['r', 'u', 'e']
          skipWithin fuel .afterValue frames
      | 'f' =>
          advance
          letters ['a', 'l', 's', 'e']
          skipWithin fuel .afterValue frames
      | '"' =>
          advance
          skipText
          skipWithin fuel .afterValue frames
      | '[' =>
          advance
          skipWithin fuel .afterOpening (.list :: frames)
      | '{' =>
          advance
          skipWithin fuel .afterOpening (.object :: frames)
      | c =>
          if !startsNumber c then throw .expectedValue
          discard (numerals .invalidNumber)
          skipWithin fuel .afterValue frames
  | fuel + 1, .afterOpening, frame :: frames => do
      if (← peek frame.ended) = frame.closing then
        advance
        skipWithin fuel .afterValue frames
      else
        frame.skipKey
        skipWithin fuel .atValue (frame :: frames)
  | fuel + 1, .afterValue, frame :: frames => do
      let c ← peek frame.ended
      if c = ',' then
        advance
        frame.skipKey
        skipWithin fuel .atValue (frame :: frames)
      else if c = frame.closing then
        advance
        skipWithin fuel .afterValue frames
      else throw frame.commaExpected

/-- Passes over a value. Of two steps in a row one takes a character. -/
def skip : Reader Unit := do
  skipWithin (2 * (← get).length + 2) .atValue []

/-! ### Whole texts -/

/-- Reads a text that holds one value and spaces around it. -/
def run (reader : Reader α) (text : String) : Except Error α := do
  let (result, rest) ← StateT.run reader text.toList
  if rest.dropWhile isSpace = [] then pure result else throw .trailingCharacters

end Reader

end BankTrace.Json
