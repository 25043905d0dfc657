import BankTrace.RequestError
import BankTrace.Json.Number
import BankTrace.Text.Quoted

/-!
# Errors in JSON text

Text is read from left to right and refused at the first character that cannot be right: because
the text ends too early, because it is no JSON, or because it says something that is not asked for.
-/

namespace BankTrace.Json

/-- What stands where something else is asked for. -/
inductive Found where
  | null
  | boolean (value : Bool)
  | number (value : Number)
  | string (text : String)
  | list
  | object
  /-- A name without the content that belongs to it. -/
  | bareName
deriving DecidableEq, Repr

/-- What was found, in words. -/
def Found.description : Found → String
  | null => "null"
  | boolean value => "boolean `" ++ (if value then "true" else "false") ++ "`"
  | number (.double bits) => "floating point `" ++ Number.doubleText bits ++ "`"
  | number value => "integer `" ++ value.text ++ "`"
  | string text => "string " ++ Quoted.text text
  | list => "sequence"
  | object => "map"
  | bareName => "unit variant"

inductive Error where
  | endInValue
  | endInString
  | endInObject
  | endInList
  | expectedValue
  | expectedLiteral
  | invalidNumber
  | numberOutOfRange
  | expectedColon
  | expectedCommaOrBrace
  | expectedCommaOrBracket
  | keyNotString
  | trailingComma
  | trailingCharacters
  | invalidEscape
  | controlCharacter
  /-- The first half of a surrogate pair with no escape behind it. -/
  | unfinishedPair
  /-- Half of a surrogate pair without its other half. -/
  | loneSurrogate
  | tooDeep
  | invalidType (found : Found) (expected : String)
  | invalidValue (found : Found) (expected : String)
  | invalidLength (length : Nat) (expected : String)
  | unknownName (name : String) (known : List String)
  | missingField (field : String)
  | duplicateField (field : String)
  /-- A value that is neither a number nor a text a mask could be read from. -/
  | notMask
  | request (cause : RequestError)
  /-- A path that cannot be written because it is no text. -/
  | pathNotText
deriving DecidableEq, Repr

/-- The three ways in which text is refused. -/
inductive Category where
  | unexpectedEnd
  | malformed
  | content
deriving DecidableEq, Repr

namespace Error

def category : Error → Category
  | endInValue | endInString | endInObject | endInList => .unexpectedEnd
  | expectedValue | expectedLiteral | invalidNumber | numberOutOfRange | expectedColon
  | expectedCommaOrBrace | expectedCommaOrBracket | keyNotString | trailingComma
  | trailingCharacters | invalidEscape | controlCharacter | unfinishedPair | loneSurrogate
  | tooDeep => .malformed
  | invalidType .. | invalidValue .. | invalidLength .. | unknownName .. | missingField ..
  | duplicateField .. | notMask | request .. | pathNotText => .content

/-- A choice between names, each between backquotes. -/
def choice (names : List String) : String :=
  match names.map fun name => "`" ++ name ++ "`" with
  | [a, b] => a ++ " or " ++ b
  | names => "one of " ++ ", ".intercalate names

def message : Error → String
  | endInValue => "EOF while parsing a value"
  | endInString => "EOF while parsing a string"
  | endInObject => "EOF while parsing an object"
  | endInList => "EOF while parsing a list"
  | expectedValue => "expected value"
  | expectedLiteral => "expected ident"
  | invalidNumber => "invalid number"
  | numberOutOfRange => "number out of range"
  | expectedColon => "expected `:`"
  | expectedCommaOrBrace => "expected `,` or `\x7d`"
  | expectedCommaOrBracket => "expected `,` or `]`"
  | keyNotString => "key must be a string"
  | trailingComma => "trailing comma"
  | trailingCharacters => "trailing characters"
  | invalidEscape => "invalid escape"
  | controlCharacter => "control character (\\u0000-\\u001F) found while parsing a string"
  | unfinishedPair => "unexpected end of hex escape"
  | loneSurrogate => "lone leading surrogate in hex escape"
  | tooDeep => "recursion limit exceeded"
  | invalidType found expected => "invalid type: " ++ found.description ++ ", expected " ++ expected
  | invalidValue found expected =>
      "invalid value: " ++ found.description ++ ", expected " ++ expected
  | invalidLength length expected =>
      "invalid length " ++ Numeral.write 10 length ++ ", expected " ++ expected
  | unknownName name known => "unknown variant `" ++ name ++ "`, expected " ++ choice known
  | missingField field => "missing field `" ++ field ++ "`"
  | duplicateField field => "duplicate field `" ++ field ++ "`"
  | notMask => "data did not match any variant of untagged enum MaskRepr"
  | request cause => cause.message
  | pathNotText => "path contains invalid UTF-8 characters"

end Error

end BankTrace.Json
