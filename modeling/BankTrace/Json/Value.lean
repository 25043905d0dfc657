import BankTrace.Json.Number

/-!
# JSON values and their text

A value is written compactly on one line, or spread over lines with two blanks a level.
-/

namespace BankTrace.Json

inductive Value where
  | null
  | boolean (value : Bool)
  | number (value : Number)
  | string (text : List Char)
  | list (elements : List Value)
  | object (members : List (List Char × Value))
deriving Repr, Inhabited

namespace Value

/-- The value of a text. -/
def ofString (s : String) : Value := string s.toList

/-- The value of a natural number that 64 bits hold. -/
def ofNat (n : Nat) : Value := number (.natural n)

/-- How a character is written in a JSON string: quotes, backslashes and control characters are
escaped, everything else stands for itself. -/
def escape (c : Char) : List Char :=
  if c = '"' then ['\\', '"']
  else if c = '\\' then ['\\', '\\']
  else if c = '\n' then ['\\', 'n']
  else if c = '\r' then ['\\', 'r']
  else if c = '\t' then ['\\', 't']
  else if c = '\x08' then ['\\', 'b']
  else if c = '\x0c' then ['\\', 'f']
  else if c.toNat < 0x20 then
    ['\\', 'u', '0', '0', Nat.digitChar (c.toNat / 16), Nat.digitChar (c.toNat % 16)]
  else [c]

/-- A JSON string, with its quotes. -/
def quote (text : List Char) : List Char := '"' :: text.flatMap escape ++ ['"']

/-- The start of a line at a depth. -/
def newLine (depth : Nat) : List Char := '\n' :: List.replicate (2 * depth) ' '

mutual

/-- The text of a value on one line. -/
def compact : Value → List Char
  | null => ['n', 'u', 'l', 'l']
  | boolean true => ['t', 'r', 'u', 'e']
  | boolean false => ['f', 'a', 'l', 's', 'e']
  | number value => value.text.toList
  | string text => quote text
  | list elements => '[' :: compactElements true elements ++ [']']
  | object members => '{' :: compactMembers true members ++ ['}']

def compactElements (first : Bool) : List Value → List Char
  | [] => []
  | v :: rest => (if first then [] else [',']) ++ compact v ++ compactElements false rest

def compactMembers (first : Bool) : List (List Char × Value) → List Char
  | [] => []
  | (key, v) :: rest =>
      (if first then [] else [',']) ++ quote key ++ ':' :: compact v ++ compactMembers false rest

end

mutual

/-- The text of a value with a line for each element and each member, the value standing at a
depth. Empty lists and objects stay on one line. -/
def spread (depth : Nat) : Value → List Char
  | list (v :: rest) =>
      '[' :: spreadElements (depth + 1) true (v :: rest) ++ newLine depth ++ [']']
  | object (m :: rest) =>
      '{' :: spreadMembers (depth + 1) true (m :: rest) ++ newLine depth ++ ['}']
  | v => compact v

def spreadElements (depth : Nat) (first : Bool) : List Value → List Char
  | [] => []
  | v :: rest =>
      (if first then [] else [',']) ++ newLine depth ++ spread depth v ++
        spreadElements depth false rest

def spreadMembers (depth : Nat) (first : Bool) : List (List Char × Value) → List Char
  | [] => []
  | (key, v) :: rest =>
      (if first then [] else [',']) ++ newLine depth ++ quote key ++ ':' :: ' ' :: spread depth v ++
        spreadMembers depth false rest

end

/-- The text of a value on one line. -/
def line (v : Value) : String := String.ofList v.compact

/-- The text of a value over many lines. -/
def page (v : Value) : String := String.ofList (v.spread 0)

end Value

end BankTrace.Json
