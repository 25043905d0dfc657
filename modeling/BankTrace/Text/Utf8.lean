/-!
# UTF-8 with broken stretches

Bytes that need not be well-formed are cut into characters and broken stretches. A broken stretch
is as long as possible while it could still begin a character, so each one stands for one mistake.
-/

namespace BankTrace.Utf8

/-- A character, or the bytes of a character that does not come to its end. -/
inductive Piece where
  | char (c : Char)
  | broken (bytes : List UInt8)
deriving DecidableEq, Repr

/-- What a first byte promises: the ranges of the bytes that follow it and its own share of the
code point. A byte that begins no character promises nothing. -/
def lead? (b : UInt8) : Option (List (UInt8 × UInt8) × Nat) :=
  if b < 0x80 then some ([], b.toNat)
  else if b < 0xC2 then none
  else if b < 0xE0 then some ([(0x80, 0xBF)], b.toNat - 0xC0)
  else if b < 0xF0 then
    let second := if b = 0xE0 then (0xA0, 0xBF) else if b = 0xED then (0x80, 0x9F) else (0x80, 0xBF)
    some ([second, (0x80, 0xBF)], b.toNat - 0xE0)
  else if b < 0xF5 then
    let second := if b = 0xF0 then (0x90, 0xBF) else if b = 0xF4 then (0x80, 0x8F) else (0x80, 0xBF)
    some ([second, (0x80, 0xBF), (0x80, 0xBF)], b.toNat - 0xF0)
  else none

/-- The piece whose bytes so far are `taken`, last one first, and what follows it. -/
def finish (value : Nat) (taken : List UInt8) :
    List (UInt8 × UInt8) → List UInt8 → Piece × List UInt8
  | [], bytes => (.char (Char.ofNat value), bytes)
  | _, [] => (.broken taken.reverse, [])
  | (least, greatest) :: more, b :: bytes =>
      if least ≤ b ∧ b ≤ greatest then finish (value * 64 + b.toNat % 64) (b :: taken) more bytes
      else (.broken taken.reverse, b :: bytes)

/-- The pieces of a byte sequence that has at most `fuel` of them. -/
def piecesWithin : Nat → List UInt8 → List Piece
  | _, [] => []
  | 0, _ => []
  | fuel + 1, b :: bytes =>
      match lead? b with
      | none => .broken [b] :: piecesWithin fuel bytes
      | some (ranges, value) =>
          let (piece, rest) := finish value [b] ranges bytes
          piece :: piecesWithin fuel rest

/-- The pieces of a byte sequence. Each takes at least a byte, so its length is fuel enough. -/
def pieces (bytes : List UInt8) : List Piece := piecesWithin bytes.length bytes

/-- The text in which every broken stretch is one replacement character. -/
def readable (bytes : List UInt8) : String :=
  String.ofList <| (pieces bytes).map fun
    | .char c => c
    | .broken _ => '\uFFFD'

end BankTrace.Utf8
