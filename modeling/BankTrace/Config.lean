import BankTrace.Instruction
import BankTrace.Path

/-!
# Trace configurations

Everything that shapes a trace. The defaults are those of the reference write trace.
-/

namespace BankTrace

/-- How the innermost requests select channels. -/
inductive ChannelMode where
  /-- One request to all channels of a mask. -/
  | broadcast (mask : ChannelMask)
  /-- One request to each of the first channels, one channel after the other. -/
  | perChannel (channelCount : UInt64)
deriving DecidableEq, Repr

namespace ChannelMode

instance : Inhabited ChannelMode := ⟨broadcast .all⟩

/-- The masks of the innermost requests, in order. -/
def masks : ChannelMode → Except RequestError (List ChannelMask)
  | broadcast mask => .ok [mask]
  | perChannel count =>
      if maxChannelCount < count.toNat then .error (.channelCountOutOfRange count.toNat)
      else (List.range count.toNat).mapM ChannelMask.single

/-- The number of innermost requests. -/
def requestCount : ChannelMode → Nat
  | broadcast _ => 1
  | perChannel count => count.toNat

/-- The mode in diagnostic text. -/
def label : ChannelMode → String
  | broadcast mask => "Broadcast \x7b mask: " ++ mask.label ++ " \x7d"
  | perChannel count => "PerChannel \x7b channel_count: " ++ Numeral.write 10 count.toNat ++ " \x7d"

end ChannelMode

/-- The nesting of the loops, outermost first. -/
inductive LoopOrder where
  /-- Rows, bursts, banks, channels. -/
  | rowColumnBank
  /-- Groups of as many bursts as the operand size says, rows, banks, channels. -/
  | burstGroup
deriving DecidableEq, Repr, Inhabited

/-- The order in diagnostic text. -/
def LoopOrder.label : LoopOrder → String
  | rowColumnBank => "RowColumnBank"
  | burstGroup => "BurstGroup"

/-- Banks interleaved across the four bank groups: neighbours are in different groups, and each
group is visited in ascending order. -/
def defaultBankOrder : List UInt16 := [0, 4, 8, 12, 1, 5, 9, 13, 2, 6, 10, 14, 3, 7, 11, 15]

/-- The shape of a trace, and the file it goes to. -/
structure Config where
  output : Path := .ofString "trace_test.txt"
  rowCount : UInt32 := 16
  burstCount : UInt32 := 64
  bankOrder : List UInt16 := defaultBankOrder
  channelMode : ChannelMode := .broadcast .all
  loopOrder : LoopOrder := .rowColumnBank
  opcode : Opcode := .writeBank
  operandSize : UInt32 := 0
deriving DecidableEq, Repr

namespace Config

instance : Inhabited Config := ⟨{}⟩

/-- Two configurations that differ at most in the spelling of the output path. -/
def SameAs (c d : Config) : Prop :=
  c.output.SameAs d.output ∧ { c with output := d.output } = d

instance (c d : Config) : Decidable (SameAs c d) :=
  inferInstanceAs (Decidable (_ ∧ _))

/-- The number of burst groups. An operand of no size makes no group. -/
def burstGroups (c : Config) : Nat := c.burstCount.toNat / c.operandSize.toNat

/-- How often each row of each bank is visited: once a burst, or once a group of bursts. -/
def visitCount (c : Config) : Nat :=
  match c.loopOrder with
  | .rowColumnBank => c.burstCount.toNat
  | .burstGroup => c.burstGroups

/-- A product that a 64-bit word holds. -/
def product? (a b : Nat) : Option Nat := if a * b < UInt64.size then some (a * b) else none

/-- The number of data lines of the trace, if every product on the way to it fits in 64 bits. -/
def dataLineCount? (c : Config) : Option Nat := do
  let rows ← product? c.visitCount c.rowCount.toNat
  let banks ← product? rows c.bankOrder.length
  product? banks c.channelMode.requestCount

/-- A list of numbers in diagnostic text. -/
def listLabel (numbers : List Nat) : String :=
  "[" ++ ", ".intercalate (numbers.map (Numeral.write 10)) ++ "]"

/-- The configuration in diagnostic text. -/
def label (c : Config) : String :=
  "TraceConfig \x7b output: " ++ c.output.quoted ++
    ", row_count: " ++ Numeral.write 10 c.rowCount.toNat ++
    ", burst_count: " ++ Numeral.write 10 c.burstCount.toNat ++
    ", bank_order: " ++ listLabel (c.bankOrder.map UInt16.toNat) ++
    ", channel_mode: " ++ c.channelMode.label ++
    ", loop_order: " ++ c.loopOrder.label ++
    ", opcode: " ++ c.opcode.label ++
    ", operand_size: " ++ Numeral.write 10 c.operandSize.toNat ++ " \x7d"

end Config

end BankTrace
