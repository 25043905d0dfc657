import BankTrace.ChannelMask
import BankTrace.Opcode

/-!
# Instructions

An instruction is one line of a trace: a data request to one bank, or the sentinel that ends the
trace.
-/

namespace BankTrace

/-- A request to one bank, on every channel of a mask. -/
structure Request where
  opcode : Opcode
  operandSize : UInt32
  channels : ChannelMask
  bank : UInt16
  row : UInt32
deriving DecidableEq, Repr

inductive Instruction where
  | data (request : Request)
  /-- The sentinel. A request that carries the opcode of the same name is still a request. -/
  | eoc
deriving DecidableEq, Repr

namespace Instruction

/-- The word that opens every line. -/
def lineType : String := "AiM"

def isEoc : Instruction → Bool
  | data _ => false
  | eoc => true

/-- The words of a line. -/
def words : Instruction → List String
  | data request => [lineType, request.opcode.mnemonic, Numeral.write 10 request.operandSize.toNat,
      request.channels.literal, Numeral.write 10 request.bank.toNat,
      Numeral.write 10 request.row.toNat]
  | eoc => [lineType, Opcode.endOfCommands.mnemonic]

/-- The line of an instruction, without its end. -/
def line (instruction : Instruction) : String := " ".intercalate instruction.words

/-- The bytes an instruction adds to a trace. -/
def encode (instruction : Instruction) : ByteArray := (instruction.line ++ "\n").toUTF8

/-- The instruction in diagnostic text. -/
def label : Instruction → String
  | data request => "Data(DataInstruction \x7b opcode: " ++ request.opcode.label ++
      ", operand_size: " ++ Numeral.write 10 request.operandSize.toNat ++
      ", channel_mask: " ++ request.channels.label ++
      ", bank: " ++ Numeral.write 10 request.bank.toNat ++
      ", row: " ++ Numeral.write 10 request.row.toNat ++ " \x7d)"
  | eoc => "Eoc"

end Instruction

end BankTrace
