import BankTrace.RequestError

/-!
# Opcodes

The commands a trace may carry. All but the last move or combine the data of a single bank and take
the same operands.
-/

namespace BankTrace

inductive Opcode where
  /-- Write a single bank. -/
  | writeBank
  /-- Read a single bank back to the host. -/
  | readBank
  /-- Copy a single bank into the global buffer. -/
  | bankToBuffer
  /-- Copy the global buffer into a single bank. -/
  | bufferToBank
  /-- Multiply and accumulate between a single bank and the global buffer. -/
  | multiplyAccumulate
  /-- End of commands. -/
  | endOfCommands
deriving DecidableEq, Repr, Inhabited

namespace Opcode

/-- The opcodes of data requests. -/
def data : List Opcode := [writeBank, readBank, bankToBuffer, bufferToBank, multiplyAccumulate]

def all : List Opcode := data ++ [endOfCommands]

/-- The word that names the opcode in a trace. -/
def mnemonic : Opcode → String
  | writeBank => "WR_SBK"
  | readBank => "RD_SBK"
  | bankToBuffer => "COPY_BKGB"
  | bufferToBank => "COPY_GBBK"
  | multiplyAccumulate => "MAC_SBK"
  | endOfCommands => "EOC"

/-- The name of the opcode in diagnostic text. -/
def label : Opcode → String
  | writeBank => "WrSbk"
  | readBank => "RdSbk"
  | bankToBuffer => "CopyBkgb"
  | bufferToBank => "CopyGbbk"
  | multiplyAccumulate => "MacSbk"
  | endOfCommands => "Eoc"

/-- Whether the opcode can head a data request. -/
def isData (opcode : Opcode) : Bool := opcode != endOfCommands

/-- A mnemonic may be preceded by the name of the instruction set, once. -/
def withoutSetName : List Char → List Char
  | 'I' :: 'S' :: 'R' :: '_' :: mnemonic => mnemonic
  | mnemonic => mnemonic

/-- The opcode a text names, with or without the name of the instruction set. -/
def ofString (s : String) : Except RequestError Opcode :=
  match all.find? fun opcode => opcode.mnemonic.toList == withoutSetName s.toList with
  | some opcode => .ok opcode
  | none => .error (.unknownOpcode s)

end Opcode

end BankTrace
