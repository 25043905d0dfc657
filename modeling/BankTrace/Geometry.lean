/-!
# Geometry

The sizes of the memory that a trace drives.
-/

namespace BankTrace

/-- The number of channels. -/
def maxChannelCount : Nat := 32

/-- The number of banks of a channel. -/
def maxBankCount : Nat := 16

/-- The number of banks in a bank group. -/
def bankGroupSize : Nat := 4

/-- The bank group of a bank. -/
def bankGroup (bank : UInt16) : Nat := bank.toNat / bankGroupSize

/-- The capacity of the request buffer, in operand units. -/
def maxOperandSize : UInt32 := 32

/-- The number of rows that a signed 32-bit row address can tell apart. -/
def maxRowCount : UInt32 := 2147483647

end BankTrace
