import BankTrace.Config

/-!
# Valid configurations

Every bound of the hardware and of the loops is checked before anything is written. The checks have
an order, and the first that fails is the one that is reported.
-/

namespace BankTrace

/-- Why a configuration shapes no trace. -/
inductive ConfigError where
  | operandSizeOverflow (size : UInt32)
  | nonDataOpcode (opcode : Opcode)
  | zeroRowCount
  | rowCountOverflow (count : UInt32)
  | zeroBurstCount
  | emptyBankOrder
  | bankOutOfRange (bank : UInt16)
  | duplicateBank (bank : UInt16)
  | emptyChannelMask
  | channelCountOutOfRange (count : UInt64)
  | zeroOperandSizeInBurstGroup
  | unalignedBurstGroup (burstCount operandSize : UInt32)
  | invalidOutputPath (path : Path)
  | traceTooLarge
  /-- A draft of a configuration was turned down by its maker. -/
  | draft (reason : String)
deriving DecidableEq, Repr

def ConfigError.message : ConfigError → String
  | operandSizeOverflow size => "operand size " ++ Numeral.write 10 size.toNat ++
      " overflows the request buffer, expect at most " ++ Numeral.write 10 maxOperandSize.toNat
  | nonDataOpcode opcode =>
      "opcode " ++ opcode.mnemonic ++ " can not be used as data instruction"
  | zeroRowCount => "row count must be positive"
  | rowCountOverflow count =>
      "row count " ++ Numeral.write 10 count.toNat ++ " exceed row address range"
  | zeroBurstCount => "burst count must be positive"
  | emptyBankOrder => "bank order is empty"
  | bankOutOfRange bank => "bank " ++ Numeral.write 10 bank.toNat ++
      " out of range, expect less than " ++ Numeral.write 10 maxBankCount
  | duplicateBank bank =>
      "bank " ++ Numeral.write 10 bank.toNat ++ " appears more than once in bank order"
  | emptyChannelMask => "channel mask selects no channel"
  | channelCountOutOfRange count => channelCountMessage count.toNat
  | zeroOperandSizeInBurstGroup => "burst group loop order needs a positive operand size"
  | unalignedBurstGroup burstCount operandSize =>
      "burst count " ++ Numeral.write 10 burstCount.toNat ++
        " is not a multiple of operand size " ++ Numeral.write 10 operandSize.toNat
  | invalidOutputPath path => "invalid output path '" ++ path.readable ++ "'"
  | traceTooLarge => "trace has more data lines than a u64 can count"
  | draft reason => reason

namespace Config

/-- The error, if the check fails. -/
def demand (holds : Bool) (error : ConfigError) : Option ConfigError :=
  if holds then none else some error

/-- The first bank that also stands among the banks before it, `seen` standing before the list. -/
def repeated? (seen : List UInt16) : List UInt16 → Option UInt16
  | [] => none
  | bank :: rest => if bank ∈ seen then some bank else repeated? (bank :: seen) rest

/-- What is wrong with the list of banks. -/
def bankFault? (c : Config) : Option ConfigError :=
  (demand (!c.bankOrder.isEmpty) .emptyBankOrder)
    |>.or ((c.bankOrder.find? fun bank => maxBankCount ≤ bank.toNat).map .bankOutOfRange)
    |>.or ((repeated? [] c.bankOrder).map .duplicateBank)

/-- What is wrong with the selection of channels. -/
def channelFault? (c : Config) : Option ConfigError :=
  match c.channelMode with
  | .broadcast mask => demand (!mask.isEmpty) .emptyChannelMask
  | .perChannel count =>
      demand (0 < count.toNat && count.toNat ≤ maxChannelCount) (.channelCountOutOfRange count)

/-- What is wrong with the grouping of bursts. -/
def groupFault? (c : Config) : Option ConfigError :=
  match c.loopOrder with
  | .rowColumnBank => none
  | .burstGroup =>
      if c.operandSize = 0 then some .zeroOperandSizeInBurstGroup
      else demand (c.burstCount.toNat % c.operandSize.toNat == 0)
        (.unalignedBurstGroup c.burstCount c.operandSize)

/-- The first thing that is wrong with a configuration. -/
def fault? (c : Config) : Option ConfigError :=
  (demand (c.operandSize ≤ maxOperandSize) (.operandSizeOverflow c.operandSize))
    |>.or (demand c.opcode.isData (.nonDataOpcode c.opcode))
    |>.or (demand (c.rowCount != 0) .zeroRowCount)
    |>.or (demand (c.rowCount ≤ maxRowCount) (.rowCountOverflow c.rowCount))
    |>.or (demand (c.burstCount != 0) .zeroBurstCount)
    |>.or c.bankFault?
    |>.or c.channelFault?
    |>.or c.groupFault?
    |>.or (demand c.output.fileName?.isSome (.invalidOutputPath c.output))
    |>.or (demand c.dataLineCount?.isSome .traceTooLarge)

/-- Accepts the configurations that shape a trace. -/
def validate (c : Config) : Except ConfigError Unit :=
  match c.fault? with
  | none => .ok ()
  | some error => .error error

end Config

end BankTrace
