import BankTrace.Geometry
import BankTrace.Text.Numeral

/-!
# Errors in the parts of a request
-/

namespace BankTrace

/-- Why a part of a request cannot be made from what was given. -/
inductive RequestError where
  | unknownOpcode (text : String)
  | channelOutOfRange (channel : Nat)
  | channelCountOutOfRange (count : Nat)
  | invalidChannelMask (text : String)
deriving DecidableEq, Repr

/-- The wording for a number of channels that no mask can hold. -/
def channelCountMessage (count : Nat) : String :=
  "channel count " ++ Numeral.write 10 count ++ " out of range, expect 1..=" ++
    Numeral.write 10 maxChannelCount

def RequestError.message : RequestError → String
  | unknownOpcode text => "unknown aim opcode '" ++ text ++ "'"
  | channelOutOfRange channel => "channel " ++ Numeral.write 10 channel ++
      " out of range, expect less than " ++ Numeral.write 10 maxChannelCount
  | channelCountOutOfRange count => channelCountMessage count
  | invalidChannelMask text => "invalid channel mask '" ++ text ++ "'"

end BankTrace
