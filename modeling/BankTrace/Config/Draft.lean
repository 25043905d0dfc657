import BankTrace.Config

/-!
# Drafts of configurations

A configuration can be had by assigning fields of a complete one, or by drafting: collecting fields
and leaving the others to their defaults.
-/

namespace BankTrace

/-- A field with a value for it. -/
inductive Setting where
  | output (path : Path)
  | rowCount (count : UInt32)
  | burstCount (count : UInt32)
  | bankOrder (banks : List UInt16)
  | channelMode (mode : ChannelMode)
  | loopOrder (order : LoopOrder)
  | opcode (opcode : Opcode)
  | operandSize (size : UInt32)
deriving DecidableEq, Repr

/-- The configuration with one field assigned. -/
def Config.assign (c : Config) : Setting → Config
  | .output path => { c with output := path }
  | .rowCount count => { c with rowCount := count }
  | .burstCount count => { c with burstCount := count }
  | .bankOrder banks => { c with bankOrder := banks }
  | .channelMode mode => { c with channelMode := mode }
  | .loopOrder order => { c with loopOrder := order }
  | .opcode opcode => { c with opcode := opcode }
  | .operandSize size => { c with operandSize := size }

/-- A configuration some of whose fields are still open. -/
structure Draft where
  output : Option Path := none
  rowCount : Option UInt32 := none
  burstCount : Option UInt32 := none
  bankOrder : Option (List UInt16) := none
  channelMode : Option ChannelMode := none
  loopOrder : Option LoopOrder := none
  opcode : Option Opcode := none
  operandSize : Option UInt32 := none
deriving DecidableEq, Repr, Inhabited

namespace Draft

/-- The draft with one field filled in, in place of what it may have held. -/
def set (d : Draft) : Setting → Draft
  | .output path => { d with output := some path }
  | .rowCount count => { d with rowCount := some count }
  | .burstCount count => { d with burstCount := some count }
  | .bankOrder banks => { d with bankOrder := some banks }
  | .channelMode mode => { d with channelMode := some mode }
  | .loopOrder order => { d with loopOrder := some order }
  | .opcode opcode => { d with opcode := some opcode }
  | .operandSize size => { d with operandSize := some size }

/-- The draft of several settings, made one after the other. -/
def ofSettings (settings : List Setting) : Draft := settings.foldl set {}

/-- The configuration of a draft: open fields take their defaults. -/
def build (d : Draft) : Config where
  output := d.output.getD (default : Config).output
  rowCount := d.rowCount.getD (default : Config).rowCount
  burstCount := d.burstCount.getD (default : Config).burstCount
  bankOrder := d.bankOrder.getD (default : Config).bankOrder
  channelMode := d.channelMode.getD (default : Config).channelMode
  loopOrder := d.loopOrder.getD (default : Config).loopOrder
  opcode := d.opcode.getD (default : Config).opcode
  operandSize := d.operandSize.getD (default : Config).operandSize

end Draft

end BankTrace
