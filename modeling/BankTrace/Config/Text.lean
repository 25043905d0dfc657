import BankTrace.Config.Draft
import BankTrace.Json.Reader

/-!
# Configurations as JSON text

A configuration is an object with a member for each field, or a list of the fields in their order.
Fields that are not given take their defaults, and members of other names are skipped. Writing
gives every field.
-/

namespace BankTrace

open Json

/-- The fields, by which a member of the text is told. -/
inductive Field where
  | output
  | rowCount
  | burstCount
  | bankOrder
  | channelMode
  | loopOrder
  | opcode
  | operandSize
deriving DecidableEq, Repr

namespace Field

/-- The fields in the order in which a list gives them. -/
def all : List Field :=
  [output, rowCount, burstCount, bankOrder, channelMode, loopOrder, opcode, operandSize]

/-- The key of a field. -/
def key : Field → String
  | output => "output"
  | rowCount => "row_count"
  | burstCount => "burst_count"
  | bankOrder => "bank_order"
  | channelMode => "channel_mode"
  | loopOrder => "loop_order"
  | opcode => "opcode"
  | operandSize => "operand_size"

/-- The field with a key. -/
def ofKey? (key : List Char) : Option Field := all.find? fun field => field.key.toList == key

end Field

/-- Whether a field of a draft has been filled in. -/
def Draft.has (d : Draft) : Field → Bool
  | .output => d.output.isSome
  | .rowCount => d.rowCount.isSome
  | .burstCount => d.burstCount.isSome
  | .bankOrder => d.bankOrder.isSome
  | .channelMode => d.channelMode.isSome
  | .loopOrder => d.loopOrder.isSome
  | .opcode => d.opcode.isSome
  | .operandSize => d.operandSize.isSome

/-! ### Names -/

/-- The names of the opcodes, each with and without the name of the instruction set, in the order
in which they are offered for a name that is unknown. -/
def Opcode.names : List (String × Opcode) :=
  [("ISR_WR_SBK", .writeBank), ("WR_SBK", .writeBank),
    ("ISR_RD_SBK", .readBank), ("RD_SBK", .readBank),
    ("COPY_BKGB", .bankToBuffer), ("ISR_COPY_BKGB", .bankToBuffer),
    ("COPY_GBBK", .bufferToBank), ("ISR_COPY_GBBK", .bufferToBank),
    ("ISR_MAC_SBK", .multiplyAccumulate), ("MAC_SBK", .multiplyAccumulate),
    ("EOC", .endOfCommands), ("ISR_EOC", .endOfCommands)]

def LoopOrder.names : List (String × LoopOrder) :=
  [("row_column_bank", .rowColumnBank), ("burst_group", .burstGroup)]

/-- A channel mode without its content. -/
inductive ChannelMode.Kind where
  | broadcast
  | perChannel
deriving DecidableEq, Repr

namespace ChannelMode.Kind

def names : List (String × Kind) := [("broadcast", broadcast), ("per_channel", perChannel)]

/-- The key of the only field. -/
def key : Kind → String
  | broadcast => "mask"
  | perChannel => "channel_count"

/-- What is asked for where the content of a mode should stand. -/
def expected : Kind → String
  | broadcast => "struct variant ChannelMode::Broadcast"
  | perChannel => "struct variant ChannelMode::PerChannel"

end ChannelMode.Kind

/-! ### Reading -/

namespace Json.Reader

/-- The number of lists and objects that may be open inside each other. -/
def maxDepth : Nat := 127

/-- A 32-bit word. -/
def word : Reader UInt32 := UInt32.ofNat <$> natural (UInt32.size - 1) "u32"

/-- A name that stands for a value by itself. -/
def plainName {α : Type} (names : List (String × α)) : Reader α :=
  named (resolveIn names) pure fun value => do
    nothing
    pure value

def opcode : Reader Opcode := plainName Opcode.names

def loopOrder : Reader LoopOrder := plainName LoopOrder.names

/-- The mask that a value stands for: an integer that 32 bits hold, or the text of a literal. -/
def maskOfValue : Value → Except Error ChannelMask
  | .number (.natural n) => if n < UInt32.size then .ok ⟨BitVec.ofNat 32 n⟩ else .error .notMask
  | .string text => (ChannelMask.ofString (String.ofList text)).mapError .request
  | _ => .error .notMask

/-- A mask inside `opened` lists and objects. Its value is read to the end before it is judged. -/
def mask (opened : Nat) : Reader ChannelMask := do
  maskOfValue (← value (maxDepth - opened))

/-- The field of a channel mode inside `opened` lists and objects. -/
def modeField (opened : Nat) : ChannelMode.Kind → Reader ChannelMode
  | .broadcast => .broadcast <$> mask opened
  | .perChannel => (.perChannel ∘ UInt64.ofNat) <$> natural (UInt64.size - 1) "usize"

/-- The content of a channel mode: an object or a list that holds the only field. -/
def modeContent (opened : Nat) (kind : ChannelMode.Kind) : Reader ChannelMode := do
  match ← peek .endInValue with
  | '{' =>
      advance
      let mode ← members none fun seen key => do
        if key = kind.key.toList then
          if seen.isSome then throw (.duplicateField kind.key)
          colon
          some <$> modeField (opened + 1) kind
        else
          colon
          skip
          pure seen
      match mode with
      | some mode => pure mode
      | none => throw (.missingField kind.key)
  | '[' =>
      advance
      if !(← hasElement true) then
        throw (.invalidLength 0 (kind.expected ++ " with 1 element"))
      let mode ← modeField (opened + 1) kind
      endList
      pure mode
  | _ => refuse kind.expected

/-- A channel mode inside `opened` lists and objects. -/
def channelMode (opened : Nat) : Reader ChannelMode :=
  named (resolveIn ChannelMode.Kind.names)
    (fun _ => throw (.invalidType .bareName "struct variant"))
    (modeContent (opened + 1))

/-- The banks of a list. -/
def bankOrder : Reader (List UInt16) := do
  match ← peek .endInValue with
  | '[' =>
      advance
      elements (UInt16.ofNat <$> natural (UInt16.size - 1) "u16")
  | _ => refuse "a sequence"

/-- The value of a field of a configuration that is the whole text. -/
def setting : Field → Reader Setting
  | .output => (.output ∘ Path.ofString) <$> string "path string"
  | .rowCount => .rowCount <$> word
  | .burstCount => .burstCount <$> word
  | .bankOrder => .bankOrder <$> bankOrder
  | .channelMode => .channelMode <$> channelMode 1
  | .loopOrder => .loopOrder <$> loopOrder
  | .opcode => .opcode <$> opcode
  | .operandSize => .operandSize <$> word

/-- The draft with one more member, whose key has been read. -/
def member (d : Draft) (key : List Char) : Reader Draft := do
  match Field.ofKey? key with
  | some field =>
      if d.has field then throw (.duplicateField field.key)
      colon
      d.set <$> setting field
  | none =>
      colon
      skip
      pure d

/-- The draft with as many of the fields as the list still gives. -/
def positions (first : Bool) : List Field → Draft → Reader Draft
  | [], d => pure d
  | field :: rest, d => do
      if ← hasElement first then positions false rest (d.set (← setting field))
      else pure d

/-- The fields a text gives. -/
def draft : Reader Draft := do
  match ← peek .endInValue with
  | '{' =>
      advance
      members {} member
  | '[' =>
      advance
      let d ← positions true Field.all {}
      endList
      pure d
  | _ => refuse "struct TraceConfig"

def config : Reader Config := Draft.build <$> draft

end Json.Reader

/-! ### Writing -/

def Opcode.toJson (opcode : Opcode) : Value := .ofString opcode.mnemonic

def LoopOrder.toJson : LoopOrder → Value
  | rowColumnBank => .ofString "row_column_bank"
  | burstGroup => .ofString "burst_group"

def ChannelMask.toJson (mask : ChannelMask) : Value := .ofString mask.literal

/-- An object with one member. -/
def Json.Value.single (key : String) (value : Value) : Value := .object [(key.toList, value)]

def ChannelMode.toJson : ChannelMode → Value
  | broadcast mask => .single "broadcast" (.single "mask" mask.toJson)
  | perChannel count => .single "per_channel" (.single "channel_count" (.ofNat count.toNat))

namespace Config

/-- The value of a field, if it can be written. Only text can be the output path. -/
def fieldValue (c : Config) : Field → Except Error Value
  | .output =>
      match c.output.text? with
      | some path => .ok (.ofString path)
      | none => .error .pathNotText
  | .rowCount => .ok (.ofNat c.rowCount.toNat)
  | .burstCount => .ok (.ofNat c.burstCount.toNat)
  | .bankOrder => .ok (.list (c.bankOrder.map fun bank => .ofNat bank.toNat))
  | .channelMode => .ok c.channelMode.toJson
  | .loopOrder => .ok c.loopOrder.toJson
  | .opcode => .ok c.opcode.toJson
  | .operandSize => .ok (.ofNat c.operandSize.toNat)

/-- The configuration as a JSON value. -/
def toJson (c : Config) : Except Error Value := do
  .object <$> Field.all.mapM fun field => do
    pure (field.key.toList, ← c.fieldValue field)

/-- The configuration as JSON text over many lines. -/
def toText (c : Config) : Except Error String := Value.page <$> c.toJson

/-- The configuration that a JSON text gives. -/
def ofText (text : String) : Except Error Config := Reader.run Reader.config text

end Config

end BankTrace
