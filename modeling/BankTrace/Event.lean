import BankTrace.Error

/-!
# Events

What is reported while a trace is made, beside its result.
-/

namespace BankTrace

/-- How much an event matters. -/
inductive Level where
  | debug
  | info
  | warning
deriving DecidableEq, Repr

def Level.name : Level → String
  | debug => "DEBUG"
  | info => "INFO"
  | warning => "WARN"

inductive Event where
  | configLoaded (path : Path) (config : Config)
  | configSaved (path : Path)
  | defaultsUsed
  | traversing (order : LoopOrder) (rows bursts banks masks : Nat)
  | groupSpread (groups : List Nat)
  /-- Neighbours in the bank order that share a bank group. -/
  | groupShared (first second : UInt16)
  | emitting (dataLines : Nat)
  | writing (opcode : Opcode) (output : Path)
  | directoryCreated (path : Path)
  | written (dataLines : Nat) (output : Path)
  | partialRemoved (path : Path)
  | partialLeft (path : Path) (cause : IoError)
  | ready (dataLines : Nat)
deriving DecidableEq, Repr

namespace Event

def level : Event → Level
  | configLoaded .. | traversing .. | groupSpread .. | emitting .. | partialRemoved .. => .debug
  | configSaved .. | defaultsUsed | writing .. | directoryCreated .. | written .. | ready .. =>
      .info
  | groupShared .. | partialLeft .. => .warning

def message : Event → String
  | configLoaded path config =>
      "load trace config from " ++ path.quoted ++ ": " ++ config.label
  | configSaved path => "save trace config to " ++ path.quoted
  | defaultsUsed => "no config file given, use the default write trace"
  | traversing order rows bursts banks masks =>
      "traverse " ++ order.label ++ ": " ++ Numeral.write 10 rows ++ " rows, " ++
        Numeral.write 10 bursts ++ " bursts, " ++ Numeral.write 10 banks ++ " banks, " ++
        Numeral.write 10 masks ++ " channel masks"
  | groupSpread groups => "bank group spread: " ++ Config.listLabel groups
  | groupShared first second =>
      "banks " ++ Numeral.write 10 first.toNat ++ " and " ++ Numeral.write 10 second.toNat ++
        " are back to back in the same bank group"
  | emitting dataLines => "emit " ++ Numeral.write 10 dataLines ++ " data instructions"
  | writing opcode output => "write " ++ opcode.mnemonic ++ " trace to " ++ output.quoted
  | directoryCreated path => "created output directory: " ++ path.quoted
  | written dataLines output =>
      "wrote " ++ Numeral.write 10 dataLines ++ " instructions and EOC to " ++ output.quoted
  | partialRemoved path => "removed partial trace " ++ path.quoted
  | partialLeft path cause =>
      "can't remove partial trace " ++ path.quoted ++ ": " ++ cause.message
  | ready dataLines => "trace ready: " ++ Numeral.write 10 dataLines ++ " data lines + EOC"

/-- The event as a line of a log. -/
def line (event : Event) : String := event.level.name ++ " " ++ event.message

end Event

end BankTrace
