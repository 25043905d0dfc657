import BankTrace.ConfigFile
import BankTrace.Publication

/-!
# The command line

Options choose a configuration and what is done with it. Each may be given once; one that takes a
path has it behind it, as the next argument or attached, and one-letter options can be bundled.
-/

namespace BankTrace.CommandLine

/-- An argument, as the bytes that were typed. -/
abbrev Argument := List UInt8

/-- The options that take a path. -/
inductive PathOption where
  | config
  | output
deriving DecidableEq, Repr

/-- The options that stand for themselves. -/
inductive Switch where
  | dumpConfig
  | verbose
deriving DecidableEq, Repr

inductive Flag where
  | path (option : PathOption)
  | switch (switch : Switch)
  | help
deriving DecidableEq, Repr

namespace Flag

def all : List Flag :=
  [path .config, path .output, switch .dumpConfig, switch .verbose, help]

/-- The name of an option, behind two dashes. -/
def name : Flag → String
  | path .config => "config"
  | path .output => "output"
  | switch .dumpConfig => "dump-config"
  | switch .verbose => "verbose"
  | help => "help"

/-- The letter of an option, behind one dash. -/
def letter? : Flag → Option Char
  | path .config => some 'c'
  | path .output => some 'o'
  | switch .dumpConfig => none
  | switch .verbose => some 'v'
  | help => some 'h'

def ofName? (name : List UInt8) : Option Flag :=
  all.find? fun flag => flag.name.toUTF8.data.toList == name

def ofLetter? (letter : UInt8) : Option Flag :=
  all.find? fun flag => flag.letter?.map Char.toUInt8 == some letter

end Flag

/-- Why a command line makes no sense. -/
inductive UsageError where
  | unknownOption (argument : Argument)
  | unexpectedArgument (argument : Argument)
  | unexpectedValue (flag : Flag)
  | missingValue (option : PathOption)
  | repeated (flag : Flag)
deriving DecidableEq, Repr

def UsageError.message : UsageError → String
  | unknownOption argument => "unknown option " ++ Quoted.bytes argument
  | unexpectedArgument argument => "unexpected argument " ++ Quoted.bytes argument
  | unexpectedValue flag => "option --" ++ flag.name ++ " takes no value"
  | missingValue option => "option --" ++ (Flag.path option).name ++ " needs a value"
  | repeated flag => "option --" ++ flag.name ++ " is given more than once"

/-- What the options say. -/
structure Options where
  config : Option Path := none
  output : Option Path := none
  dumpConfig : Bool := false
  verbose : Bool := false
deriving DecidableEq, Repr, Inhabited

namespace Options

/-- The path given with an option. -/
def path? (o : Options) : PathOption → Option Path
  | .config => o.config
  | .output => o.output

/-- Whether a switch is given. -/
def has (o : Options) : Switch → Bool
  | .dumpConfig => o.dumpConfig
  | .verbose => o.verbose

/-- The options with a further path. An empty one is no value. -/
def setPath (o : Options) (option : PathOption) (value : Argument) : Except UsageError Options :=
  if (o.path? option).isSome then .error (.repeated (.path option))
  else if value = [] then .error (.missingValue option)
  else match option with
    | .config => .ok { o with config := some ⟨value⟩ }
    | .output => .ok { o with output := some ⟨value⟩ }

/-- The options with a further switch. -/
def setSwitch (o : Options) (switch : Switch) : Except UsageError Options :=
  if o.has switch then .error (.repeated (.switch switch))
  else match switch with
    | .dumpConfig => .ok { o with dumpConfig := true }
    | .verbose => .ok { o with verbose := true }

end Options

/-! ### Reading arguments -/

/-- What is known behind some of the arguments. -/
inductive Progress where
  | complete (options : Options)
  /-- The path of an option is still to come. -/
  | awaiting (option : PathOption) (options : Options)
  /-- Help is asked for, and nothing behind that counts. -/
  | help
deriving DecidableEq, Repr

def dash : UInt8 := 0x2D

def equalsSign : UInt8 := 0x3D

/-- An option by its name, with the value that may be attached behind an equals sign. -/
def readName (o : Options) (name : List UInt8) (value : Option Argument) :
    Except UsageError Progress :=
  match Flag.ofName? name, value with
  | none, _ => .error (.unknownOption name)
  | some (.path option), some value => .complete <$> o.setPath option value
  | some (.path option), none => .ok (.awaiting option o)
  | some (.switch switch), none => .complete <$> o.setSwitch switch
  | some .help, none => .ok .help
  | some flag, some _ => .error (.unexpectedValue flag)

/-- The text behind two dashes. -/
def readLong (o : Options) (text : List UInt8) : Except UsageError Progress :=
  readName o (text.takeWhile (· != equalsSign)) (text.dropWhile (· != equalsSign)).tail?

/-- The letters behind one dash. What is left behind the letter of an option that takes a path is
its value. -/
def readLetters (o : Options) : List UInt8 → Except UsageError Progress
  | [] => .ok (.complete o)
  | letter :: rest =>
      match Flag.ofLetter? letter with
      | none => .error (.unknownOption [letter])
      | some .help => .ok .help
      | some (.switch switch) => do readLetters (← o.setSwitch switch) rest
      | some (.path option) =>
          match rest with
          | [] => .ok (.awaiting option o)
          | first :: value =>
              .complete <$> o.setPath option (if first = equalsSign then value else rest)

/-- Whether an argument is an option or ends the options. A dash by itself is neither. -/
def isOption (argument : Argument) : Bool :=
  argument.head? == some dash && argument != [dash]

/-- What a command line asks for. -/
inductive Command where
  | run (options : Options)
  | help
deriving DecidableEq, Repr

/-- The command in the arguments that are left. -/
def parseFrom : Progress → List Argument → Except UsageError Command
  | .help, _ => .ok .help
  | .complete o, [] => .ok (.run o)
  | .awaiting option _, [] => .error (.missingValue option)
  | .awaiting option o, argument :: rest =>
      if isOption argument then .error (.missingValue option)
      else do parseFrom (.complete (← o.setPath option argument)) rest
  | .complete o, argument :: rest =>
      match argument with
      | first :: second :: text =>
          if first ≠ dash then .error (.unexpectedArgument argument)
          else if second ≠ dash then do parseFrom (← readLetters o (second :: text)) rest
          else if text ≠ [] then do parseFrom (← readLong o text) rest
          else
            match rest with
            | [] => .ok (.run o)
            | extra :: _ => .error (.unexpectedArgument extra)
      | _ => .error (.unexpectedArgument argument)

/-- The command that the arguments make up. -/
def parse (arguments : List Argument) : Except UsageError Command :=
  parseFrom (.complete {}) arguments

def helpText : String :=
  "Generate AiM ISR traces for the DRAM simulator\n\n" ++
  "Options:\n" ++
  "  -c, --config <CONFIG>  Path to a JSON trace config, defaults are used when absent\n" ++
  "  -o, --output <OUTPUT>  Override the output trace path\n" ++
  "      --dump-config      Print the effective config as JSON and exit\n" ++
  "  -v, --verbose          Enable verbose output\n" ++
  "  -h, --help             Print help\n"

/-! ### Running -/

variable {m : Type → Type} [Monad m] {Handle : Type} [Host m Handle]

/-- Whether an event is shown. -/
def Options.shows (o : Options) (event : Event) : Bool := event.level != .debug || o.verbose

/-- The configuration the options choose. -/
def Options.effectiveConfig (o : Options) : ExceptT Error m Config := do
  let config ← match o.config with
    | some path => during "load trace config" (ConfigFile.load path)
    | none =>
        Host.note .defaultsUsed
        pure {}
  match o.output with
  | some output => pure { config with output }
  | none => pure config

/-- Does what the options say. The result is the text to print. -/
def Options.run (o : Options) : ExceptT Error m String := do
  let config ← o.effectiveConfig
  if o.dumpConfig then
    match config.toText with
    | .ok text => pure (text ++ "\n")
    | .error e => throw (.json e)
  else
    let summary ← during "generate trace" (ExceptT.mk (Publication.publish config))
    Host.note (.ready summary.dataLines)
    pure ""

/-- What the program leaves for its caller. -/
structure Outcome where
  exitCode : UInt32
  /-- What is printed as the result. -/
  printed : String
  /-- What is printed as the reason of a failure. -/
  complaint : String
deriving DecidableEq, Repr

/-- The outcome of a run. -/
def Outcome.ofResult : Except Error String → Outcome
  | .ok text => ⟨0, text, ""⟩
  | .error e => ⟨1, "", "Err: " ++ e.message ++ "\n"⟩

/-- The outcome of a command line that is not run. -/
def Outcome.ofUsage (e : UsageError) : Outcome := ⟨2, "", "error: " ++ e.message ++ "\n"⟩

def Outcome.help : Outcome := ⟨0, helpText, ""⟩

/-- The outcome of a command. -/
def Command.outcome : Command → m Outcome
  | .help => pure .help
  | .run o => return Outcome.ofResult (← o.run.run)

end BankTrace.CommandLine
