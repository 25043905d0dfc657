import BankTrace.Config.Validation
import BankTrace.Json.Error

/-!
# Errors

What can stop the making of a trace, and the steps in which it happened.
-/

namespace BankTrace

/-- Why a file operation or a write to a sink fails. -/
inductive IoError where
  | notFound
  | busy
  | fileExists
  | notDirectory
  | isDirectory
  | noSpace
  | nameTooLong
  | tooManyLinks
  /-- A path with a zero byte in it names nothing. -/
  | zeroInPath
  /-- A file that is read as text holds something else. -/
  | notText
  /-- A sink took none of the bytes it was offered. -/
  | wroteNothing
  | other (text : String)
deriving DecidableEq, Repr

/-- The wording of an error of the operating system. -/
def systemMessage (text : String) (number : Nat) : String :=
  text ++ " (os error " ++ Numeral.write 10 number ++ ")"

def IoError.message : IoError → String
  | notFound => systemMessage "No such file or directory" 2
  | busy => systemMessage "Device or resource busy" 16
  | fileExists => systemMessage "File exists" 17
  | notDirectory => systemMessage "Not a directory" 20
  | isDirectory => systemMessage "Is a directory" 21
  | noSpace => systemMessage "No space left on device" 28
  | nameTooLong => systemMessage "File name too long" 36
  | tooManyLinks => systemMessage "Too many levels of symbolic links" 40
  | zeroInPath => "file name contained an unexpected NUL byte"
  | notText => "stream did not contain valid UTF-8"
  | wroteNothing => "failed to write whole buffer"
  | other text => text

/-- Why a writer refuses what it is asked to do. -/
inductive WriteError where
  | writeAfterEoc
  | missingEoc
deriving DecidableEq, Repr

def WriteError.message : WriteError → String
  | writeAfterEoc => "instruction written after EOC"
  | missingEoc => "trace closed without EOC"

inductive Error where
  | io (cause : IoError)
  | json (cause : Json.Error)
  | request (cause : RequestError)
  | config (cause : ConfigError)
  | write (cause : WriteError)
  /-- An error that came up in a step. -/
  | inStep (step : String) (cause : Error)
deriving DecidableEq, Repr

def Error.message : Error → String
  | io cause => cause.message
  | json cause => cause.message
  | request cause => cause.message
  | config cause => cause.message
  | write cause => cause.message
  | inStep step cause => step ++ " >> " ++ cause.message

/-- The result, an error being told the step it came up in. The step is put into words only then. -/
def inStepM {m : Type → Type} [Monad m] {α : Type} (result : Except Error α) (step : m String) :
    m (Except Error α) :=
  match result with
  | .ok a => pure (.ok a)
  | .error e => return .error (.inStep (← step) e)

/-- The result, an error being told the step it came up in. -/
def inStep {α : Type} (step : String) (result : Except Error α) : Except Error α :=
  result.mapError (.inStep step)

/-- The work of a step: an error that comes up in it is told the step. -/
def during {m : Type → Type} [Monad m] {α : Type} (step : String) (work : ExceptT Error m α) :
    ExceptT Error m α :=
  ExceptT.mk do return inStep step (← work.run)

end BankTrace
