import BankTrace.Config.Text
import BankTrace.Host

/-!
# Configuration files
-/

namespace BankTrace.ConfigFile

variable {m : Type → Type} [Monad m] {Handle : Type} [Host m Handle]

/-- The configuration in a file. -/
def load (path : Path) : ExceptT Error m Config := do
  let text ← Host.attempt ("read config file " ++ path.quoted) (Host.readText path)
  match Config.ofText text with
  | .error e => throw (.inStep "parse config file" (.json e))
  | .ok config =>
      Host.note (.configLoaded path config)
      pure config

/-- Puts a configuration into a file. One that cannot be written as text touches no file. -/
def save (config : Config) (path : Path) : ExceptT Error m Unit := do
  match config.toText with
  | .error e => throw (.json e)
  | .ok text =>
      Host.attempt ("write config file " ++ path.quoted) (Host.writeWhole path text.toUTF8)
      Host.note (.configSaved path)

end BankTrace.ConfigFile
