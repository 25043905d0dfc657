import BankTrace.CommandLine
import BankTrace.Proofs.FileTree.Entries

/-!
# Command lines with one option more

A command line that is accepted stays so with a further option behind it, unless its options were
ended before.
-/

namespace BankTrace.CommandLine

def longOption (name : String) : Argument := dash :: dash :: name.toUTF8.data.toList

def dumpArgument : Argument := longOption "dump-config"

def configArguments (file : Path) : List Argument := [[dash, 0x63], file.bytes]

theorem readLong_dumpConfig (o : Options) :
    readLong o "dump-config".toUTF8.data.toList = .complete <$> o.setSwitch .dumpConfig := by
  have hname : "dump-config".toUTF8.data.toList.takeWhile (· != equalsSign) =
      "dump-config".toUTF8.data.toList := by decide +kernel
  have hvalue : ("dump-config".toUTF8.data.toList.dropWhile (· != equalsSign)).tail? = none := by
    decide +kernel
  have hflag : Flag.ofName? "dump-config".toUTF8.data.toList = some (.switch .dumpConfig) := by
    decide +kernel
  rw [readLong, hname, hvalue]
  simp only [readName, hflag]

theorem parseFrom_dumpArgument {o : Options} (h : o.dumpConfig = false) :
    parseFrom (.complete o) [dumpArgument] = .ok (.run { o with dumpConfig := true }) := by
  have htext : "dump-config".toUTF8.data.toList ≠ [] := by decide +kernel
  have hread : readLong o "dump-config".toUTF8.data.toList =
      .ok (.complete { o with dumpConfig := true }) := by
    rw [readLong_dumpConfig]
    simp [Options.setSwitch, Options.has, h]
  rw [dumpArgument, longOption, parseFrom]
  simp only [ne_eq, not_true_eq_false, if_false, htext, not_false_eq_true, if_true, hread]
  rfl

/-- Behind the arguments of a run, the option for the configuration asks for it or makes no
sense. -/
theorem parseFrom_append_dumpArgument {p : Progress} {arguments : List Argument} {o : Options}
    (h : parseFrom p arguments = .ok (.run o)) (hdump : o.dumpConfig = false) :
    parseFrom p (arguments ++ [dumpArgument]) = .ok (.run { o with dumpConfig := true }) ∨
      ∃ e, parseFrom p (arguments ++ [dumpArgument]) = .error e := by
  induction arguments generalizing p with
  | nil =>
      cases p with
      | complete o' =>
          obtain rfl : o' = o := by simpa [parseFrom] using h
          exact .inl (parseFrom_dumpArgument hdump)
      | awaiting option o' => simp [parseFrom] at h
      | help => simp [parseFrom] at h
  | cons argument rest ih =>
      cases p with
      | help => simp [parseFrom] at h
      | awaiting option o' =>
          rw [parseFrom] at h
          rw [List.cons_append, parseFrom]
          split_ifs at h ⊢ with hoption
          obtain ⟨o'', hset, hrest⟩ := bind_eq_ok_iff.mp h
          rw [hset]
          exact ih hrest
      | complete o' =>
          rw [List.cons_append]
          match argument with
          | [] | [_] => simp [parseFrom] at h
          | first :: second :: text =>
              simp only [parseFrom] at h ⊢
              split_ifs at h ⊢ with hfirst hsecond htext
              · obtain ⟨p', hread, hrest⟩ := bind_eq_ok_iff.mp h
                rw [hread]
                exact ih hrest
              · obtain ⟨p', hread, hrest⟩ := bind_eq_ok_iff.mp h
                rw [hread]
                exact ih hrest
              · cases rest with
                | nil => exact .inr ⟨_, rfl⟩
                | cons extra rest => simp at h

theorem parse_configArguments {file : Path} (hne : file.bytes ≠ [])
    (hoption : isOption file.bytes = false) :
    parse (configArguments file) = .ok (.run { config := some file }) := by
  have hread : readLetters {} [0x63] = .ok (.awaiting .config {}) := by
    rw [readLetters]
    rfl
  have hset : Options.setPath {} .config file.bytes = .ok { config := some file } := by
    simp [Options.setPath, Options.path?, hne]
  have hletter : ¬ (0x63 : UInt8) = dash := by decide
  have hvalue : parseFrom (.awaiting .config {}) [file.bytes] =
      .ok (.run { config := some file }) := by
    simp only [parseFrom, hoption, hset]
    rfl
  rw [parse, configArguments]
  simp only [parseFrom, ne_eq, not_true_eq_false, if_false, hletter, not_false_eq_true, if_true,
    hread]
  exact hvalue

/-! ## Running arguments -/

variable {m : Type → Type} [Monad m] {Handle : Type} [Host m Handle]

/-- What the program does with its arguments. -/
def launch (arguments : List Argument) : m Outcome :=
  match parse arguments with
  | .error e => pure (.ofUsage e)
  | .ok command => command.outcome

theorem launch_of_parse {arguments : List Argument} {o : Options}
    (h : parse arguments = .ok (.run o)) :
    launch (m := m) arguments = do return Outcome.ofResult (← o.run.run) := by
  rw [launch, h]
  rfl

end BankTrace.CommandLine
