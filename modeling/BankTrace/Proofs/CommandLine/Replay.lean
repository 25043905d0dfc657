import BankTrace.Proofs.CommandLine.Arguments
import BankTrace.Proofs.ConfigFile
import BankTrace.Proofs.Publication.Spared

/-!
# Printed configurations

The configuration that a command line chooses, printed and stored in a new file, makes the program
do what the command line makes it do.
-/

namespace BankTrace.CommandLine

open World (run)
open FaultyHost (Touched Later)

/-! ## The configuration that is chosen -/

/-- The configuration that options choose: the one in a file or the one by default, with the output
that is given. -/
def Options.Chooses (o : Options) (t : FileTree) (here : Location) (c : Config) : Prop :=
  ∃ base : Config,
    (match o.config with
      | none => base = {}
      | some file => ∃ text : String, t.read here file = .ok text.toUTF8 ∧
          Config.ofText text = .ok base) ∧
    c = { base with output := o.output.getD base.output }

theorem run_load (file : Path) {host : FaultyHost} (h : host.faults host.history.length = .none) :
    ∃ result, run (ConfigFile.load (m := StateM FaultyHost) file).run host =
        (result, host.after (.look file) (host.tree.read host.here file).isOk host.tree) ∧
      ∀ c, result = .ok c ↔
        ∃ text : String, host.tree.read host.here file = .ok text.toUTF8 ∧
          Config.ofText text = .ok c := by
  have hread : run (Host.readFile (m := StateM FaultyHost) file) host = _ :=
    FaultyHost.run_look_of_none file (fun tree here => tree.read here file) h
  unfold ConfigFile.load
  rw [World.run_bind_except, World.run_attempt, Host.readText, World.run_bind, hread]
  cases host.tree.read host.here file with
  | error e => exact ⟨_, rfl, by simp⟩
  | ok bytes =>
      dsimp only
      cases hutf8 : String.fromUTF8? bytes with
      | none =>
          refine ⟨_, rfl, fun c => iff_of_false nofun ?_⟩
          rintro ⟨text, hbytes, -⟩
          rw [Except.ok.inj hbytes, fromUTF8?_toUTF8] at hutf8
          simp at hutf8
      | some text =>
          obtain rfl := toUTF8_of_fromUTF8? hutf8
          have hsame (text' : String) :
              (.ok text.toUTF8 : Except IoError ByteArray) = .ok text'.toUTF8 ↔ text' = text := by
            simp [eq_comm, String.toByteArray_inj]
          simp only [World.run_pure, inStep, Except.mapError, hsame, exists_eq_left]
          cases Config.ofText text with
          | error e => exact ⟨_, rfl, by simp⟩
          | ok c => exact ⟨_, rfl, by simp⟩

/-- The configuration is found by looks at the most. -/
theorem run_effectiveConfig (o : Options) (initial : FileTree) (host : FaultyHost)
    (h : ∀ i, host.faults i = .none) :
    ∃ result host',
      run (o.effectiveConfig (m := StateM FaultyHost)).run host = (result, host') ∧
      Later initial host host' ∧ host'.tree = host.tree ∧
        ∀ c, result = .ok c ↔ o.Chooses host.tree host.here c := by
  unfold Options.Chooses Options.effectiveConfig
  cases o.config with
  | none =>
      cases o.output <;>
        exact ⟨_, _, rfl, .refl initial host, rfl, fun c => by simpa using eq_comm⟩
  | some file =>
      obtain ⟨result, hrun, hloaded⟩ := run_load file (h _)
      simp only [← hloaded]
      rw [World.run_bind_except, World.run_during, hrun]
      have hlater := (Later.refl initial host).after (.look file)
        (host.tree.read host.here file).isOk host.tree
      cases result with
      | error e => exact ⟨_, _, rfl, hlater, rfl, by simp⟩
      | ok base =>
          cases o.output <;> exact ⟨_, _, rfl, hlater, rfl, fun c => by simpa using eq_comm⟩

/-! ## What is done with it -/

/-- Does what is done with a configuration that is not printed. -/
def generate {m : Type → Type} [Monad m] {Handle : Type} [Host m Handle] (c : Config) :
    ExceptT Error m String := do
  let summary ← during "generate trace" (ExceptT.mk (Publication.publish c))
  Host.note (.ready summary.dataLines)
  pure ""

theorem run_eq_generate {m : Type → Type} [Monad m] {Handle : Type} [Host m Handle] {o : Options}
    (h : o.dumpConfig = false) : o.run (m := m) = o.effectiveConfig >>= generate := by
  unfold Options.run
  simp only [h]
  rfl

/-- The host that nothing has been done on, with a tree, on which nothing goes wrong. -/
def sound (t : FileTree) (here : Location) : FaultyHost :=
  { tree := t, here, faults := fun _ => .none }

/-- What the program leaves on a tree when nothing goes wrong. -/
def launched (arguments : List Argument) (t : FileTree) (here : Location) : Outcome × FaultyHost :=
  run (launch (m := StateM FaultyHost) arguments) (sound t here)

variable {A B : List Argument} {o : Options} {t t' : FileTree} {here l : Location}

theorem launched_of_parse (h : parse A = .ok (.run o)) (t : FileTree) (here : Location) :
    launched A t here =
      (Outcome.ofResult (run (o.run (m := StateM FaultyHost)).run (sound t here)).1,
        (run (o.run (m := StateM FaultyHost)).run (sound t here)).2) := by
  rw [launched, launch_of_parse h, World.run_bind, World.run_pure]

/-! ## Printing it -/

/-- The configuration is printed if one is chosen whose output path is text, and no file changes. -/
theorem launched_dump (hB : parse B = .ok (.run { o with dumpConfig := true })) (t : FileTree)
    (here : Location) :
    (launched B t here).2.tree = t ∧
      ((∃ c path text, o.Chooses t here c ∧ c.output.text? = some path ∧
          Config.ofText text = .ok c ∧ (launched B t here).1 = ⟨0, text, ""⟩) ∨
        (∀ c, o.Chooses t here c → c.output.text? = none) ∧
          (launched B t here).1.exitCode = 1) := by
  obtain ⟨result, host, hrun, -, htree, hchosen⟩ := run_effectiveConfig
    { o with dumpConfig := true } t (sound t here) fun _ => rfl
  rw [launched_of_parse hB, Options.run, World.run_bind_except, hrun]
  cases result with
  | error e =>
      exact ⟨htree, .inr ⟨fun c hc => absurd ((hchosen c).mpr hc) (by simp), rfl⟩⟩
  | ok c =>
      simp only [if_true]
      cases hpath : c.output.text? with
      | none =>
          rw [Config.toText_of_text?_eq_none hpath]
          refine ⟨htree, .inr ⟨fun c' hc' => ?_, rfl⟩⟩
          obtain rfl := Except.ok.inj ((hchosen c').mpr hc')
          exact hpath
      | some path =>
          obtain ⟨text, htext, hof⟩ := Config.ofText_append_of_toText hpath
          rw [htext]
          exact ⟨htree, .inl ⟨c, path, text ++ "\n", (hchosen c).mp rfl, hpath,
            hof "\n" (Json.Reader.spaces_newLine 0), rfl⟩⟩

theorem exitCode_dump (hB : parse B = .ok (.run { o with dumpConfig := true })) {c : Config}
    (hchosen : o.Chooses t here c) {path : String} (hpath : c.output.text? = some path) :
    (launched B t here).1.exitCode = 0 := by
  obtain ⟨-, ⟨_, _, _, -, -, -, hprinted⟩ | ⟨hnone, -⟩⟩ := launched_dump hB t here
  · rw [hprinted]
  · simp [hnone c hchosen] at hpath

/-- A configuration that was printed is the one that is chosen, and no file has changed. -/
theorem printed_of_exitCode (h : parse A = .ok (.run o)) (hdump : o.dumpConfig = false)
    (hexit : (launched (A ++ [dumpArgument]) t here).1.exitCode = 0) :
    (launched (A ++ [dumpArgument]) t here).2.tree = t ∧
      ∃ c, o.Chooses t here c ∧
        Config.ofText (launched (A ++ [dumpArgument]) t here).1.printed = .ok c := by
  rcases parseFrom_append_dumpArgument h hdump with hB | ⟨e, he⟩
  · obtain ⟨htree, ⟨c, -, text, hchosen, -, hof, hprinted⟩ | ⟨-, hfailed⟩⟩ :=
      launched_dump (o := o) hB t here
    · rw [hprinted]
      exact ⟨htree, c, hchosen, hof⟩
    · simp [hfailed] at hexit
  · have hlaunch : launch (m := StateM FaultyHost) (A ++ [dumpArgument]) = pure (.ofUsage e) := by
      rw [launch, parse, he]
    rw [launched, hlaunch, World.run_pure] at hexit
    simp [Outcome.ofUsage] at hexit

/-! ## Storing it -/

/-- The tree behind a file that was made at a path and given bytes. -/
def storedTree (t : FileTree) (here : Location) (file : Path) (bytes : ByteArray) : FileTree :=
  (run (Host.writeWhole (m := StateM FaultyHost) file bytes) (sound t here)).2.tree

variable {file : Path} {bytes : ByteArray}

theorem storedTree_eq (hlocate : t.locate .create here file = .ok l) (hmissing : t.entry? l = none)
    (hne : bytes.size ≠ 0) :
    storedTree t here file bytes =
      (t.insert l (.file t.freshNumber .empty)).changeFile t.freshNumber (· ++ bytes) := by
  have hcreate : run (Host.createFile (m := StateM FaultyHost) file) (sound t here) =
      (.ok (.file t.freshNumber), (sound t here).after (.createFile file) true
        (t.insert l (.file t.freshNumber .empty))) := by
    have hcreated := FileTree.create_eq_ok_iff.mpr
      ⟨l, hlocate, .made hmissing (FileTree.tail_of_locate hlocate)⟩
    refine (FaultyHost.run_perform_of_none _ _ rfl).trans ?_
    simp [sound, FaultyHost.whole, hcreated, Except.isOk, Except.toBool]
  have hwrite := World.run_offer_whole (m := StateM FaultyHost)
    (s := FileSink.mk (OpenFile.file t.freshNumber))
    (w := (sound t here).after (.createFile file) true
      (t.insert l (.file t.freshNumber .empty))) hne rfl
  rw [storedTree, Host.writeWhole, World.run_bind, hcreate]
  dsimp only
  rw [World.run_bind, hwrite]
  rfl

theorem beside_storedTree (hlocate : t.locate .create here file = .ok l)
    (hmissing : t.entry? l = none) (hne : bytes.size ≠ 0) :
    FileTree.Beside l t.freshNumber bytes 1 t (storedTree t here file bytes) := by
  rw [storedTree_eq hlocate hmissing hne]
  have hmade := FileTree.beside_insert hmissing (FileTree.tail_of_locate hlocate) .empty
  simpa using hmade.write (· ++ bytes)

theorem read_storedTree (hlocate : t.locate .create here file = .ok l)
    (hmissing : t.entry? l = none) (hne : bytes.size ≠ 0) :
    (storedTree t here file bytes).read here file = .ok bytes := by
  have hcreated := FileTree.create_eq_ok_iff.mpr
    ⟨l, hlocate, .made hmissing (FileTree.tail_of_locate hlocate)⟩
  rw [storedTree_eq hlocate hmissing hne, FileTree.read_of_create hcreated,
    ByteArray.empty_append]

/-! ## Doing it again -/

theorem alongside_generate {d : Further} (c : Config) :
    d.Alongside Eq (generate (m := StateM FaultyHost) c).run
      (generate (m := StateM FaultyHost) c).run :=
  (Further.alongside_publish c).during.bindExcept fun _ =>
    (Further.alongside_report _).lift.bindExcept fun _ => .pure rfl

theorem alongside_effectiveConfig {d : Further} (o : Options) :
    d.Alongside Eq (o.effectiveConfig (m := StateM FaultyHost)).run
      (o.effectiveConfig (m := StateM FaultyHost)).run := by
  have hload (file : Path) : d.Alongside Eq (ConfigFile.load (m := StateM FaultyHost) file).run
      (ConfigFile.load (m := StateM FaultyHost) file).run := by
    refine (Further.alongside_readText file).attempt.bindExcept fun text => ?_
    cases Config.ofText text with
    | error e => exact .pure rfl
    | ok c => exact (Further.alongside_report _).lift.bindExcept fun _ => .pure rfl
  unfold Options.effectiveConfig
  cases o.config with
  | none => cases o.output <;> exact .pure rfl
  | some file =>
      refine (hload file).during.bindExcept fun base => ?_
      cases o.output <;> exact .pure rfl

/-- Two runs with the same outcome that leave the same files, but for a further one that the second
leaves. The numbers of the files may differ. -/
structure Agree (l : Location) (content : ByteArray) (plain other : Outcome × FaultyHost) :
    Prop where
  outcome_eq : other.1 = plain.1
  beside : ∃ number f, FileTree.Beside l number content f plain.2.tree other.2.tree

/-- A run that does not touch the place of a further file does not depend on the file. -/
theorem agree_of_untouched {d : Further} (hinitial : d.initial = t)
    (hpairs : d.Pairs (sound t here) (sound t' here)) (h : parse A = .ok (.run o))
    (hdump : o.dumpConfig = false) (huntouched : ¬ Touched t d.location (launched A t here).2) :
    Agree d.location d.content (launched A t here) (launched A t' here) := by
  subst hinitial
  have halong : d.Alongside Eq (o.run (m := StateM FaultyHost)).run
      (o.run (m := StateM FaultyHost)).run := by
    rw [run_eq_generate hdump]
    exact (alongside_effectiveConfig o).bindExcept alongside_generate
  rw [launched_of_parse h] at huntouched
  rw [launched_of_parse h, launched_of_parse h]
  obtain ⟨hvalue, hpairs'⟩ := halong.runs hpairs huntouched
  exact ⟨by rw [hvalue], d.number, hpairs'.beside⟩

/-- Two command lines agree that choose the same configuration, the second besides a further file
that the first does not touch. -/
theorem agree_of_chooses {d : Further} {o' : Options} {c : Config} (hinitial : d.initial = t)
    (hpairs : d.Pairs (sound t here) (sound t' here)) (hA : parse A = .ok (.run o))
    (hdump : o.dumpConfig = false) (hB : parse B = .ok (.run o')) (hdump' : o'.dumpConfig = false)
    (hchosen : o.Chooses t here c) (hchosen' : o'.Chooses t' here c)
    (huntouched : ¬ Touched t d.location (launched A t here).2) :
    Agree d.location d.content (launched A t here) (launched B t' here) := by
  subst hinitial
  obtain ⟨result, host, hrun, hlater, htree, hresult⟩ :=
    run_effectiveConfig o d.initial (sound d.initial here) fun _ => rfl
  obtain ⟨result', host', hrun', hlater', htree', hresult'⟩ :=
    run_effectiveConfig o' t' (sound t' here) fun _ => rfl
  obtain rfl := (hresult c).mpr hchosen
  obtain rfl := (hresult' c).mpr hchosen'
  -- Finding the configuration has changed neither tree, so what follows starts from the same pair.
  have hstart : d.Pairs host host' :=
    hpairs.later hlater hlater' (by rw [htree, htree']; exact hpairs.beside)
  rw [launched_of_parse hA, run_eq_generate hdump, World.run_bind_except, hrun] at huntouched
  rw [launched_of_parse hA, run_eq_generate hdump, World.run_bind_except, hrun,
    launched_of_parse hB, run_eq_generate hdump', World.run_bind_except, hrun']
  obtain ⟨hvalue, hpairs'⟩ := (alongside_generate c).runs hstart huntouched
  exact ⟨by rw [hvalue], d.number, hpairs'.beside⟩

/-- Without a configuration file and with a file name as output, no other place of the working
directory is touched. -/
theorem untouched_of_isFileName (h : parse A = .ok (.run o)) (hdump : o.dumpConfig = false)
    (hconfig : o.config = none) {name : Name} (hname : Path.IsFileName name)
    (houtput : o.output = some ⟨name⟩) (hmissing : t.entry? l = none)
    (htail : t.entry? l.tail = some .directory) (hl : Further.Elsewhere here name l)
    (hlink : ∀ target, t.entry? ((name ++ Publication.partialSuffix) :: here) ≠
      some (.link target)) : ¬ Touched t l (launched A t here).2 := by
  have hconfig' : run (o.effectiveConfig (m := StateM FaultyHost)).run (sound t here) =
      (.ok { output := ⟨name⟩ }, sound t here) := by
    unfold Options.effectiveConfig
    rw [hconfig, houtput]
    rfl
  have hspared : Further.Spared ⟨t, l, t.freshNumber, .empty⟩ here (sound t here) :=
    ⟨rfl, id, sound (t.insert l (.file t.freshNumber .empty)) here, rfl, fun _ => rfl, fun _ => rfl,
      rfl, 1, FileTree.beside_insert hmissing htail .empty⟩
  have hpublish := (Further.spared_publish (c := { output := ⟨name⟩ }) hname rfl hl hlink
    hspared).untouched
  rw [launched_of_parse h, run_eq_generate hdump, World.run_bind_except, hconfig']
  dsimp only
  rw [generate, World.run_bind_except, World.run_during, ExceptT.run_mk]
  generalize run (Publication.publish (m := StateM FaultyHost) { output := ⟨name⟩ })
    (sound t here) = published at hpublish ⊢
  obtain ⟨e | summary, host⟩ := published <;> exact hpublish

/-- The configuration a command line chooses, printed and stored in a new file that the command
line does not touch, replays it: the program does the same from the file. -/
theorem dump_replays (h : parse A = .ok (.run o)) (hdump : o.dumpConfig = false)
    (hexit : (launched (A ++ [dumpArgument]) t here).1.exitCode = 0) :
    let dump := launched (A ++ [dumpArgument]) t here
    dump.2.tree = t ∧
      (∃ c, o.Chooses t here c ∧ Config.ofText dump.1.printed = .ok c) ∧
      ∀ (file : Path) (l : Location) (B : List Argument),
        parse B = .ok (.run { config := some file }) →
        t.locate .create here file = .ok l → t.entry? l = none →
        ¬ Touched t l (launched A t here).2 →
          Agree l dump.1.printed.toUTF8 (launched A t here)
            (launched B (storedTree t here file dump.1.printed.toUTF8) here) ∧
          Agree l dump.1.printed.toUTF8 (launched A t here)
            (launched A (storedTree t here file dump.1.printed.toUTF8) here) := by
  intro dump
  obtain ⟨htree, c, hchosen, hof⟩ := printed_of_exitCode h hdump hexit
  refine ⟨htree, ⟨c, hchosen, hof⟩, fun file l B hB hlocate hmissing huntouched => ?_⟩
  have hne : dump.1.printed.toUTF8.size ≠ 0 :=
    mt ByteArray.size_eq_zero_iff.mp (ConfigFile.toUTF8_ne_empty hof)
  have hpairs : Further.Pairs ⟨t, l, t.freshNumber, dump.1.printed.toUTF8⟩ (sound t here)
      (sound (storedTree t here file dump.1.printed.toUTF8) here) :=
    ⟨rfl, fun _ => rfl, fun _ => rfl, rfl, 1, beside_storedTree hlocate hmissing hne⟩
  -- From the file the same configuration is chosen as by the command line.
  have hfile : Options.Chooses { config := some file }
      (storedTree t here file dump.1.printed.toUTF8) here c :=
    ⟨c, ⟨_, read_storedTree hlocate hmissing hne, hof⟩, rfl⟩
  exact ⟨agree_of_chooses rfl hpairs h hdump hB rfl hchosen hfile huntouched,
    agree_of_untouched rfl hpairs h hdump huntouched⟩

/-- The configuration by default with another output, printed into a new file beside an output that
is there already. -/
theorem dump_replays_new_output :
    let A : List Argument := [[dash, 0x6F], [0x74]]
    let t : FileTree := ⟨[([[0x74]], .file 0 ⟨#[0x7B]⟩)]⟩
    let dump := launched (A ++ [dumpArgument]) t []
    parse A = .ok (.run { output := some ⟨[0x74]⟩ }) ∧ dump.1.exitCode = 0 ∧ dump.2.tree = t ∧
      Config.ofText dump.1.printed = .ok { output := ⟨[0x74]⟩ } ∧
      Agree [[0x64]] dump.1.printed.toUTF8 (launched A t [])
        (launched (configArguments ⟨[0x64]⟩)
          (storedTree t [] ⟨[0x64]⟩ dump.1.printed.toUTF8) []) := by
  intro A t dump
  have hA : parse A = .ok (.run { output := some ⟨[0x74]⟩ }) := by decide +kernel
  have hB : parse (A ++ [dumpArgument]) =
      .ok (.run { output := some ⟨[0x74]⟩, dumpConfig := true }) := by decide +kernel
  have hpath : (⟨[0x74]⟩ : Path).text? = some "t" := Path.text?_eq_some_iff.mpr rfl
  have hchosen : Options.Chooses { output := some ⟨[0x74]⟩ } t [] { output := ⟨[0x74]⟩ } :=
    ⟨{}, rfl, rfl⟩
  have hexit : dump.1.exitCode = 0 := exitCode_dump hB hchosen hpath
  have hname : Path.IsFileName [0x74] := ⟨by decide, by decide, by decide, by decide⟩
  obtain ⟨htree, ⟨c, hc, hof⟩, hreplays⟩ := dump_replays hA rfl hexit
  obtain ⟨base, rfl, rfl⟩ := hc
  have hfree : t.entry? [[0x74] ++ Publication.partialSuffix] = none := rfl
  have huntouched : ¬ Touched t [[0x64]] (launched A t []).2 :=
    untouched_of_isFileName hA rfl rfl hname rfl rfl rfl ⟨by decide, by decide, by decide⟩
      fun _ => by rw [hfree]; exact nofun
  exact ⟨hA, hexit, htree, hof, (hreplays ⟨[0x64]⟩ [[0x64]] (configArguments ⟨[0x64]⟩)
    (parse_configArguments (by decide) (by decide)) rfl rfl huntouched).1⟩

end BankTrace.CommandLine
