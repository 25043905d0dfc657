import BankTrace.ConfigFile
import BankTrace.Proofs.Config.RoundTrip
import BankTrace.Proofs.MemoryHost

/-!
# Configuration files are read back

A configuration that was saved is loaded again from the same path, whatever links lead to the file.
One that cannot be written as text does not come near the files.
-/

namespace BankTrace.ConfigFile

open World (run)

variable {c : Config} {path : Path} {text : String}

/-! ## Saving -/

theorem save_of_toText_error {m : Type → Type} [Monad m] {Handle : Type} [Host m Handle]
    {e : Json.Error} (h : c.toText = .error e) (path : Path) :
    (save c path : ExceptT Error m Unit) = throw (.json e) := by
  unfold save
  rw [h]

theorem toUTF8_ne_empty (h : Config.ofText text = .ok c) : text.toUTF8 ≠ .empty := by
  intro hempty
  obtain rfl : text = "" := String.toByteArray_inj.mp hempty
  exact nomatch h

theorem run_save (h : c.toText = .ok text) (host : MemoryHost) :
    run (save (m := StateM MemoryHost) c path).run host =
      match run (Host.writeWhole (m := StateM MemoryHost) path text.toUTF8) host with
      | (.ok (), host') => (.ok (), { host' with log := .configSaved path :: host'.log })
      | (.error e, host') =>
          (.error (.inStep ("write config file " ++ path.quoted) (.io e)), host') := by
  unfold save
  rw [h]
  simp only [World.run_bind_except, World.run_attempt]
  rcases run (Host.writeWhole (m := StateM MemoryHost) path text.toUTF8) host with ⟨e | _, host'⟩
  · rfl
  · rfl

theorem run_save_of_create (h : c.toText = .ok text) {host : MemoryHost} {number : Nat}
    {tree : FileTree} (hcreate : host.tree.create host.here path = .ok (.file number, tree)) :
    ∃ host', run (save (m := StateM MemoryHost) c path).run host = (.ok (), host') ∧
      host'.tree.read host'.here path = .ok text.toUTF8 := by
  obtain ⟨written, hwrite, hread⟩ := MemoryHost.run_writeWhole hcreate text.toUTF8
  refine ⟨{ host with tree := written, log := .configSaved path :: host.log }, ?_, hread⟩
  rw [run_save h, hwrite]

theorem create_of_run_save (h : c.toText = .ok text) (hne : text.toUTF8 ≠ .empty)
    {host : MemoryHost} (hsave : (run (save (m := StateM MemoryHost) c path).run host).1 = .ok ()) :
    ∃ number tree, host.tree.create host.here path = .ok (.file number, tree) := by
  rw [run_save h] at hsave
  cases hwrite : run (Host.writeWhole (m := StateM MemoryHost) path text.toUTF8) host with
  | mk result host' =>
      rw [hwrite] at hsave
      cases result with
      | error e => exact nomatch hsave
      | ok _ => exact MemoryHost.create_of_run_writeWhole hne hwrite

/-! ## Loading -/

theorem run_load {host : MemoryHost} (hread : host.tree.read host.here path = .ok text.toUTF8)
    (h : Config.ofText text = .ok c) :
    run (load (m := StateM MemoryHost) path).run host =
      (.ok c, { host with log := .configLoaded path c :: host.log }) := by
  have htext : run (Host.readText (m := StateM MemoryHost) path) host = (.ok text, host) := by
    have hbytes : run (Host.readFile (m := StateM MemoryHost) path) host =
        (.ok text.toUTF8, host) := by
      rw [← hread]
      rfl
    unfold Host.readText
    rw [World.run_bind, hbytes]
    dsimp only
    rw [fromUTF8?_toUTF8]
    rfl
  unfold load
  rw [World.run_bind_except, World.run_attempt, htext]
  simp only [Except.mapError, inStep, h]
  rfl

/-! ## Both -/

/-- What a configuration is written as gives it back, as a text and as a file. -/
structure RoundTrip (c : Config) : Prop where
  /-- It has a text exactly when its path is one. -/
  written : (∃ text, c.toText = .ok text) ↔ ∃ s : String, c.output = Path.ofString s
  refused : (¬ ∃ s : String, c.output = Path.ofString s) → c.toText = .error .pathNotText
  read : ∀ text, c.toText = .ok text → Config.ofText text = .ok c
  /-- It is saved wherever it has a text and a file can be opened for writing. -/
  saved : ∀ (host : MemoryHost) (path : Path),
    (run (save (m := StateM MemoryHost) c path).run host).1 = .ok () ↔
      (∃ s : String, c.output = Path.ofString s) ∧
        ∃ number tree, host.tree.create host.here path = .ok (.file number, tree)
  /-- Where it was saved it is loaded. -/
  loaded : ∀ (host : MemoryHost) (path : Path),
    (run (save (m := StateM MemoryHost) c path).run host).1 = .ok () →
      (run (load (m := StateM MemoryHost) path).run
        (run (save (m := StateM MemoryHost) c path).run host).2).1 = .ok c
  /-- Without a text no host is asked for anything. -/
  untouched : ∀ {m : Type → Type} [Monad m] {Handle : Type} [Host m Handle] (path : Path),
    (¬ ∃ s : String, c.output = Path.ofString s) →
      (save c path : ExceptT Error m Unit) = throw (.json .pathNotText)

/-- Every configuration makes the round trip, accepted by validation or not. -/
theorem roundTrip (c : Config) : RoundTrip c := by
  cases htext? : c.output.text? with
  | none =>
      have hpath : ¬ ∃ s : String, c.output = Path.ofString s := by
        rintro ⟨s, hs⟩
        simp [Path.text?_eq_some_iff.mpr hs] at htext?
      have herror := Config.toText_of_text?_eq_none htext?
      have hsave {m : Type → Type} [Monad m] {Handle : Type} [Host m Handle] (path : Path) :
          (save c path : ExceptT Error m Unit) = throw (.json .pathNotText) :=
        save_of_toText_error herror path
      have hfails (host : MemoryHost) (path : Path) :
          (run (save (m := StateM MemoryHost) c path).run host).1 ≠ .ok () := by
        rw [hsave]
        exact nofun
      exact {
        written := iff_of_false (by simp [herror]) hpath
        refused := fun _ => herror
        read := by simp [herror]
        saved := fun host path => iff_of_false (hfails host path) fun h => hpath h.1
        loaded := fun host path h => absurd h (hfails host path)
        untouched := fun path _ => hsave path }
  | some s =>
      have hpath : ∃ s : String, c.output = Path.ofString s :=
        ⟨s, Path.text?_eq_some_iff.mp htext?⟩
      obtain ⟨text, htext, hof⟩ := Config.ofText_of_toText htext?
      have hcreate (host : MemoryHost) (path : Path)
          (h : (run (save (m := StateM MemoryHost) c path).run host).1 = .ok ()) :
          ∃ number tree, host.tree.create host.here path = .ok (.file number, tree) :=
        create_of_run_save htext (toUTF8_ne_empty hof) h
      exact {
        written := iff_of_true ⟨text, htext⟩ hpath
        refused := fun h => absurd hpath h
        read := fun text' htext' => by
          obtain rfl : text = text' := Except.ok.inj (htext.symm.trans htext')
          exact hof
        saved := fun host path => by
          refine ⟨fun h => ⟨hpath, hcreate host path h⟩, ?_⟩
          rintro ⟨-, number, tree, h⟩
          obtain ⟨host', hsave, -⟩ := run_save_of_create htext h
          rw [hsave]
        loaded := fun host path h => by
          obtain ⟨number, tree, hmade⟩ := hcreate host path h
          obtain ⟨host', hsave, hread⟩ := run_save_of_create htext hmade
          rw [hsave, run_load hread hof]
        untouched := fun path h => absurd hpath h }

/-- A path that is escaped in every way, and numbers at their ends, saved through a link. -/
theorem roundTrip_through_link :
    let c : Config := {
      output := .ofString "\x01\t\"\\ é漢🙂", rowCount := 0, burstCount := 4294967295,
      bankOrder := [65535, 0, 0], channelMode := .perChannel 18446744073709551615,
      loopOrder := .burstGroup, opcode := .endOfCommands, operandSize := 4294967295 }
    let host : MemoryHost := {
      tree := ⟨[([[0x61]], .link (.ofString "b")), ([[0x62]], .file 0 ⟨#[0x7b]⟩)]⟩, here := [] }
    (∃ text, c.toText = .ok text ∧ Config.ofText text = .ok c) ∧
      (run (save (m := StateM MemoryHost) c ⟨[0x61]⟩).run host).1 = .ok () ∧
      (run (load (m := StateM MemoryHost) ⟨[0x61]⟩).run
        (run (save (m := StateM MemoryHost) c ⟨[0x61]⟩).run host).2).1 = .ok c := by
  intro c host
  have hpath : ∃ s : String, c.output = Path.ofString s := ⟨_, rfl⟩
  have hcreate : host.tree.create host.here ⟨[0x61]⟩ =
      .ok (.file 0, ⟨[([[0x61]], .link (.ofString "b")), ([[0x62]], .file 0 .empty)]⟩) := rfl
  clear_value c host
  obtain ⟨text, htext⟩ := (roundTrip c).written.mpr hpath
  have hsave := ((roundTrip c).saved host ⟨[0x61]⟩).mpr ⟨hpath, _, _, hcreate⟩
  exact ⟨⟨text, htext, (roundTrip c).read text htext⟩, hsave, (roundTrip c).loaded host _ hsave⟩

end BankTrace.ConfigFile
