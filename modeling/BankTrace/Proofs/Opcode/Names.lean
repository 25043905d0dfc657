import BankTrace.Config.Text
import BankTrace.Proofs.Json.Names

/-!
# Names of opcodes

An opcode is named by its mnemonic, or by its mnemonic behind the name of the instruction set. Two
readers know these names, one that takes the set name off and looks for the mnemonic, and one that
looks the whole name up in a table, behind the decoding of a JSON string. They agree on every text.
-/

namespace BankTrace

open Json (Spells)
open Json.Reader (Spaces run run_named run_string_line run_string_of_spells resolveIn
  resolveIn_eq_ok_iff resolveIn_eq_error)

namespace Opcode

variable {o : Opcode} {s : String} {text : List Char}

def IsName (s : String) (o : Opcode) : Prop := s = o.mnemonic ∨ s = "ISR_" ++ o.mnemonic

/-! ## Reading text -/

/-- No mnemonic begins with the name of the instruction set itself. -/
theorem withoutSetName_eq_iff : withoutSetName text = o.mnemonic.toList ↔
    text = o.mnemonic.toList ∨ text = 'I' :: 'S' :: 'R' :: '_' :: o.mnemonic.toList := by
  have hhead (more : List Char) : 'I' :: more ≠ o.mnemonic.toList := by
    cases o <;> simp [mnemonic]
  unfold withoutSetName
  split
  next bare => simp [hhead]
  next hbare =>
    refine (or_iff_left fun h => ?_).symm
    exact hbare _ h

theorem find?_mnemonic_eq_some_iff :
    (all.find? fun opcode => opcode.mnemonic.toList == text) = some o ↔
      text = o.mnemonic.toList := by
  constructor
  · intro h
    have hfound : o.mnemonic.toList = text := by simpa using List.find?_some h
    exact hfound.symm
  · rintro rfl
    cases o <;> rfl

theorem ofString_eq_ok_iff : ofString s = .ok o ↔ IsName s o := by
  have hname : IsName s o ↔ s.toList = o.mnemonic.toList ∨
      s.toList = 'I' :: 'S' :: 'R' :: '_' :: o.mnemonic.toList := by
    rw [IsName, ← String.toList_inj, ← String.toList_inj, String.toList_append]
    rfl
  rw [hname, ← withoutSetName_eq_iff, ← find?_mnemonic_eq_some_iff]
  unfold ofString
  split
  next opcode hopcode => rw [hopcode, Except.ok.injEq, Option.some_inj]
  next hnone => simp [hnone]

theorem ofString_eq_error (h : ∀ o, ¬ IsName s o) : ofString s = .error (.unknownOpcode s) := by
  cases hs : ofString s with
  | ok o => exact absurd (ofString_eq_ok_iff.mp hs) (h o)
  | error e =>
      unfold ofString at hs
      split at hs
      next => simp at hs
      next => exact hs.symm

/-! ## Reading JSON text -/

theorem mem_names_iff : (s, o) ∈ names ↔ IsName s o := by
  cases o <;> simp [names, IsName, mnemonic, or_comm]

theorem names_nodup : (names.map Prod.fst).Nodup := by decide

/-- What is read as a string is read as an opcode as the text of the string is. -/
theorem run_opcode {input expected : String} (h : run (Json.Reader.string expected) input = .ok s) :
    run Json.Reader.opcode input =
      (ofString s).mapError fun _ => .unknownName s (names.map Prod.fst) := by
  have hresolved : run Json.Reader.opcode input = resolveIn names s.toList := run_named h
  have hiff (o : Opcode) : resolveIn names s.toList = .ok o ↔ ofString s = .ok o := by
    rw [resolveIn_eq_ok_iff names_nodup, mem_names_iff, ofString_eq_ok_iff]
  rw [hresolved]
  cases hs : ofString s with
  | ok o => exact (hiff o).mpr hs
  | error e => exact resolveIn_eq_error fun o ho => by simpa [hs] using (hiff o).mp ho

/-! ## Writing -/

theorem line_toJson (o : Opcode) : o.toJson.line = "\"" ++ o.mnemonic ++ "\"" := by
  cases o <;> rfl

/-! ## Agreement -/

/-- The two readers of opcodes agree on every text. Both take the six mnemonics, each with or
without the name of the instruction set in front, and nothing else; what is refused is named in the
error as it is. What counts of a JSON string is the text it stands for, however it is spelled. Both
forms in which an opcode is written are read back, and they differ in the quotes only. -/
theorem ofString_agrees (s : String) :
    (∀ o, ofString s = .ok o ↔ IsName s o) ∧
    ((∀ o, ¬ IsName s o) → ofString s = .error (.unknownOpcode s)) ∧
    (∀ input expected, run (Json.Reader.string expected) input = .ok s →
      run Json.Reader.opcode input =
        (ofString s).mapError fun _ => .unknownName s (names.map Prod.fst)) ∧
    (∀ before letters behind expected, Spaces before → Spells letters s.toList → Spaces behind →
      run (Json.Reader.string expected)
        (String.ofList (before ++ '"' :: (letters ++ '"' :: behind))) = .ok s) ∧
    ∀ o : Opcode, ofString o.mnemonic = .ok o ∧ run Json.Reader.opcode o.toJson.line = .ok o ∧
      o.toJson.line = "\"" ++ o.mnemonic ++ "\"" := by
  refine ⟨fun o => ofString_eq_ok_iff, ofString_eq_error, fun input expected h => run_opcode h,
    fun before letters behind expected hbefore hletters hbehind =>
      run_string_of_spells hletters hbefore hbehind, fun o => ?_⟩
  have hread : ofString o.mnemonic = .ok o := ofString_eq_ok_iff.mpr (.inl rfl)
  have hjson := run_opcode (run_string_line o.mnemonic "")
  rw [hread] at hjson
  exact ⟨hread, hjson, line_toJson o⟩

/-- A spelling with an escape, spaces around it, and a set name too many. -/
theorem ofString_agrees_escaped :
    let letters := ['\\', 'u', '0', '0', '4', '9', 'S', 'R', '_', 'E', 'O', 'C']
    Spells letters "ISR_EOC".toList ∧ ofString "ISR_EOC" = .ok .endOfCommands ∧
      run Json.Reader.opcode (String.ofList ([' '] ++ '"' :: (letters ++ '"' :: ['\n']))) =
        .ok .endOfCommands ∧
      ofString "ISR_ISR_EOC" = .error (.unknownOpcode "ISR_ISR_EOC") := by
  intro letters
  have hunit : Json.IsUnit ['0', '0', '4', '9'] 0x49 := ⟨by decide, by decide⟩
  have hletters : Spells letters "ISR_EOC".toList :=
    .unit hunit (by decide) (by decide) (Json.spells_self (by decide))
  obtain ⟨hname, -, hinput, hspelled, -⟩ := ofString_agrees "ISR_EOC"
  obtain ⟨-, hrefused, -⟩ := ofString_agrees "ISR_ISR_EOC"
  have hread : ofString "ISR_EOC" = .ok .endOfCommands := (hname _).mpr (.inr rfl)
  have hstring := hspelled [' '] letters ['\n'] "" (by simp [Spaces, Json.Reader.isSpace]) hletters
    (by simp [Spaces, Json.Reader.isSpace])
  have hopcode := hinput _ _ hstring
  rw [hread] at hopcode
  exact ⟨hletters, hread, hopcode, hrefused fun o => by cases o <;> simp [IsName, mnemonic]⟩

end Opcode

end BankTrace
