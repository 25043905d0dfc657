import BankTrace.Proofs.Text.Numeral
import BankTrace.Proofs.Traversal.Run

/-!
# Traces are read back

A trace is cut at the ends of its lines and each line at its blanks, and the words are read one by
one, by the readers of the fields. No field has a blank or the end of a line in it, so what is read
is what was written.
-/

namespace BankTrace

/-! ## Pieces between separators -/

section

variable {α : Type} {separator : α}

/-- The pieces of a list each of which is followed by a separator. -/
def ended? [DecidableEq α] (separator : α) (text : List α) : Option (List (List α)) :=
  if (text.splitOn separator).getLast? = some [] then some (text.splitOn separator).dropLast
  else none

theorem splitOn_flatMap_ended [DecidableEq α] {pieces : List (List α)}
    (h : ∀ piece ∈ pieces, separator ∉ piece) (rest : List α) :
    ((pieces.flatMap fun piece => piece ++ [separator]) ++ rest).splitOn separator =
      pieces ++ rest.splitOn separator := by
  induction pieces with
  | nil => rfl
  | cons piece pieces ih =>
      obtain ⟨hpiece, hrest⟩ := List.forall_mem_cons.mp h
      rw [List.flatMap_cons, List.append_assoc, List.append_assoc, List.singleton_append,
        List.splitOn_append_cons_self, List.splitOn_eq_singleton hpiece, ih hrest]
      rfl

theorem ended?_flatMap [DecidableEq α] {pieces : List (List α)}
    (h : ∀ piece ∈ pieces, separator ∉ piece) :
    ended? separator (pieces.flatMap fun piece => piece ++ [separator]) = some pieces := by
  have hsplit := splitOn_flatMap_ended h []
  rw [List.append_nil] at hsplit
  simp [ended?, hsplit]

/-- Ended pieces stand in front of other ended pieces only as the first of them. -/
theorem eq_append_of_flatMap_ended [DecidableEq α] {pieces whole : List (List α)} {rest : List α}
    (hpieces : ∀ piece ∈ pieces, separator ∉ piece) (hwhole : ∀ piece ∈ whole, separator ∉ piece)
    (h : (pieces.flatMap fun piece => piece ++ [separator]) ++ rest =
      whole.flatMap fun piece => piece ++ [separator]) : ∃ more, whole = pieces ++ more := by
  have hsplit := splitOn_flatMap_ended hwhole []
  rw [List.append_nil, ← h, splitOn_flatMap_ended hpieces, List.splitOn_nil] at hsplit
  obtain ⟨more, last, hrest⟩ :=
    (List.eq_nil_or_concat' (rest.splitOn separator)).resolve_left (List.splitOn_ne_nil _ _)
  rw [hrest, ← List.append_assoc] at hsplit
  exact ⟨more, (List.append_inj' hsplit rfl).1.symm⟩

theorem mem_intercalate_singleton {a : α} {pieces : List (List α)}
    (h : a ∈ [separator].intercalate pieces) : a = separator ∨ ∃ piece ∈ pieces, a ∈ piece := by
  induction pieces with
  | nil => simp at h
  | cons piece pieces ih =>
      cases pieces with
      | nil => exact .inr ⟨piece, by simp, by simpa using h⟩
      | cons next pieces =>
          rw [List.intercalate_cons_cons, List.append_assoc, List.mem_append, List.mem_append,
            List.mem_singleton] at h
          rcases h with hpiece | hseparator | hrest
          · exact .inr ⟨piece, List.mem_cons_self, hpiece⟩
          · exact .inl hseparator
          · exact (ih hrest).imp_right fun ⟨other, hother, ha⟩ =>
              ⟨other, List.mem_cons_of_mem _ hother, ha⟩

end

/-! ## Fields -/

/-- The number a decimal numeral stands for, if it is below a bound. -/
def Numeral.below? (bound : Nat) (word : String) : Option Nat :=
  (read? 10 word.toList).filter fun n => n < bound

theorem Numeral.below?_write {bound n : Nat} (h : n < bound) :
    below? bound (write 10 n) = some n := by
  simp [below?, write, read?_toDigits, h]

theorem Numeral.not_isBlank_of_mem_write (n : Nat) :
    ∀ c ∈ (write 10 n).toList, Blank.isBlank c = false := by
  intro c hc
  rw [write, String.toList_ofList] at hc
  exact ChannelMask.not_isBlank_of_isLowerDigit
    (isLowerDigit_of_mem_toDigits (by omega) (by omega) hc)

theorem Opcode.ofString_mnemonic (o : Opcode) : ofString o.mnemonic = .ok o := by
  cases o <;> rfl

theorem Opcode.not_isBlank_of_mem_mnemonic (o : Opcode) :
    ∀ c ∈ o.mnemonic.toList, Blank.isBlank c = false := by
  have hall : (o.mnemonic.toList.all fun c => !Blank.isBlank c) = true := by cases o <;> decide
  simpa only [List.all_eq_true, Bool.not_eq_true'] using hall

namespace Instruction

/-! ## Readers -/

/-- The instruction that words stand for: six words make a request, and two the sentinel. -/
def ofWords? : List String → Option Instruction
  | [kind, opcode, operandSize, channels, bank, row] => do
      guard (kind = lineType)
      let opcode ← (Opcode.ofString opcode).toOption
      let operandSize ← Numeral.below? UInt32.size operandSize
      let channels ← (ChannelMask.ofString channels).toOption
      let bank ← Numeral.below? UInt16.size bank
      let row ← Numeral.below? UInt32.size row
      some (.data ⟨opcode, .ofNat operandSize, channels, .ofNat bank, .ofNat row⟩)
  | [kind, sentinel] => do
      guard (kind = lineType ∧ sentinel = Opcode.endOfCommands.mnemonic)
      some .eoc
  | _ => none

/-- The instruction of a line, whose words are separated by single blanks. -/
def ofLine? (line : List Char) : Option Instruction :=
  ofWords? ((line.splitOn ' ').map String.ofList)

/-- The instructions of a text in which every line is ended. -/
def ofText? (text : String) : Option (List Instruction) := do
  (← ended? '\n' text.toList).mapM ofLine?

def text (instructions : List Instruction) : String :=
  String.join (instructions.map fun instruction => instruction.line ++ "\n")

/-! ## Words -/

theorem ofWords?_words (x : Instruction) : ofWords? x.words = some x := by
  cases x with
  | data r =>
      have hsize := Numeral.below?_write r.operandSize.toNat_lt_size
      have hbank := Numeral.below?_write r.bank.toNat_lt_size
      have hrow := Numeral.below?_write r.row.toNat_lt_size
      simp [ofWords?, words, Opcode.ofString_mnemonic, ChannelMask.ofString_literal, hsize, hbank,
        hrow, Except.toOption]
  | eoc => simp [ofWords?, words]

/-- No word has a blank in it, be it the one between words or the end of a line. -/
theorem not_isBlank_of_mem_words (x : Instruction) :
    ∀ word ∈ x.words, ∀ c ∈ word.toList, Blank.isBlank c = false := by
  have hkind : ∀ c ∈ lineType.toList, Blank.isBlank c = false := by
    have hall : (lineType.toList.all fun c => !Blank.isBlank c) = true := by decide
    simpa only [List.all_eq_true, Bool.not_eq_true'] using hall
  cases x with
  | data r =>
      simp only [words, List.forall_mem_cons]
      exact ⟨hkind, r.opcode.not_isBlank_of_mem_mnemonic, Numeral.not_isBlank_of_mem_write _,
        r.channels.not_isBlank_of_mem_literal, Numeral.not_isBlank_of_mem_write _,
        Numeral.not_isBlank_of_mem_write _, by simp⟩
  | eoc =>
      simp only [words, List.forall_mem_cons]
      exact ⟨hkind, Opcode.not_isBlank_of_mem_mnemonic _, by simp⟩

theorem not_mem_of_mem_words (x : Instruction) {blank : Char}
    (hblank : Blank.isBlank blank = true) :
    ∀ word ∈ x.words.map String.toList, blank ∉ word := by
  intro _ hword hmem
  obtain ⟨word, hword', rfl⟩ := List.mem_map.mp hword
  have hnot := x.not_isBlank_of_mem_words word hword' blank hmem
  simp [hblank] at hnot

/-! ## Lines -/

theorem toList_line (x : Instruction) :
    x.line.toList = [' '].intercalate (x.words.map String.toList) := by
  simp [line]

theorem newline_not_mem_line (x : Instruction) : '\n' ∉ x.line.toList := by
  intro hmem
  rw [toList_line] at hmem
  rcases mem_intercalate_singleton hmem with hblank | ⟨word, hword, hmem⟩
  · simp at hblank
  · exact x.not_mem_of_mem_words (by decide) word hword hmem

theorem ofLine?_line (x : Instruction) : ofLine? x.line.toList = some x := by
  have hne : x.words.map String.toList ≠ [] := by cases x <;> simp [words]
  have hwords : x.words.map (String.ofList ∘ String.toList) = x.words := by simp [Function.comp_def]
  rw [ofLine?, toList_line, List.splitOn_intercalate ' ' (x.not_mem_of_mem_words (by decide)) hne,
    List.map_map, hwords, ofWords?_words]

theorem mapM_ofLine?_lines (xs : List Instruction) :
    (xs.map fun x => x.line.toList).mapM ofLine? = some xs := by
  induction xs with
  | nil => rfl
  | cons x xs ih =>
      rw [List.map_cons, List.mapM_cons, ofLine?_line, ih]
      rfl

/-! ## Texts -/

theorem toList_text (xs : List Instruction) :
    (text xs).toList = (xs.map fun x => x.line.toList).flatMap fun line => line ++ ['\n'] := by
  simp [text, List.flatMap_map]

theorem encodeAll_eq_toUTF8_text (xs : List Instruction) : encodeAll xs = (text xs).toUTF8 := by
  induction xs with
  | nil => rfl
  | cons x xs ih =>
      rw [encodeAll_cons, ih]
      simp [text, encode, String.join_cons]

theorem ofText?_text (xs : List Instruction) : ofText? (text xs) = some xs := by
  have hlines : ∀ line ∈ xs.map fun x => x.line.toList, '\n' ∉ line := by
    simp [newline_not_mem_line]
  rw [ofText?, toList_text, ended?_flatMap hlines]
  exact mapM_ofLine?_lines xs

/-- The text of instructions is read back as these instructions, so no others have its bytes. -/
theorem text_decodes (xs : List Instruction) :
    ofText? (text xs) = some xs ∧ ∀ ys, encodeAll xs = encodeAll ys ↔ xs = ys := by
  refine ⟨ofText?_text xs, fun ys => ⟨fun h => ?_, fun h => h ▸ rfl⟩⟩
  have htext : text xs = text ys := by
    rw [encodeAll_eq_toUTF8_text, encodeAll_eq_toUTF8_text] at h
    exact String.toByteArray_inj.mp h
  have hread := ofText?_text xs
  rw [htext, ofText?_text ys] at hread
  exact (Option.some.inj hread).symm

/-- A request with the opcode of the sentinel is told from the sentinel. -/
example : ofText? "AiM EOC 0 0x1 3 7\nAiM EOC\n" =
    some [.data ⟨.endOfCommands, 0, ⟨1⟩, 3, 7⟩, .eoc] := by decide

end Instruction

end BankTrace
