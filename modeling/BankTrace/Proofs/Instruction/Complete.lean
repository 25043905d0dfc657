import BankTrace.Proofs.Instruction.Reading

/-!
# Complete texts

A text is complete when its last line, and no other, is the sentinel. Lines stand in front of other
bytes in one way only, so a text that goes on behind its sentinel has a sentinel too many, and one
that stops before it has none.
-/

namespace BankTrace.Instruction

/-! ## Lines in front of other bytes -/

/-- Bytes behind a string that make up a string with it are a string themselves. -/
theorem exists_eq_append_of_toUTF8 {s t : String} {bytes : ByteArray}
    (h : s.toUTF8 ++ bytes = t.toUTF8) : ∃ u : String, t = s ++ u := by
  have hfront : t.toUTF8.extract 0 s.utf8ByteSize = s.toUTF8 := by
    rw [← h]
    exact ByteArray.extract_append_eq_left rfl
  have hsize : s.utf8ByteSize ≤ t.utf8ByteSize := by
    have hsize := congrArg ByteArray.size h
    rw [ByteArray.size_append] at hsize
    exact (Nat.le_add_right _ _).trans_eq hsize
  have hvalid : s.rawEndPos.IsValid t := by
    refine String.Pos.Raw.isValid_iff_isValidUTF8_extract_zero.mpr ⟨hsize, ?_⟩
    exact hfront.symm ▸ s.isValidUTF8
  refine ⟨⟨_, hvalid.isValidUTF8_extract_utf8ByteSize⟩, String.toByteArray_inj.mp ?_⟩
  change t.toUTF8 = s.toUTF8 ++ t.toUTF8.extract s.utf8ByteSize t.utf8ByteSize
  rw [← hfront]
  exact ByteArray.extract_zero_size.symm.trans
    (ByteArray.extract_eq_extract_append_extract _ (Nat.zero_le _) hsize)

theorem toList_line_injective : Function.Injective fun x : Instruction => x.line.toList := by
  intro x y h
  have hread : ofLine? x.line.toList = ofLine? y.line.toList := congrArg ofLine? h
  rwa [ofLine?_line, ofLine?_line, Option.some_inj] at hread

theorem eq_append_of_encodeAll {xs ys : List Instruction} {bytes : ByteArray}
    (h : encodeAll xs ++ bytes = encodeAll ys) : ∃ zs, ys = xs ++ zs ∧ bytes = encodeAll zs := by
  have hlines (xs : List Instruction) : ∀ line ∈ xs.map fun x => x.line.toList, '\n' ∉ line := by
    simp [newline_not_mem_line]
  obtain ⟨u, hu⟩ : ∃ u : String, text ys = text xs ++ u := by
    rw [encodeAll_eq_toUTF8_text, encodeAll_eq_toUTF8_text] at h
    exact exists_eq_append_of_toUTF8 h
  have hu' := congrArg String.toList hu
  rw [String.toList_append, toList_text, toList_text] at hu'
  obtain ⟨more, hmore⟩ := eq_append_of_flatMap_ended (hlines xs) (hlines ys) hu'.symm
  obtain ⟨front, zs, rfl, hfront, -⟩ := List.map_eq_append_iff.mp hmore
  obtain rfl : front = xs := (List.map_injective_iff.mpr toList_line_injective) hfront
  refine ⟨zs, rfl, ?_⟩
  rwa [encodeAll_append, ByteArray.append_right_inj] at h

theorem encodeAll_injective : Function.Injective encodeAll := by
  intro xs ys h
  obtain ⟨zs, hzs, -⟩ := eq_append_of_encodeAll (ByteArray.append_empty.trans h)
  obtain ⟨zs', hzs', -⟩ := eq_append_of_encodeAll (ByteArray.append_empty.trans h.symm)
  have hlength := congrArg List.length hzs
  have hlength' := congrArg List.length hzs'
  rw [List.length_append] at hlength hlength'
  obtain rfl : zs = [] := List.length_eq_zero_iff.mp (by omega)
  rw [hzs, List.append_nil]

/-! ## Texts up to their sentinel -/

/-- A text whose last line is the sentinel. All lines before it are requests, of whatever kind. -/
def Complete (bytes : ByteArray) : Prop :=
  ∃ requests : List Request, bytes = encodeAll (requests.map .data ++ [.eoc])

/-- Nothing comes behind a complete text in a complete text. -/
theorem Complete.eq_empty_of_append {front behind : ByteArray} (h : Complete front)
    (hwhole : Complete (front ++ behind)) : behind = .empty := by
  obtain ⟨requests, rfl⟩ := h
  obtain ⟨all, hall⟩ := hwhole
  obtain ⟨zs, hzs, rfl⟩ := eq_append_of_encodeAll hall
  rw [List.append_assoc, List.singleton_append] at hzs
  obtain ⟨-, -, rfl⟩ := (List.append_cons_inj_of_notMem (by simp) (by simp)).mp hzs
  rfl

/-- A complete text that is cut short is not complete. -/
theorem Complete.not_extract {bytes : ByteArray} (h : Complete bytes) {count : Nat}
    (hcount : count < bytes.size) : ¬ Complete (bytes.extract 0 count) := by
  intro hfront
  have hsplit : bytes.extract 0 count ++ bytes.extract count bytes.size = bytes := by
    rw [← ByteArray.extract_eq_extract_append_extract count (Nat.zero_le _) hcount.le,
      ByteArray.extract_zero_size]
  have hempty := hfront.eq_empty_of_append (hsplit.symm ▸ h)
  have hsize := congrArg ByteArray.size hempty
  rw [ByteArray.size_extract, Nat.min_self, ByteArray.size_empty] at hsize
  omega

end BankTrace.Instruction
