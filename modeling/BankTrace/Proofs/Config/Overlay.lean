import BankTrace.Proofs.Config.Members

/-!
# Settings laid over the defaults

Reading an object, drafting and assigning fields of the default configuration are three ways to the
same configuration: the default one with the given fields replaced.
-/

namespace BankTrace

/-! ## Assigning -/

namespace Config

theorem setting_assign (c : Config) (s : Setting) (field : Field) :
    (c.assign s).setting field = if s.field = field then s else c.setting field := by
  cases s <;> cases field <;> rfl

theorem eq_of_setting {c c' : Config} (h : ∀ field, c.setting field = c'.setting field) :
    c = c' := by
  have houtput := h .output
  have hrow := h .rowCount
  have hburst := h .burstCount
  have hbank := h .bankOrder
  have hmode := h .channelMode
  have hloop := h .loopOrder
  have hopcode := h .opcode
  have hsize := h .operandSize
  cases c
  cases c'
  simp_all [setting]

theorem setting_foldl_of_forall_ne {settings : List Setting} {field : Field}
    (h : ∀ s ∈ settings, s.field ≠ field) (c : Config) :
    (settings.foldl assign c).setting field = c.setting field := by
  induction settings generalizing c with
  | nil => rfl
  | cons s settings ih =>
      rw [List.foldl_cons, ih fun t ht => h t (List.mem_cons_of_mem _ ht), setting_assign,
        if_neg (h s List.mem_cons_self)]

/-- Of several settings for a field the last one counts. -/
theorem setting_foldl_of_last {s : Setting} {behind : List Setting}
    (h : ∀ t ∈ behind, t.field ≠ s.field) (before : List Setting) (c : Config) :
    ((before ++ s :: behind).foldl assign c).setting s.field = s := by
  rw [List.foldl_append, List.foldl_cons, setting_foldl_of_forall_ne h, setting_assign, if_pos rfl]

theorem setting_foldl_of_mem {settings : List Setting}
    (hdistinct : (settings.map Setting.field).Nodup) {s : Setting} (hs : s ∈ settings)
    (c : Config) : (settings.foldl assign c).setting s.field = s := by
  obtain ⟨before, behind, rfl⟩ := List.append_of_mem hs
  refine setting_foldl_of_last (fun t ht heq => ?_) before c
  rw [List.map_append, List.map_cons] at hdistinct
  have hnot := (List.nodup_cons.mp hdistinct.of_append_right).1
  exact hnot (heq ▸ List.mem_map_of_mem ht)

/-- Settings of different fields may be made in any order. -/
theorem foldl_assign_perm {settings order : List Setting}
    (hdistinct : (settings.map Setting.field).Nodup) (h : order.Perm settings) (c : Config) :
    order.foldl assign c = settings.foldl assign c := by
  have horder : (order.map Setting.field).Nodup := (h.map Setting.field).nodup_iff.mpr hdistinct
  refine eq_of_setting fun field => ?_
  by_cases hgiven : ∃ s ∈ settings, s.field = field
  · obtain ⟨s, hs, rfl⟩ := hgiven
    rw [setting_foldl_of_mem horder (h.mem_iff.mpr hs), setting_foldl_of_mem hdistinct hs]
  · push Not at hgiven
    rw [setting_foldl_of_forall_ne fun s hs => hgiven s (h.mem_iff.mp hs),
      setting_foldl_of_forall_ne hgiven]

end Config

/-! ## Drafting -/

theorem Draft.build_set (d : Draft) (s : Setting) : (d.set s).build = d.build.assign s := by
  cases s <;> rfl

/-- Drafting is assigning, whatever the settings and however often they repeat. -/
theorem Draft.build_ofSettings (settings : List Setting) :
    (ofSettings settings).build = settings.foldl Config.assign default := by
  have hfoldl (d : Draft) :
      (settings.foldl set d).build = settings.foldl Config.assign d.build := by
    induction settings generalizing d with
    | nil => rfl
    | cons s settings ih => rw [List.foldl_cons, List.foldl_cons, ih, build_set]
  exact hfoldl {}

/-! ## The three ways -/

namespace Config

/-- Settings of different fields give one configuration, whatever their order and whichever way is
taken: the default one with these fields replaced. A draft keeps the last of the settings that are
made for a field; an object with two members for a field is refused. -/
theorem overlays_agree :
    (∀ settings : List Setting, (settings.map Setting.field).Nodup →
      ∃ c : Config, (∀ s ∈ settings, c.setting s.field = s) ∧
        (∀ field, (∀ s ∈ settings, s.field ≠ field) →
          c.setting field = (default : Config).setting field) ∧
        ∀ order : List Setting, order.Perm settings →
          order.foldl assign default = c ∧ (Draft.ofSettings order).build = c ∧
            ∀ t : ObjectText, ObjectText.HoldsSettings t.members order → ofText t.text = .ok c) ∧
    (∀ (before : List Setting) (s : Setting) (behind : List Setting),
      (∀ t ∈ behind, t.field ≠ s.field) →
        (Draft.ofSettings (before ++ s :: behind)).build.setting s.field = s) ∧
    ∀ (t : ObjectText) (field : Field), t.Repeats field → ∃ e, ofText t.text = .error e := by
  refine ⟨fun settings hdistinct => ?_, fun before s behind hlast => ?_,
    fun t field hrepeats => t.ofText_of_repeats hrepeats⟩
  · refine ⟨settings.foldl assign default, fun s hs => setting_foldl_of_mem hdistinct hs default,
      fun field hfield => setting_foldl_of_forall_ne hfield default, fun order horder => ?_⟩
    have hassign := foldl_assign_perm hdistinct horder default
    have hdraft := (Draft.build_ofSettings order).trans hassign
    refine ⟨hassign, hdraft, fun t ht => ?_⟩
    have hnodup : (order.map Setting.field).Nodup :=
      (horder.map Setting.field).nodup_iff.mpr hdistinct
    rw [t.ofText_of_holdsSettings ht hnodup, hdraft]
  · rw [Draft.build_ofSettings]
    exact setting_foldl_of_last hlast before default

section Witness

open Json Json.Reader

def escapedKey : List Char :=
  ['r', 'o', 'w', '\\', 'u', '0', '0', '5', 'f', 'c', 'o', 'u', 'n', 't']

theorem spells_escapedKey : Spells escapedKey Field.rowCount.key.toList :=
  .plain (by decide) (.plain (by decide) (.plain (by decide)
    (@Spells.unit ['0', '0', '5', 'f'] 0x5F _ _ ⟨rfl, by decide⟩ (by decide) (by decide)
      (spells_self (by decide)))))

theorem isNumber_three : IsNumber ['3'] :=
  @IsNumber.mk [] ['3'] [] [] (.inl rfl) ⟨⟨by decide, by decide⟩, by decide⟩ .none .none

/-- The list of a number that no word and no double holds. -/
def hugeList : List Char := listText ⟨[], spaces_nil⟩ [.tight ['1', 'e', '9', '9', '9']]

theorem isValue_hugeList : IsValue hugeList := by
  refine .list _ fun e he => ?_
  obtain rfl := List.mem_singleton.mp he
  have hexponent : IsExponent ['e', '9', '9', '9'] :=
    @IsExponent.some 'e' [] ['9', '9', '9'] (.inl rfl) (.inl rfl) ⟨by decide, by decide⟩
  exact .leaf (.number (@IsNumber.mk [] ['1'] [] _ (.inl rfl)
    ⟨⟨by decide, by decide⟩, by decide⟩ .none hexponent))

/-- Two fields, one of them under a key with an escape, and a member of another name. -/
def twoFields : ObjectText where
  front := ⟨['\n'], by simp [Spaces, isSpace]⟩
  opened := ⟨[' '], by simp [Spaces, isSpace]⟩
  members := [
    ⟨.tight ['o', 'p', 'c', 'o', 'd', 'e'], .tight ['"', 'R', 'D', '_', 'S', 'B', 'K', '"']⟩,
    ⟨.tight ['n', 'o', 't', 'e'], .tight hugeList⟩, ⟨.tight escapedKey, .tight ['3']⟩]
  behind := ⟨[], spaces_nil⟩
  isLetters := by
    simp only [List.forall_mem_cons]
    exact ⟨(spells_self (by decide)).isLetters, (spells_self (by decide)).isLetters,
      spells_escapedKey.isLetters, by simp⟩
  isValue := by
    simp only [List.forall_mem_cons]
    exact ⟨.leaf (.string (@spells_self ['R', 'D', '_', 'S', 'B', 'K'] (by decide)).isLetters),
      isValue_hugeList, .leaf (.number isNumber_three), by simp⟩

theorem twoFields_holds :
    ObjectText.HoldsSettings twoFields.members [.opcode .readBank, .rowCount 3] := by
  have hopcode : Spells ['o', 'p', 'c', 'o', 'd', 'e'] Field.opcode.key.toList :=
    spells_self (by decide)
  have hnote : Spells ['n', 'o', 't', 'e'] ['n', 'o', 't', 'e'] := spells_self (by decide)
  exact .field hopcode (by decide +kernel) (.other hnote (by rintro (_ | _) <;> decide)
    (.field spells_escapedKey (by decide +kernel) .nil))

/-- One field twice, in two spellings, the second time with a value that it cannot have. -/
def fieldTwice : ObjectText where
  front := ⟨[], spaces_nil⟩
  opened := ⟨[], spaces_nil⟩
  members := [⟨.tight ['r', 'o', 'w', '_', 'c', 'o', 'u', 'n', 't'], .tight ['3']⟩,
    ⟨.tight escapedKey, .tight hugeList⟩]
  behind := ⟨[], spaces_nil⟩
  isLetters := by
    simp only [List.forall_mem_cons]
    exact ⟨(spells_self (by decide)).isLetters, spells_escapedKey.isLetters, by simp⟩
  isValue := by
    simp only [List.forall_mem_cons]
    exact ⟨.leaf (.number isNumber_three), isValue_hugeList, by simp⟩

theorem fieldTwice_repeats : fieldTwice.Repeats .rowCount :=
  ⟨[], _, [], _, [], rfl, spells_self (by decide), spells_escapedKey⟩

theorem overlays_agree_two_fields :
    ofText "\n\x7b \"opcode\":\"RD_SBK\",\"note\":[1e999],\"row\\u005fcount\":3\x7d" =
        .ok { (default : Config) with rowCount := 3, opcode := .readBank } ∧
      (Draft.ofSettings [.rowCount 3, .opcode .readBank]).build =
        { (default : Config) with rowCount := 3, opcode := .readBank } ∧
      (Draft.ofSettings [.rowCount 5, .rowCount 3, .opcode .readBank]).build.setting .rowCount =
        .rowCount 3 ∧
      ∃ e, ofText "\x7b\"row_count\":3,\"row\\u005fcount\":[1e999]\x7d" = .error e := by
  obtain ⟨c, -, -, hways⟩ :=
    overlays_agree.1 [.rowCount 3, .opcode .readBank] (by decide)
  obtain ⟨hassign, hdraft, -⟩ := hways _ (.refl _)
  obtain ⟨-, -, htext⟩ := hways [.opcode .readBank, .rowCount 3] (.swap _ _ _)
  have hlast := overlays_agree.2.1 [.rowCount 5] (.rowCount 3) [.opcode .readBank] (by decide)
  obtain rfl : _ = c := hassign
  exact ⟨htext twoFields twoFields_holds, hdraft, hlast,
    overlays_agree.2.2 fieldTwice .rowCount fieldTwice_repeats⟩

end Witness

end Config

end BankTrace
