import BankTrace.Config.Text
import BankTrace.Proofs.Json.Spread
import Mathlib.Data.List.TakeWhile

/-!
# Configurations are read back from their text

Whatever the fields hold, the text of a configuration gives the same configuration again, the path
of the output included, byte for byte. Only a path that is no text cannot be written.
-/

namespace BankTrace

/-! ## Paths -/

theorem fromUTF8?_toUTF8 (s : String) : String.fromUTF8? s.toUTF8 = some s := dif_pos s.isValidUTF8

theorem toUTF8_of_fromUTF8? {bytes : ByteArray} {s : String} (h : String.fromUTF8? bytes = some s) :
    s.toUTF8 = bytes := by
  unfold String.fromUTF8? at h
  split at h
  · obtain rfl := Option.some.inj h
    rfl
  · simp at h

theorem Path.text?_eq_some_iff {p : Path} {s : String} : p.text? = some s ↔ p = ofString s := by
  constructor
  · intro h
    unfold text? String.fromUTF8? at h
    split at h
    next =>
      obtain rfl := Option.some.inj h
      rfl
    next => simp at h
  · rintro rfl
    exact fromUTF8?_toUTF8 s

namespace Json.Reader

/-! ## Fields -/

theorem reads_word (w : UInt32) (depth : Nat) : Reads word depth (.ofNat w.toNat) w := by
  have hw : w.toNat ≤ UInt32.size - 1 := Nat.le_sub_one_of_lt w.toNat_lt
  have h := (reads_natural hw (by decide) depth "u32").map UInt32.ofNat
  rwa [UInt32.ofNat_toNat] at h

theorem reads_plainName {α : Type} {names : List (String × α)} {name : String} {a : α}
    (hname : resolveIn names name.toList = .ok a) (depth : Nat) :
    Reads (plainName names) depth (.ofString name) a :=
  reads_named_alone hname (fun rest => Takes.pure a rest) depth

theorem reads_opcode (o : Opcode) (depth : Nat) : Reads opcode depth o.toJson o :=
  reads_plainName (by cases o <;> rfl) depth

theorem reads_loopOrder (order : LoopOrder) (depth : Nat) :
    Reads loopOrder depth order.toJson order := by
  cases order <;> exact reads_plainName (by rfl) depth

/-- A string is read as a value whatever depth is left. -/
theorem reads_value_string (s : String) (left depth : Nat) :
    Reads (value left) depth (.ofString s) (.string s.toList) := by
  intro spaces hspaces rest _
  have hfound := takes_found_string hspaces s.toList rest
  rw [String.ofList_toList] at hfound
  cases left <;> exact hfound.bind (Takes.pure _ _)

theorem reads_mask (channels : ChannelMask) (opened depth : Nat) :
    Reads (mask opened) depth channels.toJson channels := by
  intro spaces hspaces rest hend
  apply (reads_value_string channels.literal _ depth spaces hspaces rest hend).bind
  unfold maskOfValue
  simp only [String.ofList_toList, ChannelMask.ofString_literal]
  rfl

theorem reads_bankOrder (banks : List UInt16) (depth : Nat) :
    Reads bankOrder depth (.list (banks.map fun bank => .ofNat bank.toNat)) banks := by
  intro spaces hspaces rest _
  have hitem (bank : UInt16) : Reads (UInt16.ofNat <$> natural (UInt16.size - 1) "u16") (depth + 1)
      (.ofNat bank.toNat) bank := by
    have hbank : bank.toNat ≤ UInt16.size - 1 := Nat.le_sub_one_of_lt bank.toNat_lt
    have h := (reads_natural hbank (by decide) (depth + 1) "u16").map UInt16.ofNat
    rwa [UInt16.ofNat_toNat] at h
  obtain ⟨behind, htext, helements⟩ := takes_elements hitem
    (fun bank => head_spread_ofNat bank.toNat (depth + 1)) banks rest
  rw [List.append_assoc, htext]
  exact (takes_peek hspaces (by decide) _ _).bind ((takes_advance _ _).bind helements)

/-- The content of a channel mode is an object with the field of the mode. -/
theorem reads_modeContent {kind : ChannelMode.Kind} {opened depth : Nat} {v : Value}
    {mode : ChannelMode} (h : Reads (modeField (opened + 1) kind) (depth + 1) v mode) :
    Reads (modeContent opened kind) depth (.single kind.key v) mode := by
  intro spaces hspaces rest _
  have hmakes : Makes (fun (seen : Option ChannelMode) key => do
      if key = kind.key.toList then
        if seen.isSome then throw (.duplicateField kind.key)
        colon
        some <$> modeField (opened + 1) kind
      else
        colon
        skip
        pure seen) (depth + 1) none [(kind.key.toList, v)] (some mode) := by
    refine .cons (fun rest hend => ?_) (.nil _)
    simp only [if_true]
    exact (takes_colon _).bind ((h.map some) [' '] (by simp [Spaces, isSpace]) rest hend)
  obtain ⟨behind, htext, hmembers⟩ := takes_members (by simp) hmakes rest
  rw [Value.single, List.append_assoc, htext]
  unfold modeContent
  refine (takes_peek hspaces (by decide) _ _).bind ((takes_advance _ _).bind ?_)
  exact hmembers.bind (Takes.pure _ _)

theorem reads_channelMode (mode : ChannelMode) (opened depth : Nat) :
    Reads (channelMode opened) depth mode.toJson mode := by
  cases mode with
  | broadcast channels =>
      refine reads_named_content (a := ChannelMode.Kind.broadcast) (by rfl) (reads_modeContent ?_)
      exact (reads_mask channels _ _).map ChannelMode.broadcast
  | perChannel count =>
      refine reads_named_content (a := ChannelMode.Kind.perChannel) (by rfl) (reads_modeContent ?_)
      have hcount : count.toNat ≤ UInt64.size - 1 := Nat.le_sub_one_of_lt count.toNat_lt
      have h := (reads_natural hcount (by decide) (depth + 1 + 1) "usize").map
        (ChannelMode.perChannel ∘ UInt64.ofNat)
      rwa [Function.comp_apply, UInt64.ofNat_toNat] at h

end Json.Reader

/-! ## Whole configurations -/

namespace Config

open Json Json.Reader

def setting (c : Config) : Field → Setting
  | .output => .output c.output
  | .rowCount => .rowCount c.rowCount
  | .burstCount => .burstCount c.burstCount
  | .bankOrder => .bankOrder c.bankOrder
  | .channelMode => .channelMode c.channelMode
  | .loopOrder => .loopOrder c.loopOrder
  | .opcode => .opcode c.opcode
  | .operandSize => .operandSize c.operandSize

theorem reads_setting (c : Config) {field : Field} {v : Value} (h : c.fieldValue field = .ok v)
    (depth : Nat) : Reads (Reader.setting field) depth v (c.setting field) := by
  cases field with
  | output =>
      unfold fieldValue at h
      dsimp only at h
      split at h
      next s hs =>
        obtain rfl := Except.ok.inj h
        have hread := (reads_string s depth "path string").map (Setting.output ∘ Path.ofString)
        rwa [Function.comp_apply, ← Path.text?_eq_some_iff.mp hs] at hread
      next => simp at h
  | rowCount =>
      obtain rfl := Except.ok.inj h
      exact (reads_word c.rowCount depth).map Setting.rowCount
  | burstCount =>
      obtain rfl := Except.ok.inj h
      exact (reads_word c.burstCount depth).map Setting.burstCount
  | bankOrder =>
      obtain rfl := Except.ok.inj h
      exact (reads_bankOrder c.bankOrder depth).map Setting.bankOrder
  | channelMode =>
      obtain rfl := Except.ok.inj h
      exact (reads_channelMode c.channelMode 1 depth).map Setting.channelMode
  | loopOrder =>
      obtain rfl := Except.ok.inj h
      exact (reads_loopOrder c.loopOrder depth).map Setting.loopOrder
  | opcode =>
      obtain rfl := Except.ok.inj h
      exact (reads_opcode c.opcode depth).map Setting.opcode
  | operandSize =>
      obtain rfl := Except.ok.inj h
      exact (reads_word c.operandSize depth).map Setting.operandSize

theorem has_set (c : Config) (d : Draft) (field other : Field) :
    (d.set (c.setting field)).has other = (decide (field = other) || d.has other) := by
  cases field <;> cases other <;> rfl

theorem makes_fields (c : Config) (valueOf : Field → Value) (depth : Nat) {fields : List Field}
    (hvalues : ∀ field ∈ fields, c.fieldValue field = .ok (valueOf field))
    (hnodup : fields.Nodup) (d : Draft) (hopen : ∀ field ∈ fields, d.has field = false) :
    Makes member depth d (fields.map fun field => (field.key.toList, valueOf field))
      (fields.foldl (fun d field => d.set (c.setting field)) d) := by
  induction fields generalizing d with
  | nil => exact .nil d
  | cons field fields ih =>
      obtain ⟨hnot, hnodup⟩ := List.nodup_cons.mp hnodup
      have hmember (rest : List Char) (hend : EndsNumber rest) :
          (member d field.key.toList).Takes
            (':' :: ([' '] ++ (valueOf field).spread depth ++ rest)) (d.set (c.setting field))
            rest := by
        have hkey : Field.ofKey? field.key.toList = some field := by cases field <;> rfl
        have hread := reads_setting c (hvalues field List.mem_cons_self) depth
        unfold member
        rw [hkey]
        simp only [hopen field List.mem_cons_self]
        exact (takes_colon _).bind ((hread.map d.set) [' '] (by simp [Spaces, isSpace]) rest hend)
      refine .cons hmember (ih ?_ hnodup _ ?_)
      · exact fun other hother => hvalues other (List.mem_cons_of_mem _ hother)
      · intro other hother
        have hne : field ≠ other := by
          rintro rfl
          exact hnot hother
        rw [has_set, hopen other (List.mem_cons_of_mem _ hother), decide_eq_false hne]
        rfl

/-- Filling in every field leaves nothing of the draft before. -/
theorem build_foldl_set (c : Config) (d : Draft) :
    (Field.all.foldl (fun d field => d.set (c.setting field)) d).build = c := rfl

theorem toJson_of_text? {c : Config} {path : String} (h : c.output.text? = some path) :
    ∃ valueOf : Field → Value, (∀ field, c.fieldValue field = .ok (valueOf field)) ∧
      c.toJson = .ok (.object (Field.all.map fun field => (field.key.toList, valueOf field))) := by
  have hvalue (field : Field) : ∃ v, c.fieldValue field = .ok v := by
    cases field with
    | output => exact ⟨.ofString path, by simp [fieldValue, h]⟩
    | _ => exact ⟨_, rfl⟩
  choose valueOf hvalueOf using hvalue
  refine ⟨valueOf, hvalueOf, ?_⟩
  simp only [toJson, Field.all, List.mapM_cons, List.mapM_nil, hvalueOf]
  rfl

theorem toText_of_text?_eq_none {c : Config} (h : c.output.text? = none) :
    c.toText = .error .pathNotText := by
  simp only [toText, toJson, Field.all, List.mapM_cons, fieldValue, h]
  rfl

theorem ofText_eq_ok {c : Config} {text : String} {behind : List Char}
    (h : config.Takes text.toList c behind) (hbehind : Spaces behind) : ofText text = .ok c :=
  run_eq_ok_iff.mpr ⟨behind, h, hbehind⟩

/-- The text that a configuration is written as gives the configuration again, also with spaces
behind it. -/
theorem ofText_append_of_toText {c : Config} {path : String} (h : c.output.text? = some path) :
    ∃ text, c.toText = .ok text ∧
      ∀ spaces : String, Spaces spaces.toList → ofText (text ++ spaces) = .ok c := by
  obtain ⟨valueOf, hvalues, hjson⟩ := toJson_of_text? h
  refine ⟨_, by rw [toText, hjson]; rfl, fun spaces hspaces => ofText_eq_ok ?_ hspaces⟩
  have hmakes : Makes member (0 + 1) {}
      (Field.all.map fun field => (field.key.toList, valueOf field))
      (Field.all.foldl (fun d field => d.set (c.setting field)) {}) :=
    makes_fields c valueOf 1 (fun field _ => hvalues field) (by decide) {}
      fun field _ => by cases field <;> rfl
  obtain ⟨behind, htext, hmembers⟩ := takes_members (by simp [Field.all]) hmakes spaces.toList
  have hdraft : draft.Takes ('{' :: behind) _ spaces.toList :=
    (takes_peek_at (by decide) _ _).bind ((takes_advance _ _).bind hmembers)
  have hconfig := hdraft.map Draft.build
  rw [build_foldl_set, ← htext] at hconfig
  rwa [Value.page, String.toList_append, String.toList_ofList]

theorem ofText_of_toText {c : Config} {path : String} (h : c.output.text? = some path) :
    ∃ text, c.toText = .ok text ∧ ofText text = .ok c := by
  obtain ⟨text, htext, hof⟩ := ofText_append_of_toText h
  exact ⟨text, htext, by simpa using hof "" spaces_nil⟩

end Config

end BankTrace
