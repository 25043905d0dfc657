import BankTrace.Proofs.Config.RoundTrip
import BankTrace.Proofs.Json.Containers

/-!
# Configurations as objects of any writing

The members of an object may stand in any order, with spaces anywhere, under keys in any spelling,
and with others of unknown names between them. Each value counts for what it is read as by itself.
-/

namespace BankTrace

/-! ## Fields -/

def Setting.field : Setting → Field
  | output _ => .output
  | rowCount _ => .rowCount
  | burstCount _ => .burstCount
  | bankOrder _ => .bankOrder
  | channelMode _ => .channelMode
  | loopOrder _ => .loopOrder
  | opcode _ => .opcode
  | operandSize _ => .operandSize

theorem Field.ofKey?_key (field : Field) : ofKey? field.key.toList = some field := by
  cases field <;> rfl

theorem Field.ofKey?_eq_none {name : List Char} (h : ∀ field : Field, name ≠ field.key.toList) :
    ofKey? name = none :=
  List.find?_eq_none.mpr fun field _ hfield => h field (beq_iff_eq.mp hfield).symm

theorem Field.eq_key_of_ofKey? {name : List Char} {field : Field} (h : ofKey? name = some field) :
    name = field.key.toList := by
  have hkey := List.find?_some (p := fun field : Field => field.key.toList == name) h
  exact (beq_iff_eq.mp hkey).symm

theorem Draft.has_set (d : Draft) (s : Setting) (field : Field) :
    (d.set s).has field = (decide (s.field = field) || d.has field) := by
  cases s <;> cases field <;> rfl

namespace Json.Reader

theorem decides_word : Decides word := (decides_natural _ _).map _

theorem decides_plainName {α : Type} (names : List (String × α)) : Decides (plainName names) :=
  decides_named (fun a => ⟨some a, Takes.pure a⟩) fun a =>
    decides_nothing.bind fun _ => ⟨some a, Takes.pure a⟩

theorem decides_mask (opened : Nat) : Decides (mask opened) :=
  (decides_value _).bind fun v => ⟨_, yields_resolved (maskOfValue v)⟩

theorem decides_modeField (opened : Nat) (kind : ChannelMode.Kind) :
    Decides (modeField opened kind) := by
  cases kind with
  | broadcast => exact (decides_mask opened).map _
  | perChannel => exact (decides_natural _ _).map _

/-- The member of a channel mode that is its field is read once, every other is skipped. -/
theorem judgesMember_modeContent (opened : Nat) (kind : ChannelMode.Kind)
    (seen : Option ChannelMode) {m : Member} (hkey : IsLetters m.key.inner)
    (hvalue : IsValue m.value.inner) :
    ∃ outcome, JudgesMember (fun key => do
      if key = kind.key.toList then
        if seen.isSome then throw (.duplicateField kind.key)
        colon
        some <$> modeField opened kind
      else
        colon
        skip
        pure seen) m outcome := by
  obtain ⟨name, hname⟩ := readsAs_of_isLetters hkey
  obtain ⟨field, hfield⟩ := decides_modeField opened kind _ hvalue
  refine ⟨name.bind fun key => if key = kind.key.toList then
    if seen.isSome then none else field.map some else some seen, ?_⟩
  refine hname.judgesMember fun key _ rest hrest => ?_
  have hcolon := takes_colon_behind m.key.behind.property (m.value.before.val ++
    (m.value.inner ++ rest))
  split_ifs with hmine hseen
  · exact Fails.bind (fails_throw _ _) _
  · exact hcolon.yields_bind ((hfield _ m.value.before.property rest hrest).map some)
  · exact hcolon.bind (Takes.bind (judges_skip hvalue _ m.value.before.property rest hrest)
      (Takes.pure seen rest))

/-- A list that should be at its end is closed there. -/
theorem yields_endList {gap : List Char} (hgap : Spaces gap) (elements : List Spaced)
    (rest : List Char) :
    endList.Yields (gap ++ ((elements.map Spaced.text).flatMap (',' :: ·) ++ ']' :: rest))
      (if elements = [] then some () else none) rest := by
  cases elements with
  | nil => exact (takes_peek hgap (by decide) _ _).bind (takes_advance _ _)
  | cons e elements =>
      refine (takes_peek hgap (by decide) _ _).bind_fails ((takes_advance _ _).bind_fails ?_)
      refine fails_bind (fun _ _ => fails_bind (fun text _ => ?_) _) _
      split_ifs <;> exact fails_throw _ _

theorem modeContent_of_list (opened : Nat) (kind : ChannelMode.Kind) (gap : Gap)
    {elements : List Spaced} (h : ∀ e ∈ elements, IsValue e.inner) :
    ∃ outcome, Judges (modeContent opened kind) (listText gap elements) outcome := by
  cases elements with
  | nil =>
      refine ⟨none, fun spaces hspaces rest _ => ?_⟩
      rw [listText_append]
      refine (takes_peek hspaces (by decide) _ _).bind_fails ((takes_advance _ _).bind_fails ?_)
      exact (takes_hasElement_closing gap.property true rest).bind_fails
        (Fails.bind (fails_throw _ _) _)
  | cons e elements =>
      obtain ⟨field, hfield⟩ := decides_modeField (opened + 1) kind _ (h e List.mem_cons_self)
      refine ⟨field.bind fun mode => (if elements = [] then some () else none).bind fun _ =>
        some mode, fun spaces hspaces rest _ => ?_⟩
      have hseen := takes_hasElement_true (h e List.mem_cons_self)
        (gap.property.append e.before.property)
        (e.behind.val ++ ((elements.map Spaced.text).flatMap (',' :: ·) ++ ']' :: rest))
      rw [listText_append]
      simp only [List.map_cons, separated, Spaced.text, List.append_assoc] at hseen ⊢
      refine (takes_peek hspaces (by decide) _ _).yields_bind ((takes_advance _ _).yields_bind ?_)
      refine hseen.yields_bind ?_
      refine (hfield [] spaces_nil _
        (delimited_elements elements e.behind.property rest)).bind fun mode _ => ?_
      exact (yields_endList e.behind.property elements rest).bind fun _ _ => Takes.pure mode rest

theorem decides_modeContent (opened : Nat) (kind : ChannelMode.Kind) :
    Decides (modeContent opened kind) := by
  intro v hv
  cases hv with
  | leaf h =>
      obtain ⟨c, more, rfl, hspace, hnot⟩ := h.head
      refine ⟨none, fun spaces hspaces rest _ => (takes_peek hspaces hspace _ _).bind_fails ?_⟩
      split
      next => exact absurd (by decide) hnot
      next => exact absurd (by decide) hnot
      next => exact fails_refuse _ _
  | list gap h => exact modeContent_of_list opened kind gap h
  | @object gap members hkeys h =>
      obtain ⟨outcome, houtcome⟩ := decides_members none gap fun seen m hm =>
        judgesMember_modeContent (opened + 1) kind seen (hkeys m hm) (h m hm)
      refine ⟨outcome.bind id, fun spaces hspaces rest _ => ?_⟩
      rw [objectText_append]
      refine (takes_peek hspaces (by decide) _ _).yields_bind ((takes_advance _ _).yields_bind ?_)
      refine (houtcome rest).bind fun mode _ => ?_
      cases mode with
      | none => exact fails_throw _ _
      | some mode => exact Takes.pure mode rest

theorem decides_channelMode (opened : Nat) : Decides (channelMode opened) :=
  decides_named (fun _ => ⟨none, fails_throw _⟩) fun kind => decides_modeContent (opened + 1) kind

theorem decides_bankOrder : Decides bankOrder := by
  intro v hv
  cases hv with
  | leaf h =>
      obtain ⟨c, more, rfl, hspace, hnot⟩ := h.head
      refine ⟨none, fun spaces hspaces rest _ => (takes_peek hspaces hspace _ _).bind_fails ?_⟩
      split
      next => exact absurd (by decide) hnot
      next => exact fails_refuse _ _
  | list gap h =>
      obtain ⟨outcome, houtcome⟩ :=
        decides_elements ((decides_natural (UInt16.size - 1) "u16").map UInt16.ofNat) gap h
      refine ⟨outcome, fun spaces hspaces rest _ => ?_⟩
      rw [listText_append]
      exact (takes_peek hspaces (by decide) _ _).yields_bind
        ((takes_advance _ _).yields_bind (houtcome rest))
  | object =>
      exact ⟨none, fun spaces hspaces rest _ =>
        (takes_peek hspaces (by decide) _ _).bind_fails (fails_refuse _ _)⟩

theorem decides_setting (field : Field) : Decides (setting field) := by
  cases field with
  | output => exact (decides_string _).map _
  | rowCount => exact decides_word.map _
  | burstCount => exact decides_word.map _
  | bankOrder => exact decides_bankOrder.map _
  | channelMode => exact (decides_channelMode 1).map _
  | loopOrder => exact (decides_plainName _).map _
  | opcode => exact (decides_plainName _).map _
  | operandSize => exact decides_word.map _

theorem field_of_takes_setting {field : Field} {text rest : List Char} {s : Setting}
    (h : (setting field).Takes text s rest) : s.field = field := by
  cases field <;> obtain ⟨a, rfl⟩ := h.of_map <;> rfl

/-! ## Members -/

section Member

variable {m : Member} {d : Draft} {field : Field}

/-- A member for an open field sets it to what its value is read as. -/
theorem judgesMember_open (hkey : ReadsAs m.key.inner (some field.key.toList))
    {s : Option Setting} (hvalue : Judges (setting field) m.value.inner s)
    (hopen : d.has field = false) : JudgesMember (member d) m (s.map d.set) := by
  refine hkey.judgesMember_some fun rest hrest => ?_
  unfold member
  rw [Field.ofKey?_key]
  simp only [hopen]
  exact (takes_colon_behind m.key.behind.property _).yields_bind
    ((hvalue _ m.value.before.property rest hrest).map d.set)

theorem judgesMember_repeated (hkey : ReadsAs m.key.inner (some field.key.toList))
    (hset : d.has field = true) : JudgesMember (member d) m none := by
  refine hkey.judgesMember_some fun rest _ => ?_
  unfold member
  rw [Field.ofKey?_key]
  simp only [hset]
  exact Fails.bind (fails_throw _ _) _

theorem judgesMember_other {name : List Char} (hkey : ReadsAs m.key.inner (some name))
    (hname : Field.ofKey? name = none) (hvalue : IsValue m.value.inner) :
    JudgesMember (member d) m (some d) := by
  refine hkey.judgesMember_some fun rest hrest => ?_
  unfold member
  rw [hname]
  exact (takes_colon_behind m.key.behind.property _).bind
    (Takes.bind (judges_skip hvalue _ m.value.before.property rest hrest) (Takes.pure d rest))

/-- Any member is taken or refused, and none takes a field back. -/
theorem judgesMember_of_isValue (d : Draft) (hkey : IsLetters m.key.inner)
    (hvalue : IsValue m.value.inner) :
    ∃ outcome, JudgesMember (member d) m outcome ∧
      ∀ next, outcome = some next → ∀ field, d.has field = true → next.has field = true := by
  obtain ⟨name, hname⟩ := readsAs_of_isLetters hkey
  cases name with
  | none => exact ⟨none, hname.judgesMember_none _, by simp⟩
  | some key =>
      cases hfield : Field.ofKey? key with
      | none => exact ⟨some d, judgesMember_other hname hfield hvalue, by simp⟩
      | some field =>
          obtain rfl := Field.eq_key_of_ofKey? hfield
          cases hset : d.has field with
          | true => exact ⟨none, judgesMember_repeated hname hset, by simp⟩
          | false =>
              obtain ⟨s, hs⟩ := decides_setting field _ hvalue
              refine ⟨s.map d.set, judgesMember_open hname hs hset, ?_⟩
              intro next hnext other hother
              obtain ⟨s, -, rfl⟩ := Option.map_eq_some_iff.mp hnext
              rw [Draft.has_set, hother, Bool.or_true]

/-- Where a member for a field is taken, the field was open and is set. -/
theorem has_of_judgesMember (hkey : Spells m.key.inner field.key.toList)
    (hvalue : IsValue m.value.inner) {next : Draft}
    (h : JudgesMember (member d) m (some next)) : d.has field = false ∧ next.has field = true := by
  have hname := readsAs_of_spells hkey
  cases hset : d.has field with
  | true => simpa using h.unique (judgesMember_repeated hname hset)
  | false =>
      obtain ⟨s, hs⟩ := decides_setting field _ hvalue
      have hnext := h.unique (judgesMember_open hname hs hset)
      obtain ⟨s, rfl, rfl⟩ := Option.map_eq_some_iff.mp hnext.symm
      have hfield : s.field = field := field_of_takes_setting (hs [] spaces_nil [] delimited_nil)
      refine ⟨rfl, ?_⟩
      simp [Draft.has_set, hfield]

end Member

end Json.Reader

/-! ## Objects -/

open Json Json.Reader

/-- The text of an object with the gaps around it and inside it. -/
structure ObjectText where
  front : Gap
  opened : Gap
  members : List Member
  behind : Gap
  isLetters : ∀ m ∈ members, IsLetters m.key.inner
  isValue : ∀ m ∈ members, IsValue m.value.inner

namespace ObjectText

def text (t : ObjectText) : String :=
  String.ofList (t.front.val ++ (objectText t.opened t.members ++ t.behind.val))

/-- The members of an object hold settings, each as the value of a member that has the key of its
field in some spelling, in a text that is read as the setting when it stands alone. Other members
may have any names that are no keys of fields. -/
inductive HoldsSettings : List Member → List Setting → Prop where
  | nil : HoldsSettings [] []
  | field {m field s members settings} (hkey : Spells m.key.inner (Field.key field).toList)
      (hvalue : run (Reader.setting field) (String.ofList m.value.inner) = .ok s)
      (h : HoldsSettings members settings) : HoldsSettings (m :: members) (s :: settings)
  | other {m name members settings} (hkey : Spells m.key.inner name)
      (hname : ∀ field : Field, name ≠ field.key.toList) (h : HoldsSettings members settings) :
      HoldsSettings (m :: members) settings

/-- Whether two members have the key of one field, in whatever spelling. -/
def Repeats (t : ObjectText) (field : Field) : Prop :=
  ∃ before first between second behind,
    t.members = before ++ first :: (between ++ second :: behind) ∧
    Spells first.key.inner field.key.toList ∧ Spells second.key.inner field.key.toList

variable {t : ObjectText} {judge : Draft → Member → Option Draft}

/-- What becomes of the whole text when it is known what becomes of each member. -/
theorem yields_config (t : ObjectText)
    (hjudge : ∀ d, ∀ m ∈ t.members, JudgesMember (member d) m (judge d m)) :
    config.Yields (t.front.val ++ (objectText t.opened t.members ++ t.behind.val))
      ((t.members.foldlM judge {}).map Draft.build) t.behind.val := by
  refine Yields.map ?_ Draft.build
  rw [objectText_append]
  refine (takes_peek t.front.property (by decide) _ _).yields_bind ?_
  exact (takes_advance _ _).yields_bind (yields_members hjudge t.opened {} _)

theorem ofText_of_some (hjudge : ∀ d, ∀ m ∈ t.members, JudgesMember (member d) m (judge d m))
    {d : Draft} (h : t.members.foldlM judge {} = some d) : Config.ofText t.text = .ok d.build := by
  have hyields := yields_config t hjudge
  rw [h] at hyields
  refine Config.ofText_eq_ok ?_ t.behind.property
  rw [text, String.toList_ofList]
  exact hyields

theorem ofText_of_none (hjudge : ∀ d, ∀ m ∈ t.members, JudgesMember (member d) m (judge d m))
    (h : t.members.foldlM judge {} = none) : ∃ e, Config.ofText t.text = .error e := by
  have hyields := yields_config t hjudge
  rw [h] at hyields
  obtain ⟨e, he⟩ : config.Fails _ := hyields
  refine ⟨e, ?_⟩
  unfold Config.ofText run
  rw [text, String.toList_ofList, he]
  rfl

theorem judgements (t : ObjectText) : ∃ judge : Draft → Member → Option Draft,
    ∀ d, ∀ m ∈ t.members, JudgesMember (member d) m (judge d m) ∧
      ∀ next, judge d m = some next → ∀ field, d.has field = true → next.has field = true := by
  have hmember (d : Draft) : ∀ m ∈ t.members, ∃ outcome, JudgesMember (member d) m outcome ∧
      ∀ next, outcome = some next → ∀ field, d.has field = true → next.has field = true :=
    fun m hm => judgesMember_of_isValue d (t.isLetters m hm) (t.isValue m hm)
  choose! judge hjudge using hmember
  exact ⟨judge, hjudge⟩

theorem foldlM_of_holds {members : List Member} {settings : List Setting}
    (h : HoldsSettings members settings) (hisValue : ∀ m ∈ members, IsValue m.value.inner)
    (hjudge : ∀ d, ∀ m ∈ members, JudgesMember (member d) m (judge d m))
    (hdistinct : (settings.map Setting.field).Nodup) (d : Draft)
    (hopen : ∀ s ∈ settings, d.has s.field = false) :
    members.foldlM judge d = some (settings.foldl Draft.set d) := by
  induction h generalizing d with
  | nil => rfl
  | @field m field s members settings hkey hvalue h ih =>
      obtain ⟨outcome, houtcome⟩ := decides_setting field _ (hisValue m List.mem_cons_self)
      have hs := houtcome.of_run hvalue
      obtain rfl : s.field = field := field_of_takes_setting (hs [] spaces_nil [] delimited_nil)
      obtain ⟨hnot, hdistinct⟩ := List.nodup_cons.mp hdistinct
      have hset := (hjudge d m List.mem_cons_self).unique
        (judgesMember_open (readsAs_of_spells hkey) hs (hopen s List.mem_cons_self))
      rw [List.foldlM_cons, hset]
      refine ih (fun m hm => hisValue m (List.mem_cons_of_mem _ hm))
        (fun d m hm => hjudge d m (List.mem_cons_of_mem _ hm)) hdistinct (d.set s) ?_
      intro other hother
      have hne : s.field ≠ other.field := fun heq => hnot (heq ▸ List.mem_map_of_mem hother)
      rw [Draft.has_set, hopen other (List.mem_cons_of_mem _ hother), decide_eq_false hne]
      rfl
  | @other m name members settings hkey hname h ih =>
      have hother := (hjudge d m List.mem_cons_self).unique (judgesMember_other
        (readsAs_of_spells hkey) (Field.ofKey?_eq_none hname) (hisValue m List.mem_cons_self))
      rw [List.foldlM_cons, hother]
      exact ih (fun m hm => hisValue m (List.mem_cons_of_mem _ hm))
        (fun d m hm => hjudge d m (List.mem_cons_of_mem _ hm)) hdistinct d hopen

/-- A field stays set until its second member, which is refused. -/
theorem foldlM_eq_none_of_has {field : Field} {members behind : List Member} {m : Member}
    (hkey : Spells m.key.inner field.key.toList)
    (hjudge : ∀ d, JudgesMember (member d) m (judge d m))
    (hkeeps : ∀ d, ∀ m ∈ members, ∀ next, judge d m = some next →
      d.has field = true → next.has field = true) {d : Draft} (hset : d.has field = true) :
    (members ++ m :: behind).foldlM judge d = none := by
  induction members generalizing d with
  | nil =>
      have hrefused := (hjudge d).unique (judgesMember_repeated (readsAs_of_spells hkey) hset)
      rw [List.nil_append, List.foldlM_cons, hrefused]
      rfl
  | cons other members ih =>
      rw [List.cons_append, List.foldlM_cons]
      cases hnext : judge d other with
      | none => rfl
      | some next =>
          exact ih (fun d m hm => hkeeps d m (List.mem_cons_of_mem _ hm))
            (hkeeps d other List.mem_cons_self next hnext hset)

/-- An object that holds settings of different fields is the draft of these settings. -/
theorem ofText_of_holdsSettings (t : ObjectText) {settings : List Setting}
    (h : HoldsSettings t.members settings)
    (hdistinct : (settings.map Setting.field).Nodup) :
    Config.ofText t.text = .ok (Draft.ofSettings settings).build := by
  obtain ⟨judge, hjudge⟩ := t.judgements
  exact ofText_of_some (fun d m hm => (hjudge d m hm).1)
    (foldlM_of_holds h t.isValue (fun d m hm => (hjudge d m hm).1) hdistinct {}
      fun s _ => by cases s <;> rfl)

/-- An object with two members for one field is refused, whatever their values are. -/
theorem ofText_of_repeats (t : ObjectText) {field : Field} (h : t.Repeats field) :
    ∃ e, Config.ofText t.text = .error e := by
  obtain ⟨before, first, between, second, behind, hmembers, hfirst, hsecond⟩ := h
  obtain ⟨judge, hjudge⟩ := t.judgements
  refine ofText_of_none (fun d m hm => (hjudge d m hm).1) ?_
  have hmem {m : Member} (hm : m ∈ before ++ first :: (between ++ second :: behind)) :
      m ∈ t.members := hmembers ▸ hm
  rw [hmembers, List.foldlM_append]
  cases before.foldlM judge {} with
  | none => rfl
  | some d =>
      have hfirstMem : first ∈ t.members := hmem (by simp)
      change List.foldlM judge d (first :: (between ++ second :: behind)) = none
      rw [List.foldlM_cons]
      cases hnext : judge d first with
      | none => rfl
      | some next =>
          have htaken := (hjudge d first hfirstMem).1
          rw [hnext] at htaken
          exact foldlM_eq_none_of_has hsecond (fun d => (hjudge d second (hmem (by simp))).1)
            (fun d m hm next hnext => (hjudge d m (hmem (by simp [hm]))).2 next hnext field)
            (has_of_judgesMember hfirst (t.isValue first hfirstMem) htaken).2

end ObjectText

end BankTrace
