import BankTrace.Proofs.Config.Validity

/-!
# The order of validation

A configuration is held to thirteen rules, in an order. `Config.rules` writes them down without the
checks, in exact numbers, each with the error that reports a breach of it. Validation accepts what
keeps all rules, and otherwise reports the first one that is broken.
-/

namespace BankTrace.Config

/-! ## The rules -/

/-- What a configuration is held to, and which error reports that it is not so. -/
structure Rule where
  Holds : Config → Prop
  Reports : Config → ConfigError → Prop

/-- The first bank of the list that does not exist. -/
def IsFirstBeyond (c : Config) (bank : UInt16) : Prop :=
  ∃ before behind, c.bankOrder = before ++ bank :: behind ∧
    (∀ other ∈ before, other.toNat < 16) ∧ 16 ≤ bank.toNat

/-- The bank that is the first to stand in the list a second time. -/
def IsFirstRepeated (c : Config) (bank : UInt16) : Prop :=
  ∃ before behind, c.bankOrder = before ++ bank :: behind ∧ before.Nodup ∧ bank ∈ before

/-- A mask selects a channel; a number of channels is from one up to all. -/
def SelectsChannels (c : Config) : Prop :=
  match c.channelMode with
  | .broadcast mask => mask.bits ≠ 0#32
  | .perChannel count => 1 ≤ count.toNat ∧ count.toNat ≤ 32

def ReportsChannels (c : Config) (e : ConfigError) : Prop :=
  match c.channelMode with
  | .broadcast _ => e = .emptyChannelMask
  | .perChannel count => e = .channelCountOutOfRange count

/-- The rules in the order in which they are looked at. -/
def rules : List Rule := [
  ⟨fun c => c.operandSize.toNat ≤ 32, fun c e => e = .operandSizeOverflow c.operandSize⟩,
  ⟨fun c => c.opcode ≠ .endOfCommands, fun c e => e = .nonDataOpcode c.opcode⟩,
  ⟨fun c => 1 ≤ c.rowCount.toNat, fun _ e => e = .zeroRowCount⟩,
  ⟨fun c => c.rowCount.toNat ≤ 2147483647, fun c e => e = .rowCountOverflow c.rowCount⟩,
  ⟨fun c => 1 ≤ c.burstCount.toNat, fun _ e => e = .zeroBurstCount⟩,
  ⟨fun c => c.bankOrder ≠ [], fun _ e => e = .emptyBankOrder⟩,
  ⟨fun c => ∀ bank ∈ c.bankOrder, bank.toNat < 16,
    fun c e => ∃ bank, c.IsFirstBeyond bank ∧ e = .bankOutOfRange bank⟩,
  ⟨fun c => c.bankOrder.Nodup, fun c e => ∃ bank, c.IsFirstRepeated bank ∧ e = .duplicateBank bank⟩,
  ⟨SelectsChannels, ReportsChannels⟩,
  ⟨fun c => c.loopOrder = .burstGroup → 1 ≤ c.operandSize.toNat,
    fun _ e => e = .zeroOperandSizeInBurstGroup⟩,
  ⟨fun c => c.loopOrder = .burstGroup → c.operandSize.toNat ∣ c.burstCount.toNat,
    fun c e => e = .unalignedBurstGroup c.burstCount c.operandSize⟩,
  ⟨fun c => ∃ name, c.output.fileName? = some name, fun c e => e = .invalidOutputPath c.output⟩,
  ⟨fun c => c.lineCount < UInt64.size, fun _ e => e = .traceTooLarge⟩]

/-! ## Checks in order -/

/-- What the first check says that says anything, if no check before it and it itself is
undefined. -/
def firstFault? : List (Option (Option ConfigError)) → Option (Option ConfigError)
  | [] => some none
  | none :: _ => none
  | some (some e) :: _ => some (some e)
  | some none :: rest => firstFault? rest

/-- Checks that decide rules one by one. A check has to be defined, and to decide its rule, only
where the rules before it are kept. -/
inductive DecidesInOrder (c : Config) : List Rule → List (Option (Option ConfigError)) → Prop where
  | nil : DecidesInOrder c [] []
  | cons {rule rules answer checks} (hholds : answer = none ↔ rule.Holds c)
      (hreports : ∀ e, answer = some e → rule.Reports c e)
      (hrest : rule.Holds c → DecidesInOrder c rules checks) :
      DecidesInOrder c (rule :: rules) (some answer :: checks)

variable {c : Config}

theorem DecidesInOrder.firstFault?_eq_some_none_iff {rules : List Rule}
    {checks : List (Option (Option ConfigError))} (h : DecidesInOrder c rules checks) :
    firstFault? checks = some none ↔ ∀ rule ∈ rules, rule.Holds c := by
  induction h with
  | nil => simp [firstFault?]
  | @cons rule rules answer checks hholds hreports hrest ih =>
      rw [List.forall_mem_cons, ← hholds]
      cases answer with
      | none => simpa [firstFault?] using ih (hholds.mp rfl)
      | some e => simp [firstFault?]

/-- The first rule that is broken is reported. The induction is on the rules before it, which are
kept and about which their checks say nothing. -/
theorem DecidesInOrder.reports_first {rules before behind : List Rule} {rule : Rule}
    {checks : List (Option (Option ConfigError))} (h : DecidesInOrder c rules checks)
    (hrules : rules = before ++ rule :: behind) (hkept : ∀ earlier ∈ before, earlier.Holds c)
    (hbroken : ¬ rule.Holds c) :
    ∃ e, firstFault? checks = some (some e) ∧ rule.Reports c e := by
  induction before generalizing rules checks with
  | nil =>
      subst hrules
      cases h with
      | @cons _ _ answer checks hholds hreports hrest =>
          cases answer with
          | none => exact absurd (hholds.mp rfl) hbroken
          | some e => exact ⟨e, rfl, hreports e rfl⟩
  | cons first before ih =>
      subst hrules
      obtain ⟨hfirst, hkept⟩ := List.forall_mem_cons.mp hkept
      cases h with
      | cons hholds hreports hrest =>
          obtain rfl := hholds.mpr hfirst
          have hreported := ih (hrest hfirst) rfl hkept
          simpa [firstFault?] using hreported

/-! ## The checks of validation -/

/-- The remainder of a division. There is none by zero. -/
def remainder? (a b : Nat) : Option Nat := if b = 0 then none else some (a % b)

/-- Whether the bursts make up groups, which cannot be asked of groups without a burst. -/
def alignmentFault? (c : Config) : Option (Option ConfigError) :=
  match c.loopOrder with
  | .rowColumnBank => some none
  | .burstGroup => (remainder? c.burstCount.toNat c.operandSize.toNat).map fun left =>
      demand (left == 0) (.unalignedBurstGroup c.burstCount c.operandSize)

def checks (c : Config) : List (Option (Option ConfigError)) := [
  some (demand (c.operandSize ≤ maxOperandSize) (.operandSizeOverflow c.operandSize)),
  some (demand c.opcode.isData (.nonDataOpcode c.opcode)),
  some (demand (c.rowCount != 0) .zeroRowCount),
  some (demand (c.rowCount ≤ maxRowCount) (.rowCountOverflow c.rowCount)),
  some (demand (c.burstCount != 0) .zeroBurstCount),
  some (demand (!c.bankOrder.isEmpty) .emptyBankOrder),
  some ((c.bankOrder.find? fun bank => maxBankCount ≤ bank.toNat).map .bankOutOfRange),
  some ((repeated? [] c.bankOrder).map .duplicateBank),
  some c.channelFault?,
  some (demand (c.loopOrder == .rowColumnBank || c.operandSize != 0) .zeroOperandSizeInBurstGroup),
  c.alignmentFault?,
  some (demand c.output.fileName?.isSome (.invalidOutputPath c.output)),
  some (demand c.dataLineCount?.isSome .traceTooLarge)]

theorem toNat_eq_zero_iff {n : UInt32} : n.toNat = 0 ↔ n = 0 := by
  rw [← UInt32.toNat_inj]
  rfl

theorem firstFault?_some_cons (answer : Option ConfigError)
    {rest : List (Option (Option ConfigError))} {later : Option ConfigError}
    (hrest : firstFault? rest = some later) :
    firstFault? (some answer :: rest) = some (answer.or later) := by
  cases answer <;> simp [firstFault?, hrest]

/-- The two checks of the grouping, the second of which is defined whenever it is reached. -/
theorem firstFault?_groups {rest : List (Option (Option ConfigError))}
    {later : Option ConfigError} (hrest : firstFault? rest = some later) :
    firstFault? (some (demand (c.loopOrder == .rowColumnBank || c.operandSize != 0)
        .zeroOperandSizeInBurstGroup) :: c.alignmentFault? :: rest) =
      some (c.groupFault?.or later) := by
  cases horder : c.loopOrder with
  | rowColumnBank => simp [alignmentFault?, groupFault?, horder, demand, firstFault?, hrest]
  | burstGroup =>
      by_cases hsize : c.operandSize = 0
      · simp [groupFault?, horder, hsize, demand, firstFault?]
      · have hdefined : c.alignmentFault? = some c.groupFault? := by
          simp [alignmentFault?, groupFault?, remainder?, horder, hsize, toNat_eq_zero_iff]
        rw [hdefined, ← firstFault?_some_cons c.groupFault? hrest]
        simp [demand, hsize, firstFault?]

/-- No check on the way to the first fault is undefined. -/
theorem firstFault?_checks (c : Config) : firstFault? c.checks = some c.fault? := by
  simp only [fault?, bankFault?, Option.or_assoc]
  iterate 9 apply firstFault?_some_cons
  apply firstFault?_groups
  apply firstFault?_some_cons
  cases demand c.dataLineCount?.isSome .traceTooLarge <;> rfl

theorem demand_eq_some_iff {holds : Bool} {error e : ConfigError} :
    demand holds error = some e ↔ holds = false ∧ e = error := by
  cases holds <;> simp [demand, eq_comm]

theorem isFirstBeyond_of_find? {bank : UInt16}
    (h : (c.bankOrder.find? fun bank => maxBankCount ≤ bank.toNat) = some bank) :
    c.IsFirstBeyond bank := by
  obtain ⟨hbank, before, behind, hlist, hbefore⟩ := List.find?_eq_some_iff_append.mp h
  refine ⟨before, behind, hlist, fun other hother => ?_, of_decide_eq_true hbank⟩
  have hexists : ¬ maxBankCount ≤ other.toNat := by simpa using hbefore other hother
  exact Nat.lt_of_not_le hexists

/-- The first bank that stands a second time, given the banks that were seen before the list. -/
theorem repeated?_eq_some {seen banks : List UInt16} {bank : UInt16}
    (h : repeated? seen banks = some bank) :
    ∃ before behind, banks = before ++ bank :: behind ∧ before.Nodup ∧
      (∀ other ∈ before, other ∉ seen) ∧ (bank ∈ before ∨ bank ∈ seen) := by
  induction banks generalizing seen with
  | nil => simp [repeated?] at h
  | cons first rest ih =>
      by_cases hseen : first ∈ seen
      · obtain rfl : first = bank := by simpa [repeated?, hseen] using h
        exact ⟨[], rest, rfl, List.nodup_nil, by simp, .inr hseen⟩
      · have hlater : repeated? (first :: seen) rest = some bank := by
          simpa [repeated?, hseen] using h
        obtain ⟨before, behind, hrest, hnodup, hfresh, hbank⟩ := ih hlater
        refine ⟨first :: before, behind, by rw [hrest]; rfl, ?_, ?_, ?_⟩
        · rw [List.nodup_cons]
          exact ⟨fun hmem => hfresh first hmem List.mem_cons_self, hnodup⟩
        · intro other hother
          rcases List.mem_cons.mp hother with rfl | hother
          · exact hseen
          · exact fun hmem => hfresh other hother (List.mem_cons_of_mem _ hmem)
        · rcases hbank with hbefore | hseen'
          · exact .inl (List.mem_cons_of_mem _ hbefore)
          · rcases List.mem_cons.mp hseen' with rfl | hseen'
            · exact .inl List.mem_cons_self
            · exact .inr hseen'

theorem isFirstRepeated_of_repeated? {bank : UInt16}
    (h : repeated? [] c.bankOrder = some bank) : c.IsFirstRepeated bank := by
  obtain ⟨before, behind, hlist, hnodup, -, hbank⟩ := repeated?_eq_some h
  exact ⟨before, behind, hlist, hnodup, hbank.resolve_right (by simp)⟩

theorem channelFault?_eq_none_iff_selectsChannels (c : Config) :
    c.channelFault? = none ↔ c.SelectsChannels := by
  rw [channelFault?_eq_none_iff, SelectsChannels]
  cases c.channelMode <;> simp [ChannelMode.IsValid, maxChannelCount, Nat.one_le_iff_ne_zero,
    Nat.pos_iff_ne_zero]

theorem reportsChannels_of_channelFault? {e : ConfigError} (h : c.channelFault? = some e) :
    c.ReportsChannels e := by
  rw [ReportsChannels]
  cases hmode : c.channelMode <;> simp only [channelFault?, hmode, demand_eq_some_iff] at h ⊢ <;>
    exact h.2

theorem one_le_toNat_iff {n : UInt32} : 1 ≤ n.toNat ↔ n ≠ 0 := by
  rw [Nat.one_le_iff_ne_zero, ne_eq, toNat_eq_zero_iff]

/-- The checks decide the rules. Only the last of them needs the rules before it: a count with a
factor of zero may be given up before the zero is reached. -/
theorem decidesInOrder_checks (c : Config) : DecidesInOrder c rules c.checks := by
  have hsimple {holds : Bool} {error : ConfigError} {rule : Rule} {rest : List Rule}
      {later : List (Option (Option ConfigError))} (hholds : holds = true ↔ rule.Holds c)
      (hreports : rule.Reports c error) (hrest : rule.Holds c → DecidesInOrder c rest later) :
      DecidesInOrder c (rule :: rest) (some (demand holds error) :: later) := by
    refine .cons (demand_eq_none_iff.trans hholds) (fun e he => ?_) hrest
    obtain ⟨-, rfl⟩ := demand_eq_some_iff.mp he
    exact hreports
  refine hsimple ?_ rfl fun _ => ?_
  · simp [UInt32.le_iff_toNat_le, maxOperandSize]
  refine hsimple ?_ rfl fun _ => ?_
  · simp [Opcode.isData]
  refine hsimple ?_ rfl fun hrows => ?_
  · simp [one_le_toNat_iff]
  refine hsimple ?_ rfl fun _ => ?_
  · simp [UInt32.le_iff_toNat_le, maxRowCount]
  refine hsimple ?_ rfl fun _ => ?_
  · simp [one_le_toNat_iff]
  refine hsimple ?_ rfl fun _ => ?_
  · simp
  have hbeyond : (c.bankOrder.find? fun bank => maxBankCount ≤ bank.toNat) = none ↔
      ∀ bank ∈ c.bankOrder, bank.toNat < maxBankCount := by simp
  refine .cons (Option.map_eq_none_iff.trans hbeyond) (fun e he => ?_) fun _ => ?_
  · obtain ⟨bank, hbank, rfl⟩ := Option.map_eq_some_iff.mp he
    exact ⟨bank, isFirstBeyond_of_find? hbank, rfl⟩
  refine .cons (by simp [repeated?_eq_none_iff]) (fun e he => ?_) fun _ => ?_
  · obtain ⟨bank, hbank, rfl⟩ := Option.map_eq_some_iff.mp he
    exact ⟨bank, isFirstRepeated_of_repeated? hbank, rfl⟩
  refine .cons (channelFault?_eq_none_iff_selectsChannels c)
    (fun e he => reportsChannels_of_channelFault? he) fun hchannels => ?_
  have horder : c.loopOrder = .burstGroup ↔ ¬ c.loopOrder = .rowColumnBank := by
    cases c.loopOrder <;> simp
  refine hsimple ?_ rfl fun hsize => ?_
  · simp [one_le_toNat_iff, horder, or_iff_not_imp_left]
  have halignment : c.alignmentFault? = some (demand
      (c.loopOrder == .rowColumnBank || c.burstCount.toNat % c.operandSize.toNat == 0)
      (.unalignedBurstGroup c.burstCount c.operandSize)) := by
    cases hloops : c.loopOrder with
    | rowColumnBank => simp [alignmentFault?, hloops, demand]
    | burstGroup =>
        have hpos : c.operandSize.toNat ≠ 0 := Nat.one_le_iff_ne_zero.mp (hsize hloops)
        simp only [alignmentFault?, remainder?, hloops, hpos, if_false, Option.map_some]
        rfl
  rw [halignment]
  refine hsimple ?_ rfl fun _ => ?_
  · simp [Nat.dvd_iff_mod_eq_zero, horder, or_iff_not_imp_left]
  refine hsimple ?_ rfl fun _ => ?_
  · simp [Option.isSome_iff_exists]
  refine hsimple ?_ rfl fun _ => .nil
  rw [Option.isSome_iff_exists]
  constructor
  · rintro ⟨count, hcount⟩
    exact (dataLineCount?_eq_some hcount).2
  · intro hlt
    have hmode : c.channelMode.IsValid :=
      (channelFault?_eq_none_iff c).mp
        ((channelFault?_eq_none_iff_selectsChannels c).mpr hchannels)
    exact ⟨_, dataLineCount?_of_lt hmode.requestCount_pos hlt⟩

/-! ## Validation -/

/-- Validation accepts a configuration that keeps all rules, and otherwise reports the first rule
that is broken. On the way to that, no check is undefined: no remainder by zero is asked for. -/
theorem validate_first_broken (c : Config) :
    (c.validate = .ok () ↔ ∀ rule ∈ rules, rule.Holds c) ∧
      (∀ before rule behind, rules = before ++ rule :: behind →
        (∀ earlier ∈ before, earlier.Holds c) → ¬ rule.Holds c →
          ∃ e, c.validate = .error e ∧ rule.Reports c e) ∧
      firstFault? c.checks = some c.fault? := by
  have hdecides := decidesInOrder_checks c
  have hchecks := firstFault?_checks c
  refine ⟨?_, fun before rule behind hrules hkept hbroken => ?_, hchecks⟩
  · rw [← hdecides.firstFault?_eq_some_none_iff, hchecks, Option.some_inj, validate]
    cases c.fault? <;> simp
  · obtain ⟨e, hfirst, hreports⟩ := hdecides.reports_first hrules hkept hbroken
    rw [hchecks, Option.some_inj] at hfirst
    exact ⟨e, by rw [validate, hfirst], hreports⟩

/-- The second five comes before the second three. -/
example : repeated? [] [3, 5, 5, 3] = some 5 := by decide

end BankTrace.Config
