import BankTrace.Proofs.Config.LineCount
import Mathlib.Data.List.Nodup

/-!
# Valid configurations

`Config.IsValid` says what a configuration must be like to shape a trace, each bound on its own and
in exact arithmetic. Validation accepts just these configurations.
-/

namespace BankTrace

/-! ## Channel modes -/

namespace ChannelMode

/-- A mode that selects at least one channel and none that does not exist. -/
def IsValid : ChannelMode → Prop
  | broadcast mask => mask.bits ≠ 0#32
  | perChannel count => 0 < count.toNat ∧ count.toNat ≤ maxChannelCount

/-- The masks of the innermost requests, whatever the mode: the mask itself, or one bit for each of
the first channels. -/
def maskList : ChannelMode → List ChannelMask
  | broadcast mask => [mask]
  | perChannel count => (List.range count.toNat).map fun channel => ⟨1#32 <<< channel⟩

@[simp] theorem length_maskList (mode : ChannelMode) :
    mode.maskList.length = mode.requestCount := by
  cases mode <;> simp [maskList, requestCount]

variable {mode : ChannelMode}

theorem IsValid.requestCount_pos (h : mode.IsValid) : 0 < mode.requestCount := by
  cases mode with
  | broadcast mask => exact Nat.one_pos
  | perChannel count => exact h.1

theorem mapM_single {channels : List Nat} (h : ∀ channel ∈ channels, channel < maxChannelCount) :
    channels.mapM ChannelMask.single = .ok (channels.map fun channel => ⟨1#32 <<< channel⟩) := by
  induction channels with
  | nil => rfl
  | cons channel rest ih =>
      have hchannel : channel < maxChannelCount := h channel (by simp)
      rw [List.mapM_cons, ih fun other hother => h other (by simp [hother])]
      simp [ChannelMask.single, hchannel]
      rfl

theorem IsValid.masks (h : mode.IsValid) : mode.masks = .ok mode.maskList := by
  cases mode with
  | broadcast mask => rfl
  | perChannel count =>
      simp only [ChannelMode.masks, Nat.not_lt.mpr h.2, if_false, maskList]
      apply mapM_single
      intro channel hchannel
      exact (List.mem_range.mp hchannel).trans_le h.2

end ChannelMode

namespace Config

/-- The bounds of the hardware and of the loops. -/
structure IsValid (c : Config) : Prop where
  operandSize_le : c.operandSize ≤ maxOperandSize
  isData : c.opcode.isData = true
  rowCount_pos : 0 < c.rowCount.toNat
  rowCount_le : c.rowCount.toNat ≤ maxRowCount.toNat
  burstCount_pos : 0 < c.burstCount.toNat
  banks_ne_nil : c.bankOrder ≠ []
  bank_lt : ∀ bank ∈ c.bankOrder, bank.toNat < maxBankCount
  banks_nodup : c.bankOrder.Nodup
  channelMode : c.channelMode.IsValid
  groups : c.loopOrder = .burstGroup →
    0 < c.operandSize.toNat ∧ c.operandSize.toNat ∣ c.burstCount.toNat
  hasFileName : c.output.fileName?.isSome = true
  lineCount_lt : c.lineCount < UInt64.size

/-! ## The single checks -/

@[simp] theorem demand_eq_none_iff {holds : Bool} {error : ConfigError} :
    demand holds error = none ↔ holds = true := by
  cases holds <;> simp [demand]

theorem repeated?_eq_none_iff (seen banks : List UInt16) :
    repeated? seen banks = none ↔ banks.Nodup ∧ ∀ bank ∈ banks, bank ∉ seen := by
  induction banks generalizing seen with
  | nil => simp [repeated?]
  | cons bank rest ih =>
      by_cases hbank : bank ∈ seen
      · simp [repeated?, hbank]
      · simp only [repeated?, hbank, if_false, ih, List.nodup_cons, List.mem_cons, not_or,
          forall_eq_or_imp, not_false_eq_true, true_and]
        constructor
        · rintro ⟨hnodup, hrest⟩
          exact ⟨⟨fun hmem => (hrest bank hmem).1 rfl, hnodup⟩, fun b hb => (hrest b hb).2⟩
        · rintro ⟨⟨hmem, hnodup⟩, hrest⟩
          refine ⟨hnodup, fun b hb => ⟨?_, hrest b hb⟩⟩
          rintro rfl
          exact hmem hb

theorem bankFault?_eq_none_iff (c : Config) :
    c.bankFault? = none ↔ c.bankOrder ≠ [] ∧
      (∀ bank ∈ c.bankOrder, bank.toNat < maxBankCount) ∧ c.bankOrder.Nodup := by
  simp [bankFault?, Option.or_eq_none_iff, repeated?_eq_none_iff, and_assoc]

theorem channelFault?_eq_none_iff (c : Config) :
    c.channelFault? = none ↔ c.channelMode.IsValid := by
  cases hmode : c.channelMode with
  | broadcast mask => simp [channelFault?, hmode, ChannelMode.IsValid, ChannelMask.isEmpty]
  | perChannel count => simp [channelFault?, hmode, ChannelMode.IsValid]

theorem groupFault?_eq_none_iff (c : Config) :
    c.groupFault? = none ↔ (c.loopOrder = .burstGroup →
      0 < c.operandSize.toNat ∧ c.operandSize.toNat ∣ c.burstCount.toNat) := by
  cases horder : c.loopOrder with
  | rowColumnBank => simp [groupFault?, horder]
  | burstGroup =>
      by_cases hsize : c.operandSize = 0
      · simp [groupFault?, horder, hsize]
      · have hpos : 0 < c.operandSize.toNat := by
          rw [Nat.pos_iff_ne_zero]
          exact fun hzero => hsize (UInt32.toNat_inj.mp hzero)
        simp [groupFault?, horder, hsize, hpos, Nat.dvd_iff_mod_eq_zero]

/-! ## Acceptance -/

theorem fault?_eq_none_iff (c : Config) : c.fault? = none ↔ c.IsValid := by
  simp only [fault?, Option.or_eq_none_iff, demand_eq_none_iff, bankFault?_eq_none_iff,
    channelFault?_eq_none_iff, groupFault?_eq_none_iff, decide_eq_true_eq, bne_iff_ne, ne_eq,
    UInt32.le_iff_toNat_le, and_assoc]
  constructor
  · rintro ⟨hsize, hdata, hrows, hrowsLe, hbursts, hbanks, hlt, hnodup, hmode, hgroups, hname,
      hcount⟩
    obtain ⟨n, hn⟩ := Option.isSome_iff_exists.mp hcount
    exact ⟨hsize, hdata, Nat.pos_of_ne_zero fun h => hrows (UInt32.toNat_inj.mp h), hrowsLe,
      Nat.pos_of_ne_zero fun h => hbursts (UInt32.toNat_inj.mp h), hbanks, hlt, hnodup, hmode,
      hgroups, hname, (dataLineCount?_eq_some hn).2⟩
  · intro h
    have hcount := dataLineCount?_of_lt h.channelMode.requestCount_pos h.lineCount_lt
    refine ⟨h.operandSize_le, h.isData, ?_, h.rowCount_le, ?_, h.banks_ne_nil, h.bank_lt,
      h.banks_nodup, h.channelMode, h.groups, h.hasFileName, by simp [hcount]⟩
    · intro hzero
      simpa [hzero] using h.rowCount_pos
    · intro hzero
      simpa [hzero] using h.burstCount_pos

theorem validate_eq_ok_iff (c : Config) : c.validate = .ok () ↔ c.IsValid := by
  rw [← fault?_eq_none_iff, validate]
  cases c.fault? <;> simp

theorem IsValid.dataLineCount? {c : Config} (h : c.IsValid) :
    c.dataLineCount? = some c.lineCount :=
  dataLineCount?_of_lt h.channelMode.requestCount_pos h.lineCount_lt

theorem IsValid.visitCount_pos {c : Config} (h : c.IsValid) : 0 < c.visitCount := by
  cases horder : c.loopOrder with
  | rowColumnBank => simpa [visitCount, horder] using h.burstCount_pos
  | burstGroup =>
      obtain ⟨hpos, hdvd⟩ := h.groups horder
      simpa [visitCount, horder, burstGroups] using
        ⟨hpos, Nat.le_of_dvd h.burstCount_pos hdvd⟩

end Config

end BankTrace
