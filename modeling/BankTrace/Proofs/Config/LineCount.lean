import BankTrace.Config.Validation
import Mathlib.Tactic

/-!
# The number of data lines of any configuration

The number of data lines can be asked for before a configuration has been found valid, so that any
of its factors may be zero and their product may have any size. The number is exact, with one
exception: where there are no channels, a count of zero, it is given up if what the channels are
multiplied with does not fit in 64 bits.
-/

namespace BankTrace

theorem ChannelMode.requestCount_eq_zero_iff {mode : ChannelMode} :
    mode.requestCount = 0 ↔ mode = .perChannel 0 := by
  cases mode with
  | broadcast mask => simp [requestCount]
  | perChannel count =>
      rw [requestCount, perChannel.injEq, ← UInt64.toNat_inj]
      rfl

namespace Config

/-- The number of data lines of a trace, however large. -/
def lineCount (c : Config) : Nat :=
  c.visitCount * c.rowCount.toNat * c.bankOrder.length * c.channelMode.requestCount

/-- How often the innermost loop, the one over the channels, is gone through, however large. -/
def leafCount (c : Config) : Nat := c.visitCount * c.rowCount.toNat * c.bankOrder.length

variable {c : Config}

theorem lineCount_eq (c : Config) : c.lineCount = c.leafCount * c.channelMode.requestCount := rfl

/-- Where there is a channel, no product on the way exceeds the whole. -/
theorem leafCount_le_lineCount (h : 0 < c.channelMode.requestCount) :
    c.leafCount ≤ c.lineCount :=
  Nat.le_mul_of_pos_right _ h

/-! ## The single products -/

theorem product?_of_mul_lt {a b : Nat} (h : a * b < UInt64.size) : product? a b = some (a * b) := by
  simp [product?, h]

theorem product?_eq_none_iff {a b : Nat} : product? a b = none ↔ UInt64.size ≤ a * b := by
  simp [product?]

theorem visitCount_le (c : Config) : c.visitCount ≤ c.burstCount.toNat := by
  cases horder : c.loopOrder with
  | rowColumnBank => rw [visitCount, horder]
  | burstGroup =>
      rw [visitCount, horder]
      exact Nat.div_le_self _ _

/-- Two factors of 32 bits never overflow 64, so the first product is never given up. -/
theorem visits_lt (c : Config) : c.visitCount * c.rowCount.toNat < UInt64.size :=
  calc c.visitCount * c.rowCount.toNat
    _ < UInt32.size * UInt32.size :=
        Nat.mul_lt_mul'' (c.visitCount_le.trans_lt c.burstCount.toNat_lt) c.rowCount.toNat_lt
    _ = UInt64.size := rfl

/-- That leaves two products, and the second is looked at only if the first one fits. -/
theorem dataLineCount?_eq_bind (c : Config) : c.dataLineCount? =
    (product? (c.visitCount * c.rowCount.toNat) c.bankOrder.length).bind fun leaves =>
      product? leaves c.channelMode.requestCount := by
  rw [dataLineCount?, product?_of_mul_lt c.visits_lt]
  rfl

/-! ## The number of data lines -/

theorem dataLineCount?_of_leafCount_lt (h : c.leafCount < UInt64.size) :
    c.dataLineCount? = if c.lineCount < UInt64.size then some c.lineCount else none := by
  rw [dataLineCount?_eq_bind, product?_of_mul_lt h]
  rfl

theorem dataLineCount?_of_le_leafCount (h : UInt64.size ≤ c.leafCount) :
    c.dataLineCount? = none := by
  rw [dataLineCount?_eq_bind, product?_eq_none_iff.mpr h]
  rfl

theorem dataLineCount?_of_lt (hmasks : 0 < c.channelMode.requestCount)
    (h : c.lineCount < UInt64.size) : c.dataLineCount? = some c.lineCount := by
  rw [dataLineCount?_of_leafCount_lt ((leafCount_le_lineCount hmasks).trans_lt h), if_pos h]

theorem dataLineCount?_eq_some {n : Nat} (h : c.dataLineCount? = some n) :
    n = c.lineCount ∧ c.lineCount < UInt64.size := by
  rcases Nat.lt_or_ge c.leafCount UInt64.size with hlt | hge
  · rw [dataLineCount?_of_leafCount_lt hlt] at h
    split_ifs at h with hcount
    exact ⟨(Option.some.inj h).symm, hcount⟩
  · simp [dataLineCount?_of_le_leafCount hge] at h

/-- The number of data lines, for any configuration: the product of all factors if 64 bits hold it,
and none otherwise. Where bursts are grouped by an operand size of zero, there are no groups. Only
without channels, and so without lines, is the number given up although it fits: if the other
factors alone are too large. -/
theorem dataLineCount?_exact (c : Config) :
    let visits := match c.loopOrder with
      | .rowColumnBank => c.burstCount.toNat
      | .burstGroup =>
          if c.operandSize = 0 then 0 else c.burstCount.toNat / c.operandSize.toNat
    let leaves := visits * c.rowCount.toNat * c.bankOrder.length
    let lines := leaves * c.channelMode.requestCount
    c.dataLineCount? =
      if c.channelMode = .perChannel 0 ∧ UInt64.size ≤ leaves then none
      else if lines < UInt64.size then some lines else none := by
  intro visits leaves lines
  have hvisits : visits = c.visitCount := by
    cases horder : c.loopOrder with
    | rowColumnBank => simp only [visits, visitCount, horder]
    | burstGroup =>
        simp only [visits, visitCount, burstGroups, horder]
        split_ifs with hsize
        · simp [hsize]
        · rfl
  have hleaves : leaves = c.leafCount := by rw [leafCount, ← hvisits]
  have hlines : lines = c.lineCount := by rw [lineCount_eq, ← hleaves]
  rw [hleaves, hlines]
  rcases Nat.lt_or_ge c.leafCount UInt64.size with hlt | hge
  · rw [if_neg fun h => Nat.not_lt.mpr h.2 hlt]
    exact dataLineCount?_of_leafCount_lt hlt
  · rw [dataLineCount?_of_le_leafCount hge]
    by_cases hnone : c.channelMode = .perChannel 0
    · rw [if_pos ⟨hnone, hge⟩]
    · have hpos : 0 < c.channelMode.requestCount :=
        Nat.pos_of_ne_zero fun hzero => hnone (ChannelMode.requestCount_eq_zero_iff.mp hzero)
      have hlarge : UInt64.size ≤ c.lineCount := hge.trans (leafCount_le_lineCount hpos)
      rw [if_neg fun h => hnone h.1, if_neg (Nat.not_lt.mpr hlarge)]

/-- Without channels there are no lines, and yet their number is given up on the way. -/
theorem dataLineCount?_without_channels :
    let c : Config := {
      rowCount := 4294967295
      burstCount := 4294967295
      bankOrder := [0, 4]
      channelMode := .perChannel 0 }
    c.lineCount = 0 ∧ c.dataLineCount? = none := by decide +kernel

end Config

end BankTrace
