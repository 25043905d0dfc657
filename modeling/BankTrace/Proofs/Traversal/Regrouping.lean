import BankTrace.Proofs.Traversal.Channels

/-!
# Both loop orders do the same work

A trace that sweeps over all rows once for each group of bursts, and one that stays with a row for
as many visits as there are groups, have the same requests, each of them as often.
-/

namespace BankTrace

theorem ChannelMode.IsValid.nodup_maskList {mode : ChannelMode} (h : mode.IsValid) :
    mode.maskList.Nodup := by
  cases mode with
  | broadcast mask => exact List.nodup_singleton mask
  | perChannel count =>
      refine List.nodup_range.map_on fun i hi j hj heq => ?_
      have hi' := ChannelMask.contains_single ((List.mem_range.mp hi).trans_le h.2) j
      rw [heq, ChannelMask.contains_single ((List.mem_range.mp hj).trans_le h.2)] at hi'
      simpa [eq_comm] using hi'

namespace Config

variable {c : Config}

/-! ## One visit of every row -/

/-- Whether a request is one of a configuration: its fields are among those the loops run over. -/
structure Asks (c : Config) (r : Request) : Prop where
  opcode : r.opcode = c.opcode
  operandSize : r.operandSize = c.operandSize
  channels : r.channels ∈ c.channelMode.maskList
  bank : r.bank ∈ c.bankOrder
  row : r.row < c.rowCount

def visit (c : Config) : List Request := (List.range c.rowCount.toNat).flatMap c.pass

def places (c : Config) : List (Nat × UInt16 × ChannelMask) :=
  List.range c.rowCount.toNat ×ˢ c.bankOrder ×ˢ c.channelMode.maskList

theorem visit_eq_map : c.visit = c.places.map fun p => c.leaf p.1 p.2.1 p.2.2 := by
  simp only [places, SProd.sprod, List.product, List.map_flatMap, List.map_map]
  rfl

theorem mem_visit_iff {r : Request} : r ∈ c.visit ↔ c.Asks r := by
  simp only [visit_eq_map, places, List.mem_map, List.mem_product, List.mem_range, Prod.exists]
  constructor
  · rintro ⟨row, bank, channels, ⟨hrow, hbank, hchannels⟩, rfl⟩
    refine ⟨rfl, rfl, hchannels, hbank, ?_⟩
    have hsize := hrow.trans c.rowCount.toNat_lt_size
    rw [UInt32.lt_iff_toNat_lt]
    exact (UInt32.toNat_ofNat_of_lt' hsize).trans_lt hrow
  · intro h
    have hrow := UInt32.lt_iff_toNat_lt.mp h.row
    refine ⟨r.row.toNat, r.bank, r.channels, ⟨hrow, h.bank, h.channels⟩, ?_⟩
    obtain ⟨opcode, operandSize, channels, bank, row⟩ := r
    obtain ⟨rfl, rfl, -, -, -⟩ := h
    simp [leaf]

/-- No request is made twice in a visit, as its row, bank and mask can be told from it. -/
theorem IsValid.nodup_visit (h : c.IsValid) : c.visit.Nodup := by
  have hplaces : c.places.Nodup :=
    List.nodup_range.product (h.banks_nodup.product h.channelMode.nodup_maskList)
  rw [visit_eq_map]
  refine hplaces.map_on ?_
  rintro ⟨row, bank, channels⟩ hp ⟨row', bank', channels'⟩ hp' heq
  simp only [places, List.mem_product, List.mem_range] at hp hp'
  simp only [leaf, Request.mk.injEq, true_and] at heq
  obtain ⟨rfl, rfl, hrow⟩ := heq
  rw [← UInt32.toNat_inj, UInt32.toNat_ofNat_of_lt' (hp.1.trans c.rowCount.toNat_lt_size),
    UInt32.toNat_ofNat_of_lt' (hp'.1.trans c.rowCount.toNat_lt_size)] at hrow
  rw [hrow]

/-! ## All visits -/

/-- What a configuration asks for is requested once a visit, and nothing else is. -/
theorem IsValid.count_requests (h : c.IsValid) (r : Request) :
    (c.Asks r → c.requests.count r = c.visitCount) ∧ (¬ c.Asks r → r ∉ c.requests) := by
  have hcount : c.requests.count r = c.visitCount * c.visit.count r := c.count_loops c.pass r
  refine ⟨fun hasked => ?_, fun hnot => ?_⟩
  · rw [hcount, h.nodup_visit.count, if_pos (mem_visit_iff.mpr hasked), Nat.mul_one]
  · rw [← List.count_eq_zero, hcount, List.count_eq_zero.mpr (mt mem_visit_iff.mp hnot),
      Nat.mul_zero]

/-! ## Groups as visits -/

/-- The configuration that stays with a row for as many bursts as the other one has groups. -/
def ungrouped (c : Config) : Config :=
  { c with loopOrder := .rowColumnBank, burstCount := c.burstCount / c.operandSize }

theorem visitCount_ungrouped (horder : c.loopOrder = .burstGroup) :
    c.ungrouped.visitCount = c.visitCount := by
  simp [visitCount, ungrouped, horder, burstGroups]

theorem dataLineCount?_ungrouped (horder : c.loopOrder = .burstGroup) :
    c.ungrouped.dataLineCount? = c.dataLineCount? := by
  simp only [dataLineCount?, visitCount_ungrouped horder]
  rfl

theorem IsValid.ungrouped (h : c.IsValid) (horder : c.loopOrder = .burstGroup) :
    c.ungrouped.IsValid where
  operandSize_le := h.operandSize_le
  isData := h.isData
  rowCount_pos := h.rowCount_pos
  rowCount_le := h.rowCount_le
  burstCount_pos := by
    have hpos := h.visitCount_pos
    rwa [← visitCount_ungrouped horder] at hpos
  banks_ne_nil := h.banks_ne_nil
  bank_lt := h.bank_lt
  banks_nodup := h.banks_nodup
  channelMode := h.channelMode
  groups := by simp [Config.ungrouped]
  hasFileName := h.hasFileName
  lineCount_lt := by
    have hlt := h.lineCount_lt
    rw [lineCount, ← visitCount_ungrouped horder] at hlt
    exact hlt

/-- Grouped or not, a trace has the same number of lines and the same requests: all that are asked
for, each as often as there are groups, and nothing else. -/
theorem ungrouped_same_work (c : Config) (h : c.validate = .ok ())
    (horder : c.loopOrder = .burstGroup) :
    c.ungrouped.validate = .ok () ∧ c.ungrouped.dataLineCount? = c.dataLineCount? ∧
      ∃ xs ys, c.Traces xs ∧ c.ungrouped.Traces ys ∧ ys.Perm xs ∧
        ∀ r, (c.Asks r →
            xs.count r = c.burstCount.toNat / c.operandSize.toNat ∧
              ys.count r = c.burstCount.toNat / c.operandSize.toNat) ∧
          (¬ c.Asks r → r ∉ xs ∧ r ∉ ys) := by
  have hvalid := (validate_eq_ok_iff c).mp h
  have hvalid' := hvalid.ungrouped horder
  have hgroups : c.visitCount = c.burstCount.toNat / c.operandSize.toNat := by
    simp [visitCount, horder, burstGroups]
  have hcount : ∀ r, c.ungrouped.requests.count r = c.requests.count r := by
    intro r
    rw [requests_eq_loops, requests_eq_loops, count_loops, count_loops, visitCount_ungrouped horder]
    rfl
  refine ⟨(validate_eq_ok_iff _).mpr hvalid', dataLineCount?_ungrouped horder, _, _,
    hvalid.traces, hvalid'.traces, List.perm_iff_count.mpr hcount, fun r => ?_⟩
  obtain ⟨hasked, hnot⟩ := hvalid.count_requests r
  refine ⟨fun hr => ?_, fun hr => ⟨hnot hr, ?_⟩⟩
  · rw [hcount, hasked hr, hgroups]
    exact ⟨rfl, rfl⟩
  · rw [← List.count_eq_zero, hcount, List.count_eq_zero]
    exact hnot hr

/-- One of the requests is made four times in either trace. In the next row, which is no longer one
of the configuration, it is not made. -/
theorem ungrouped_same_work_four_groups :
    let c : Config :=
      { output := ⟨[0x74]⟩, rowCount := 3, burstCount := 8, bankOrder := [4, 0],
        channelMode := .perChannel 2, loopOrder := .burstGroup, opcode := .readBank,
        operandSize := 2 }
    let r : Request := ⟨.readBank, 2, ⟨2#32⟩, 0, 2⟩
    c.validate = .ok () ∧ c.loopOrder = .burstGroup ∧ c.Asks r ∧ ¬ c.Asks { r with row := 3 } ∧
      ∃ xs ys, c.Traces xs ∧ c.ungrouped.Traces ys ∧ ys.Perm xs ∧ xs.count r = 4 ∧
        ys.count r = 4 ∧ { r with row := 3 } ∉ xs := by
  intro c r
  have h : c.validate = .ok () := by decide
  have horder : c.loopOrder = .burstGroup := rfl
  have hasked : c.Asks r := ⟨rfl, rfl, by decide, by decide, by decide⟩
  have hnot : ¬ c.Asks { r with row := 3 } := fun hasks => absurd hasks.row (by decide)
  obtain ⟨-, -, xs, ys, hxs, hys, hperm, hcount⟩ := ungrouped_same_work c h horder
  have hgroups : c.burstCount.toNat / c.operandSize.toNat = 4 := by decide
  obtain ⟨hx, hy⟩ := (hcount r).1 hasked
  rw [hgroups] at hx hy
  exact ⟨h, horder, hasked, hnot, xs, ys, hxs, hys, hperm, hx, hy, ((hcount _).2 hnot).1⟩

end Config

end BankTrace
