import BankTrace.Proofs.Emission.Limited
import BankTrace.Proofs.Instruction.Complete
import BankTrace.Proofs.Traversal.Regrouping

/-!
# What a trace tells of its configuration

The requests of a trace tell the range of every loop: which masks, banks and rows there are, in
which order the first of them come, and how often each request is made. So the trace tells the
configuration but for the output path, and for a single channel selected in one or the other way.
-/

namespace BankTrace

/-! ## Channel modes -/

/-- Modes that select the same channels by the same requests. One of the first channels alone is
selected by its mask as well as by their number. -/
inductive ChannelMode.SelectsSame : ChannelMode → ChannelMode → Prop where
  | refl (mode : ChannelMode) : SelectsSame mode mode
  | single_mask : SelectsSame (.broadcast ⟨1#32⟩) (.perChannel 1)
  | single_count : SelectsSame (.perChannel 1) (.broadcast ⟨1#32⟩)

theorem ChannelMode.maskList_eq_iff {mode mode' : ChannelMode} :
    mode.maskList = mode'.maskList ↔ mode.SelectsSame mode' := by
  have hone {count : UInt64} {mask : ChannelMask}
      (h : (perChannel count).maskList = (broadcast mask).maskList) :
      count = 1 ∧ mask = ⟨1#32⟩ := by
    have hcount : count.toNat = 1 := by simpa [requestCount] using congrArg List.length h
    refine ⟨UInt64.toNat_inj.mp hcount, ?_⟩
    simpa [maskList, hcount, eq_comm] using h
  constructor
  · intro h
    cases mode with
    | broadcast mask =>
        cases mode' with
        | broadcast mask' =>
            obtain rfl : mask = mask' := List.singleton_inj.mp h
            exact .refl _
        | perChannel count =>
            obtain ⟨rfl, rfl⟩ := hone h.symm
            exact .single_mask
    | perChannel count =>
        cases mode' with
        | broadcast mask =>
            obtain ⟨rfl, rfl⟩ := hone h
            exact .single_count
        | perChannel count' =>
            have hlength := congrArg List.length h
            rw [length_maskList, length_maskList] at hlength
            obtain rfl : count = count' := UInt64.toNat_inj.mp hlength
            exact .refl _
  · rintro (_ | _ | _) <;> rfl

/-! ## What the requests tell -/

namespace Config

/-- Configurations that agree in all that shapes the requests, their loop order apart. -/
structure SamePattern (c d : Config) : Prop where
  opcode : c.opcode = d.opcode
  operandSize : c.operandSize = d.operandSize
  rowCount : c.rowCount = d.rowCount
  burstCount : c.burstCount = d.burstCount
  bankOrder : c.bankOrder = d.bankOrder
  channelMode : c.channelMode.SelectsSame d.channelMode

variable {c d : Config}

/-- Visits of every row tell the number of bursts, as no burst is left over from the groups. -/
theorem IsValid.burstCount_eq (hc : c.IsValid) (hd : d.IsValid) (horder : c.loopOrder = d.loopOrder)
    (hsize : c.operandSize = d.operandSize) (hvisits : c.visitCount = d.visitCount) :
    c.burstCount = d.burstCount := by
  rw [← UInt32.toNat_inj]
  cases hloops : c.loopOrder with
  | rowColumnBank =>
      have hloops' := horder.symm.trans hloops
      simpa [visitCount, hloops, hloops'] using hvisits
  | burstGroup =>
      have hloops' := horder.symm.trans hloops
      obtain ⟨hpos, hdvd⟩ := hc.groups hloops
      obtain ⟨-, hdvd'⟩ := hd.groups hloops'
      rw [← hsize] at hdvd'
      refine (Nat.div_left_inj hdvd hdvd').mp ?_
      simpa [visitCount, hloops, hloops', burstGroups, hsize] using hvisits

/-- What is requested is what is asked for, as every row is visited. -/
theorem IsValid.mem_requests_iff (h : c.IsValid) {r : Request} : r ∈ c.requests ↔ c.Asks r := by
  obtain ⟨hasked, hnot⟩ := h.count_requests r
  refine ⟨fun hr => by_contra fun hasks => hnot hasks hr, fun hasks => ?_⟩
  rw [← List.count_pos_iff, hasked hasks]
  exact h.visitCount_pos

theorem IsValid.exists_asks (h : c.IsValid) : ∃ r, c.Asks r := by
  obtain ⟨channels, hchannels⟩ :=
    List.exists_mem_of_length_pos (c.channelMode.length_maskList ▸ h.channelMode.requestCount_pos)
  obtain ⟨bank, hbank⟩ := List.exists_mem_of_ne_nil _ h.banks_ne_nil
  exact ⟨⟨c.opcode, c.operandSize, channels, bank, 0⟩, rfl, rfl, hchannels, hbank,
    UInt32.lt_iff_toNat_lt.mpr h.rowCount_pos⟩

/-- When all that one configuration asks for is asked for by another one, no loop of the first has
a wider range. -/
theorem IsValid.ranges_of_asks (h : c.IsValid) (hasks : ∀ r, c.Asks r → d.Asks r) :
    c.opcode = d.opcode ∧ c.operandSize = d.operandSize ∧ c.rowCount ≤ d.rowCount ∧
      c.bankOrder ⊆ d.bankOrder ∧ c.channelMode.maskList ⊆ d.channelMode.maskList := by
  obtain ⟨r, hr⟩ := h.exists_asks
  obtain ⟨hopcode, hsize, hchannels, hbank, hrow⟩ := hr
  obtain ⟨hopcode', hsize', -⟩ := hasks r ⟨hopcode, hsize, hchannels, hbank, hrow⟩
  refine ⟨hopcode.symm.trans hopcode', hsize.symm.trans hsize', UInt32.not_lt.mp fun hlt => ?_,
    fun bank hbank => ?_, fun channels hchannels => ?_⟩
  · exact UInt32.lt_irrefl _
      (hasks { r with row := d.rowCount } ⟨hopcode, hsize, hchannels, hbank, hlt⟩).row
  · exact (hasks { r with bank } ⟨hopcode, hsize, hchannels, hbank, hrow⟩).bank
  · exact (hasks { r with channels } ⟨hopcode, hsize, hchannels, hbank, hrow⟩).channels

theorem IsValid.pass_le_lineCount (h : c.IsValid) :
    c.bankOrder.length * c.channelMode.maskList.length ≤ c.lineCount := by
  rw [lineCount, Nat.mul_assoc, ChannelMode.length_maskList]
  exact Nat.le_mul_of_pos_left _ (Nat.mul_pos h.visitCount_pos h.rowCount_pos)

/-- Where the numbers of banks and of masks are the same, the requests of a first pass tell their
order. -/
theorem IsValid.orders_eq_of_requests_eq (hc : c.IsValid) (hd : d.IsValid)
    (heq : c.requests = d.requests)
    (hmasks : c.channelMode.maskList.length = d.channelMode.maskList.length)
    (hbanks : c.bankOrder.length = d.bankOrder.length) :
    c.channelMode.maskList = d.channelMode.maskList ∧ c.bankOrder = d.bankOrder := by
  have hlines : c.lineCount = d.lineCount := by
    rw [← length_requests, ← length_requests, heq]
  have hrequest {i : Nat} (hi : i < c.lineCount) : ∃ r, c.IsRequestAt i r ∧ d.IsRequestAt i r := by
    have hsame : c.sweep.request (c.sweep.countersAt i) = d.sweep.request (d.sweep.countersAt i) :=
      Option.some.inj ((requests_getElem? hc hi).symm.trans
        (heq ▸ requests_getElem? hd (hlines ▸ hi)))
    exact ⟨_, isRequestAt_countersAt hc hi, hsame ▸ isRequestAt_countersAt hd (hlines ▸ hi)⟩
  have hmasksPos : 0 < c.channelMode.maskList.length :=
    c.channelMode.length_maskList ▸ hc.channelMode.requestCount_pos
  have hbanksPos := List.length_pos_iff.mpr hc.banks_ne_nil
  refine ⟨List.ext_getElem?' fun i hi => ?_, List.ext_getElem?' fun i hi => ?_⟩
  · rw [← hmasks, max_self] at hi
    obtain ⟨r, hr, hr'⟩ :=
      hrequest (hi.trans_le ((Nat.le_mul_of_pos_left _ hbanksPos).trans hc.pass_le_lineCount))
    have hchannels := hr.channels.trans hr'.channels.symm
    rwa [← hmasks, Nat.mod_eq_of_lt hi] at hchannels
  · rw [← hbanks, max_self] at hi
    obtain ⟨r, hr, hr'⟩ :=
      hrequest ((Nat.mul_lt_mul_of_pos_right hi hmasksPos).trans_le hc.pass_le_lineCount)
    have hbank := hr.bank.trans hr'.bank.symm
    rwa [← hmasks, ← hbanks, Nat.mul_div_cancel _ hmasksPos, Nat.mod_eq_of_lt hi] at hbank

/-- The requests of a valid configuration tell it, but for its output. -/
theorem IsValid.samePattern_of_requests_eq (hc : c.IsValid) (hd : d.IsValid)
    (horder : c.loopOrder = d.loopOrder) (heq : c.requests = d.requests) : c.SamePattern d := by
  have hasks (r : Request) : c.Asks r ↔ d.Asks r := by
    rw [← hc.mem_requests_iff, heq, hd.mem_requests_iff]
  obtain ⟨hopcode, hsize, hrows, hbanks, hmasks⟩ := hc.ranges_of_asks fun r => (hasks r).mp
  obtain ⟨-, -, hrows', hbanks', hmasks'⟩ := hd.ranges_of_asks fun r => (hasks r).mpr
  have hmasksPerm : c.channelMode.maskList.Perm d.channelMode.maskList :=
    (List.perm_ext_iff_of_nodup hc.channelMode.nodup_maskList
      hd.channelMode.nodup_maskList).mpr fun _ => ⟨@hmasks _, @hmasks' _⟩
  have hbanksPerm : c.bankOrder.Perm d.bankOrder :=
    (List.perm_ext_iff_of_nodup hc.banks_nodup hd.banks_nodup).mpr fun _ => ⟨@hbanks _, @hbanks' _⟩
  obtain ⟨hmaskList, hbankOrder⟩ :=
    hc.orders_eq_of_requests_eq hd heq hmasksPerm.length_eq hbanksPerm.length_eq
  have hvisits : c.visitCount = d.visitCount := by
    obtain ⟨r, hr⟩ := hc.exists_asks
    rw [← (hc.count_requests r).1 hr, ← (hd.count_requests r).1 ((hasks r).mp hr), heq]
  exact ⟨hopcode, hsize, UInt32.le_antisymm hrows hrows', hc.burstCount_eq hd horder hsize hvisits,
    hbankOrder, ChannelMode.maskList_eq_iff.mp hmaskList⟩

theorem SamePattern.requests_eq (h : c.SamePattern d) (horder : c.loopOrder = d.loopOrder) :
    c.requests = d.requests := by
  obtain ⟨hopcode, hsize, hrows, hbursts, hbanks, hmode⟩ := h
  have hleaf : c.leaf = d.leaf := by
    funext row bank channels
    simp only [leaf, hopcode, hsize]
  have hpass : c.pass = d.pass := by
    funext row
    rw [pass, pass, hleaf, hbanks, ChannelMode.maskList_eq_iff.mpr hmode]
  have hvisits : c.visitCount = d.visitCount := by
    simp only [visitCount, burstGroups, horder, hbursts, hsize]
  simp only [requests, horder, hrows, hvisits, hpass]

end Config

/-! ## What the trace tells -/

/-- Valid configurations with the same loop order write the same trace just when they agree in all
but the output, up to the two ways to select the first channel alone. -/
theorem Emission.bytes_eq_iff (c d : Config) (hc : c.validate = .ok ()) (hd : d.validate = .ok ())
    (horder : c.loopOrder = d.loopOrder) :
    Emission.bytes c = Emission.bytes d ↔ c.SamePattern d := by
  have hvalid := (Config.validate_eq_ok_iff c).mp hc
  have hvalid' := (Config.validate_eq_ok_iff d).mp hd
  rw [Emission.bytes_eq_trace hvalid, Emission.bytes_eq_trace hvalid', Config.trace, Config.trace,
    Instruction.encodeAll_injective.eq_iff]
  constructor
  · intro heq
    have hrequests : c.requests.map Instruction.data = d.requests.map Instruction.data :=
      List.append_cancel_right heq
    refine hvalid.samePattern_of_requests_eq hvalid' horder ?_
    exact List.map_injective_iff.mpr (fun _ _ => Instruction.data.inj) hrequests
  · intro hsame
    rw [Config.instructions, Config.instructions, hsame.requests_eq horder]

/-- The first channel is selected in either way, and the outputs differ. Another channel, or one
more, makes another trace. -/
theorem Emission.bytes_eq_iff_first_channel :
    let c : Config :=
      { output := ⟨[0x74]⟩, rowCount := 2, burstCount := 4, bankOrder := [4, 0],
        channelMode := .broadcast ⟨1#32⟩, loopOrder := .burstGroup, operandSize := 2 }
    let d : Config := { c with output := ⟨[0x75]⟩, channelMode := .perChannel 1 }
    let other : Config := { c with channelMode := .broadcast ⟨2#32⟩ }
    c.validate = .ok () ∧ d.validate = .ok () ∧ other.validate = .ok () ∧
      c.loopOrder = d.loopOrder ∧ c.loopOrder = other.loopOrder ∧
      Emission.bytes c = Emission.bytes d ∧ Emission.bytes c ≠ Emission.bytes other := by
  intro c d other
  have hc : c.validate = .ok () := by decide
  have hd : d.validate = .ok () := by decide
  have hother : other.validate = .ok () := by decide
  refine ⟨hc, hd, hother, rfl, rfl, ?_, fun heq => ?_⟩
  · exact (Emission.bytes_eq_iff c d hc hd rfl).mpr ⟨rfl, rfl, rfl, rfl, rfl, .single_mask⟩
  · obtain ⟨-, -, -, -, -, halike⟩ := (Emission.bytes_eq_iff c other hc hother rfl).mp heq
    exact absurd halike (by rintro ⟨⟩)

end BankTrace
