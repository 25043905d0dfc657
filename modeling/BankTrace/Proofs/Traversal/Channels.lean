import BankTrace.Proofs.ChannelMask.Channels
import BankTrace.Proofs.Traversal.Loops

/-!
# The requests of one channel

Whether a request goes to several channels at once or to one channel after the other, each selected
channel gets the same work in the same order, and no other channel gets any. The channel loop is
innermost, and just one of its masks selects a channel that the mode selects.
-/

namespace BankTrace

/-! ## Masks -/

namespace ChannelMode

def selects : ChannelMode → Nat → Bool
  | broadcast mask, channel => mask.contains channel
  | perChannel count, channel => channel < count.toNat

/-- One mask selects a channel that the mode selects, and none any other channel. -/
theorem countP_contains_maskList {mode : ChannelMode} (h : mode.IsValid) (channel : Nat) :
    mode.maskList.countP (fun mask => mask.contains channel) = (mode.selects channel).toNat := by
  cases mode with
  | broadcast mask => cases hmask : mask.contains channel <;> simp [maskList, selects, hmask]
  | perChannel count =>
      have hsingle : ∀ i ∈ List.range count.toNat,
          ((⟨1#32 <<< i⟩ : ChannelMask).contains channel = true ↔ (i == channel) = true) := by
        intro i hi
        simp [ChannelMask.contains_single ((List.mem_range.mp hi).trans_le h.2)]
      have hcount : (List.range count.toNat).count channel =
          (decide (channel < count.toNat)).toNat := by
        rw [List.nodup_range.count]
        by_cases hlt : channel < count.toNat <;> simp [hlt]
      rw [maskList, List.countP_map, selects, ← hcount]
      exact List.countP_congr hsingle

end ChannelMode

/-! ## Requests -/

/-- What a channel is asked to do by a request that goes to it. -/
structure Work where
  opcode : Opcode
  operandSize : UInt32
  bank : UInt16
  row : UInt32
deriving DecidableEq, Repr

def Request.work (r : Request) : Work := ⟨r.opcode, r.operandSize, r.bank, r.row⟩

def sentTo (channel : Nat) (requests : List Request) : List Request :=
  requests.filter fun r => r.channels.contains channel

namespace Config

variable {c : Config}

/-- In each pass a selected channel is sent to each bank once. -/
theorem map_work_sentTo_pass (h : c.channelMode.IsValid) (channel row : Nat) :
    (sentTo channel (c.pass row)).map Request.work =
      if c.channelMode.selects channel then
        c.bankOrder.map fun bank => ⟨c.opcode, c.operandSize, bank, .ofNat row⟩
      else [] := by
  have hbank (bank : UInt16) :
      (sentTo channel (c.channelMode.maskList.map (c.leaf row bank))).map Request.work =
        List.replicate (c.channelMode.selects channel).toNat
          ⟨c.opcode, c.operandSize, bank, .ofNat row⟩ := by
    rw [← ChannelMode.countP_contains_maskList h, List.countP_eq_length_filter, sentTo,
      List.filter_map, List.map_map, ← List.map_const']
    rfl
  rw [pass, sentTo, List.filter_flatMap, List.map_flatMap]
  simp only [sentTo] at hbank
  simp only [hbank]
  cases c.channelMode.selects channel
  · simp
  · exact List.map_eq_flatMap.symm

/-- A selected channel is sent through all loops but that over the masks. -/
theorem map_work_sentTo_requests (h : c.channelMode.IsValid) (channel : Nat) :
    (sentTo channel c.requests).map Request.work =
      if c.channelMode.selects channel then
        c.loops fun row => c.bankOrder.map fun bank => ⟨c.opcode, c.operandSize, bank, .ofNat row⟩
      else [] := by
  rw [requests_eq_loops, sentTo, filter_loops, map_loops]
  have hpass := map_work_sentTo_pass h channel
  simp only [sentTo] at hpass
  simp only [hpass]
  cases c.channelMode.selects channel
  · exact c.loops_nil
  · rfl

theorem sentTo_requests_of_not_selects (h : c.channelMode.IsValid) {channel : Nat}
    (hnot : c.channelMode.selects channel = false) : sentTo channel c.requests = [] := by
  have hwork := map_work_sentTo_requests h channel
  rw [hnot] at hwork
  exact List.map_eq_nil_iff.mp hwork

/-- Two valid configurations that differ in their channels and their output only give each channel
that both select the same work in the same order. A channel that one does not select gets none from
it. -/
theorem channels_agree (c : Config) (mode : ChannelMode) (output : Path)
    (h : c.validate = .ok ())
    (h' : { c with channelMode := mode, output := output }.validate = .ok ()) :
    ∃ xs ys, c.Traces xs ∧ { c with channelMode := mode, output := output }.Traces ys ∧
      (∀ channel, c.channelMode.selects channel = true → mode.selects channel = true →
        (sentTo channel xs).map Request.work = (sentTo channel ys).map Request.work) ∧
      (∀ channel, c.channelMode.selects channel = false → sentTo channel xs = []) ∧
      ∀ channel, mode.selects channel = false → sentTo channel ys = [] := by
  have hvalid := (validate_eq_ok_iff _).mp h
  have hvalid' := (validate_eq_ok_iff _).mp h'
  refine ⟨_, _, hvalid.traces, hvalid'.traces, fun channel hc hmode => ?_,
    fun channel hnot => sentTo_requests_of_not_selects hvalid.channelMode hnot,
    fun channel hnot => sentTo_requests_of_not_selects hvalid'.channelMode hnot⟩
  rw [map_work_sentTo_requests hvalid.channelMode, map_work_sentTo_requests hvalid'.channelMode,
    hc, hmode]
  rfl

/-- Two channels at once and two channels in turn, of which one is the same. -/
theorem channels_agree_one_shared :
    let c : Config :=
      { output := ⟨[0x74]⟩, rowCount := 2, burstCount := 3, bankOrder := [0, 4],
        channelMode := .broadcast ⟨6#32⟩ }
    let d : Config := { c with channelMode := .perChannel 2, output := ⟨[0x75]⟩ }
    c.validate = .ok () ∧ d.validate = .ok () ∧ c.channelMode.selects 1 = true ∧
      d.channelMode.selects 1 = true ∧ c.channelMode.selects 0 = false ∧
      ∃ xs ys, c.Traces xs ∧ d.Traces ys ∧
        (sentTo 1 xs).map Request.work = (sentTo 1 ys).map Request.work ∧ sentTo 0 xs = [] := by
  intro c d
  have h : c.validate = .ok () := by decide
  have h' : d.validate = .ok () := by decide
  have hc : c.channelMode.selects 1 = true := by decide
  have hd : d.channelMode.selects 1 = true := by decide
  have hnot : c.channelMode.selects 0 = false := by decide
  obtain ⟨xs, ys, hxs, hys, hshared, hnone, -⟩ :=
    channels_agree c (.perChannel 2) ⟨[0x75]⟩ h h'
  exact ⟨h, h', hc, hd, hnot, xs, ys, hxs, hys, hshared 1 hc hd, hnone 0 hnot⟩

end Config

end BankTrace
