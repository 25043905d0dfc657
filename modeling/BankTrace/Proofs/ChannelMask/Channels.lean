import BankTrace.Proofs.Config.Validity

/-!
# Masks as sets of channels

A mask is the set of the channels whose bits it has. Every question about a mask is answered by the
list of its channels, and the masks of these channels make up the mask again.
-/

namespace BankTrace.ChannelMask

variable {mask other : ChannelMask} {channel count : Nat}

/-! ## The channels of a mask -/

theorem lt_of_contains (h : mask.contains channel = true) : channel < maxChannelCount :=
  BitVec.lt_of_getLsbD h

theorem ext_of_contains (h : ∀ channel, mask.contains channel = other.contains channel) :
    mask = other := by
  obtain ⟨bits⟩ := mask
  obtain ⟨bits'⟩ := other
  have hbits : bits = bits' := BitVec.eq_of_getLsbD_eq fun i _ => h i
  rw [hbits]

theorem mem_channels_iff : channel ∈ mask.channels ↔ mask.contains channel = true := by
  rw [channels, List.mem_filter, List.mem_range]
  exact and_iff_right_of_imp lt_of_contains

theorem pairwise_channels (mask : ChannelMask) : mask.channels.Pairwise (· < ·) :=
  List.pairwise_lt_range.filter _

theorem channels_eq {channels : List Nat} (hascending : channels.Pairwise (· < ·))
    (h : ∀ channel, mask.contains channel = true ↔ channel ∈ channels) :
    mask.channels = channels :=
  mask.pairwise_channels.eq_of_mem_iff hascending fun channel => by rw [mem_channels_iff, h]

theorem channels_inj : mask.channels = other.channels ↔ mask = other := by
  refine ⟨fun h => ext_of_contains fun channel => ?_, fun h => h ▸ rfl⟩
  rw [Bool.eq_iff_iff, ← mem_channels_iff, h, mem_channels_iff]

/-- Counting bits from the last one on counts the channels up to there. -/
theorem cpopNatRec_eq_countP {w : Nat} (bits : BitVec w) (n : Nat) :
    bits.cpopNatRec n 0 = (List.range n).countP bits.getLsbD := by
  induction n with
  | zero => rfl
  | succ n ih =>
      rw [BitVec.cpopNatRec_succ, BitVec.cpopNatRec_add, ih, List.range_succ, List.countP_append]
      cases h : bits.getLsbD n <;> simp [h]

theorem length_channels (mask : ChannelMask) : mask.channels.length = mask.channelCount := by
  rw [channels, ← List.countP_eq_length_filter, channelCount, BitVec.toNat_cpop,
    cpopNatRec_eq_countP]
  rfl

theorem isEmpty_iff : mask.isEmpty = true ↔ mask.channels = [] := by
  have hnone (channel : Nat) : contains ⟨0#32⟩ channel = false := BitVec.getLsbD_zero
  have hempty : channels ⟨0#32⟩ = [] := channels_eq .nil (by simp [hnone])
  rw [← hempty, channels_inj, isEmpty, beq_iff_eq]
  obtain ⟨bits⟩ := mask
  simp

/-! ## Masks from channels -/

theorem contains_single {i : Nat} (hi : i < maxChannelCount) (channel : Nat) :
    (⟨1#32 <<< i⟩ : ChannelMask).contains channel = decide (i = channel) := by
  have hwidth : maxChannelCount = 32 := rfl
  rw [contains, BitVec.getLsbD_shiftLeft, BitVec.getLsbD_one, Bool.eq_iff_iff]
  simp only [Bool.and_eq_true, decide_eq_true_eq, Bool.not_eq_true', decide_eq_false_iff_not]
  omega

theorem channels_single (h : channel < maxChannelCount) :
    channels ⟨1#32 <<< channel⟩ = [channel] :=
  channels_eq (List.pairwise_singleton _ _) fun other => by
    simp [contains_single h, eq_comm]

theorem firstChannels_eq_ok (hpos : 1 ≤ count) (hle : count ≤ maxChannelCount) :
    firstChannels count = .ok ⟨BitVec.allOnes 32 >>> (maxChannelCount - count)⟩ :=
  if_neg (by omega)

theorem contains_firstChannels (hle : count ≤ maxChannelCount) (channel : Nat) :
    (⟨BitVec.allOnes 32 >>> (maxChannelCount - count)⟩ : ChannelMask).contains channel =
      decide (channel < count) := by
  have hwidth : maxChannelCount = 32 := rfl
  rw [contains, BitVec.getLsbD_ushiftRight, BitVec.getLsbD_allOnes, decide_eq_decide]
  omega

def union (masks : List ChannelMask) : ChannelMask :=
  ⟨masks.foldr (fun mask bits => mask.bits ||| bits) 0#32⟩

theorem contains_union (masks : List ChannelMask) (channel : Nat) :
    (union masks).contains channel = masks.any fun mask => mask.contains channel := by
  induction masks with
  | nil => exact BitVec.getLsbD_zero
  | cons mask masks ih =>
      rw [List.any_cons, ← ih]
      exact BitVec.getLsbD_or

theorem union_singles {channels : List Nat}
    (hlt : ∀ channel ∈ channels, channel < maxChannelCount)
    (h : ∀ channel, mask.contains channel = true ↔ channel ∈ channels) :
    ∃ masks, channels.mapM single = .ok masks ∧ union masks = mask := by
  refine ⟨_, ChannelMode.mapM_single hlt, ext_of_contains fun channel => ?_⟩
  rw [contains_union, Bool.eq_iff_iff, h, List.any_eq_true]
  simp only [List.mem_map, exists_exists_and_eq_and]
  constructor
  · rintro ⟨i, hi, hcontains⟩
    rw [contains_single (hlt i hi), decide_eq_true_eq] at hcontains
    exact hcontains ▸ hi
  · exact fun hmem => ⟨channel, hmem, by simp [contains_single (hlt channel hmem)]⟩

/-! ## Shifts -/

/-- A word shifted to the left. A shift by the width of the word or by more has no result. -/
def shifted? (word : BitVec 32) (places : Nat) : Option (BitVec 32) :=
  if places < 32 then some (word <<< places) else none

/-- A word less one. Nothing is less than zero. -/
def lowered? (word : BitVec 32) : Option (BitVec 32) :=
  if word = 0#32 then none else some (word - 1#32)

def containsByShift? (mask : ChannelMask) (channel : Nat) : Option Bool :=
  if channel < maxChannelCount then
    (shifted? 1#32 channel).map fun bit => mask.bits &&& bit != 0#32
  else some false

def singleByShift? (channel : Nat) : Option (Except RequestError ChannelMask) :=
  if maxChannelCount ≤ channel then some (.error (.channelOutOfRange channel))
  else (shifted? 1#32 channel).map fun bit => .ok ⟨bit⟩

/-- The mask of the bits below the one that is shifted to the place of a channel. There is no such
place behind the last channel. -/
def firstChannelsByShift? (count : Nat) : Option (Except RequestError ChannelMask) :=
  if count = 0 then some (.error (.channelCountOutOfRange count))
  else if count = maxChannelCount then some (.ok all)
  else if count < maxChannelCount then
    ((shifted? 1#32 count).bind lowered?).map fun bits => .ok ⟨bits⟩
  else some (.error (.channelCountOutOfRange count))

theorem shifted?_of_lt {places : Nat} (h : places < maxChannelCount) (word : BitVec 32) :
    shifted? word places = some (word <<< places) := if_pos h

theorem containsByShift?_eq (mask : ChannelMask) (channel : Nat) :
    mask.containsByShift? channel = some (mask.contains channel) := by
  unfold containsByShift?
  by_cases h : channel < maxChannelCount
  · have hbit : 1#32 <<< channel = BitVec.twoPow 32 channel := rfl
    have hne : BitVec.twoPow 32 channel ≠ 0#32 := by
      intro hzero
      have := congrArg (BitVec.getLsbD · channel) hzero
      simp [BitVec.getLsbD_twoPow] at this
      exact absurd h (Nat.not_lt.mpr this)
    rw [if_pos h, shifted?_of_lt h, Option.map_some, hbit, BitVec.and_twoPow, contains]
    split
    next hset => simp [hset, hne]
    next hset => simp [hset]
  · rw [if_neg h, Bool.eq_false_iff.mpr (mt lt_of_contains h)]

theorem singleByShift?_eq (channel : Nat) : singleByShift? channel = some (single channel) := by
  unfold singleByShift? single
  by_cases h : channel < maxChannelCount
  · rw [if_neg (Nat.not_le.mpr h), if_pos h, shifted?_of_lt h, Option.map_some]
  · rw [if_pos (Nat.le_of_not_lt h), if_neg h]

/-- The bits below a bit are the first ones, and there is a bit to take them from. -/
theorem lowered?_shifted {count : Nat} (h : count < maxChannelCount) :
    lowered? (1#32 <<< count) = some (BitVec.allOnes 32 >>> (maxChannelCount - count)) := by
  revert count
  decide

theorem firstChannelsByShift?_eq (count : Nat) :
    firstChannelsByShift? count = some (firstChannels count) := by
  unfold firstChannelsByShift?
  by_cases hzero : count = 0
  · rw [if_pos hzero, firstChannels, if_pos (.inl hzero)]
  rw [if_neg hzero]
  rcases Nat.lt_trichotomy count maxChannelCount with h | rfl | h
  · rw [if_neg (by omega), if_pos h, shifted?_of_lt h, Option.bind_some, lowered?_shifted h,
      firstChannels_eq_ok (by omega) (by omega)]
    rfl
  · rfl
  · rw [if_neg (by omega), if_neg (by omega), firstChannels, if_pos (.inr h)]

/-! ## Faithfulness -/

/-- A list of channels that stands for a mask in every respect. -/
structure Lists (mask : ChannelMask) (channels : List Nat) : Prop where
  contains_iff : ∀ channel, mask.contains channel = true ↔ channel ∈ channels
  ascending : channels.Pairwise (· < ·)
  lt : ∀ channel ∈ channels, channel < maxChannelCount
  length_eq : channels.length = mask.channelCount
  isEmpty_iff : mask.isEmpty = true ↔ channels = []
  union_eq : ∃ masks, channels.mapM single = .ok masks ∧ union masks = mask

theorem lists_channels (mask : ChannelMask) : mask.Lists mask.channels where
  contains_iff _ := mem_channels_iff.symm
  ascending := mask.pairwise_channels
  lt _ h := lt_of_contains (mem_channels_iff.mp h)
  length_eq := mask.length_channels
  isEmpty_iff := isEmpty_iff
  union_eq := union_singles (fun _ h => lt_of_contains (mem_channels_iff.mp h))
    fun _ => mem_channels_iff.symm

/-- A mask is just the set of its channels. Masks of one channel and of the first channels are made
for all numbers of channels that there are, and are the sets that they should be. Nothing is
shifted by the width of a word or by more. -/
theorem channels_faithful (mask : ChannelMask) (n : UInt64) :
    mask.Lists mask.channels ∧
    (∀ other : ChannelMask, other.channels = mask.channels ↔ other = mask) ∧
    (if n.toNat < 32 then ∃ m, single n.toNat = .ok m ∧ m.channels = [n.toNat]
      else single n.toNat = .error (.channelOutOfRange n.toNat)) ∧
    (if 1 ≤ n.toNat ∧ n.toNat ≤ 32 then
      ∃ m, firstChannels n.toNat = .ok m ∧ m.channels = List.range n.toNat ∧
        ∃ masks, (ChannelMode.perChannel n).masks = .ok masks ∧ union masks = m
      else firstChannels n.toNat = .error (.channelCountOutOfRange n.toNat)) ∧
    mask.containsByShift? n.toNat = some (mask.contains n.toNat) ∧
    singleByShift? n.toNat = some (single n.toNat) ∧
    firstChannelsByShift? n.toNat = some (firstChannels n.toNat) := by
  refine ⟨mask.lists_channels, fun other => channels_inj, ?_, ?_, mask.containsByShift?_eq _,
    singleByShift?_eq _, firstChannelsByShift?_eq _⟩
  · split
    next h => exact ⟨_, if_pos h, channels_single h⟩
    next h => exact if_neg h
  · split
    next h =>
      have hle : n.toNat ≤ maxChannelCount := h.2
      have hcontains : ∀ channel, contains ⟨BitVec.allOnes 32 >>> (maxChannelCount - n.toNat)⟩
          channel = true ↔ channel ∈ List.range n.toNat := fun channel => by
        rw [contains_firstChannels hle, decide_eq_true_eq, List.mem_range]
      refine ⟨_, firstChannels_eq_ok h.1 hle, channels_eq List.pairwise_lt_range hcontains, ?_⟩
      obtain ⟨masks, hmasks, hunion⟩ := union_singles
        (fun channel hchannel => (List.mem_range.mp hchannel).trans_le hle) hcontains
      refine ⟨masks, ?_, hunion⟩
      rw [ChannelMode.masks, if_neg (Nat.not_lt.mpr hle), hmasks]
    next h =>
      refine if_pos ?_
      change _ ∨ 32 < _
      omega

end BankTrace.ChannelMask
