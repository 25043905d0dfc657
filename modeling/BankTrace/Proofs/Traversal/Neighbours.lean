import BankTrace.Proofs.Traversal.Spacing

/-!
# Neighbours in one bank group

A channel that is sent around the banks meets neighbours in one bank group inside a round or where
one round ends and the next begins. Only the neighbours inside a round are warned of.
-/

namespace BankTrace

/-! ## Neighbours in a list -/

section

variable {α : Type} {R : α → α → Prop} {xs : List α} {rounds : Nat}

theorem isChain_iff_forall_infix : xs.IsChain R ↔ ∀ a b, [a, b] <:+: xs → R a b := by
  rw [List.isChain_iff_forall_rel_of_append_cons_cons]
  constructor
  · rintro h a b ⟨before, behind, rfl⟩
    exact @h a b before behind (by simp)
  · rintro h a b before behind rfl
    exact h a b ⟨before, behind, by simp⟩

theorem isChain_replicate_iff {a : α} : (List.replicate rounds a).IsChain R ↔
    (2 ≤ rounds → R a a) := by
  match rounds with
  | 0 => simp
  | 1 => simp
  | rounds + 2 =>
      refine ⟨fun h _ => ?_, fun h => List.isChain_replicate_of_rel _ (h (by omega))⟩
      rw [List.replicate_succ, List.replicate_succ, List.isChain_cons_cons] at h
      exact h.1

/-- Going around a list makes neighbours of its last element and its first one. -/
theorem isChain_flatten_replicate_iff (hne : xs ≠ []) (hrounds : 0 < rounds) :
    (List.replicate rounds xs).flatten.IsChain R ↔
      xs.IsChain R ∧ (2 ≤ rounds → ∀ last ∈ xs.getLast?, ∀ first ∈ xs.head?, R last first) := by
  rw [List.isChain_flatten (by simp [List.mem_replicate, hne.symm]), isChain_replicate_iff]
  simp [List.mem_replicate, hrounds.ne']

end

/-! ## Warnings -/

namespace Traversal

variable {c : Config} {banks : List UInt16} {first second : UInt16}

theorem sharedGroup?_eq_none_iff : sharedGroup? banks = none ↔
    banks.IsChain fun first second => bankGroup first ≠ bankGroup second := by
  induction banks using sharedGroup?.induct with
  | case1 first second rest h => simp [sharedGroup?, h]
  | case2 first second rest h ih =>
      rw [sharedGroup?, if_neg h, ih, List.isChain_cons_cons]
      exact (and_iff_right h).symm
  | case3 banks hshort =>
      match banks with
      | [] | [_] => simp [sharedGroup?]
      | a :: b :: rest => exact absurd rfl (hshort a b rest)

theorem infix_of_sharedGroup? (h : sharedGroup? banks = some (first, second)) :
    [first, second] <:+: banks ∧ bankGroup first = bankGroup second := by
  induction banks using sharedGroup?.induct with
  | case1 a b rest hgroup =>
      rw [sharedGroup?, if_pos hgroup] at h
      obtain ⟨rfl, rfl⟩ := Prod.mk.inj (Option.some.inj h)
      exact ⟨(List.prefix_append [a, b] rest).isInfix, hgroup⟩
  | case2 a b rest hgroup ih =>
      rw [sharedGroup?, if_neg hgroup] at h
      obtain ⟨hbeside, hshared⟩ := ih h
      exact ⟨hbeside.trans (List.suffix_cons a _).isInfix, hshared⟩
  | case3 banks hshort => simp [sharedGroup?] at h

theorem groupShared_mem_announcement_iff (h : c.channelMode.IsValid) :
    .groupShared first second ∈ announcement c ↔
      sharedGroup? c.bankOrder = some (first, second) := by
  simp [announcement, h.masks]

def Warns (c : Config) : Prop := ∃ first second, .groupShared first second ∈ announcement c

theorem warns_iff (h : c.channelMode.IsValid) : Warns c ↔
    ¬ c.bankOrder.IsChain fun first second => bankGroup first ≠ bankGroup second := by
  simp only [Warns, groupShared_mem_announcement_iff h, ← sharedGroup?_eq_none_iff,
    ← Option.isSome_iff_ne_none, Option.isSome_iff_exists, Prod.exists]

end Traversal

/-! ## Requests -/

/-- Whether two requests to some channel, with no other to it between them, are to banks of one
bank group. -/
def SharesGroup (requests : List Request) : Prop :=
  ∃ channel a b, [a, b] <:+: sentTo channel requests ∧ bankGroup a.bank = bankGroup b.bank

theorem sharesGroup_iff {requests : List Request} : SharesGroup requests ↔
    ∃ channel, ¬ ((sentTo channel requests).map Request.bank).IsChain
      fun first second => bankGroup first ≠ bankGroup second := by
  simp only [List.isChain_map]
  simp only [SharesGroup, isChain_iff_forall_infix, not_forall, ne_eq, not_not, exists_prop]

theorem ChannelMode.IsValid.exists_selects {mode : ChannelMode} (h : mode.IsValid) :
    ∃ channel, mode.selects channel = true := by
  cases mode with
  | perChannel count => exact ⟨0, by simpa [selects] using h.1⟩
  | broadcast mask =>
      have hchannels : mask.channels ≠ [] := by
        rw [ne_eq, ← ChannelMask.isEmpty_iff, ChannelMask.isEmpty, beq_iff_eq]
        exact h
      obtain ⟨channel, hchannel⟩ := List.exists_mem_of_ne_nil _ hchannels
      exact ⟨channel, ChannelMask.mem_channels_iff.mp hchannel⟩

namespace Config

variable {c : Config}

/-- Whether the last bank of a round and the first one of the next round are in one bank group. -/
def SharesAround (c : Config) : Prop :=
  2 ≤ c.visitCount * c.rowCount.toNat ∧
    ∃ last ∈ c.bankOrder.getLast?, ∃ first ∈ c.bankOrder.head?, bankGroup last = bankGroup first

theorem sharesAround_iff : c.SharesAround ↔
    ¬ (2 ≤ c.visitCount * c.rowCount.toNat → ∀ last ∈ c.bankOrder.getLast?,
      ∀ first ∈ c.bankOrder.head?, bankGroup last ≠ bankGroup first) := by
  simp only [SharesAround, ne_eq, not_forall, not_not, exists_prop]

theorem IsValid.sharesGroup_requests_iff (h : c.IsValid) :
    SharesGroup c.requests ↔ Traversal.Warns c ∨ c.SharesAround := by
  have hrounds : 0 < c.visitCount * c.rowCount.toNat := Nat.mul_pos h.visitCount_pos h.rowCount_pos
  have hselected {channel : Nat} (hchannel : c.channelMode.selects channel = true) :
      ¬ ((sentTo channel c.requests).map Request.bank).IsChain
        (fun first second => bankGroup first ≠ bankGroup second) ↔
      Traversal.Warns c ∨ c.SharesAround := by
    rw [map_bank_sentTo_requests h.channelMode hchannel,
      isChain_flatten_replicate_iff h.banks_ne_nil hrounds, not_and_or,
      Traversal.warns_iff h.channelMode, sharesAround_iff]
  rw [sharesGroup_iff]
  constructor
  · rintro ⟨channel, hshared⟩
    cases hchannel : c.channelMode.selects channel with
    | true => exact (hselected hchannel).mp hshared
    | false => simp [sentTo_requests_of_not_selects h.channelMode hchannel] at hshared
  · intro hshared
    obtain ⟨channel, hchannel⟩ := h.channelMode.exists_selects
    exact ⟨channel, (hselected hchannel).mpr hshared⟩

/-- Neighbours in a bank order are neighbours in what each selected channel is sent. -/
theorem IsValid.infix_sentTo_requests (h : c.IsValid) {channel : Nat}
    (hchannel : c.channelMode.selects channel = true) {first second : UInt16}
    (hbeside : [first, second] <:+: c.bankOrder) :
    ∃ a b, [a, b] <:+: sentTo channel c.requests ∧ a.bank = first ∧ b.bank = second := by
  have hrounds : 0 < c.visitCount * c.rowCount.toNat := Nat.mul_pos h.visitCount_pos h.rowCount_pos
  have hround : c.bankOrder <:+: (sentTo channel c.requests).map Request.bank := by
    rw [map_bank_sentTo_requests h.channelMode hchannel]
    exact List.infix_of_mem_flatten (List.mem_replicate.mpr ⟨hrounds.ne', rfl⟩)
  obtain ⟨pair, hpair, hbanks⟩ := List.infix_map_iff.mp (hbeside.trans hround)
  match pair, hbanks with
  | [a, b], hbanks =>
      simp only [List.map_cons, List.map_nil, List.cons.injEq, and_true] at hbanks
      exact ⟨a, b, hpair, hbanks.1.symm, hbanks.2.symm⟩

/-- A trace has requests to banks of one bank group back to back on some channel if it is warned of
or if one round of the banks goes over into the next within one bank group. What is warned of are
such banks, and each selected channel gets them back to back. -/
theorem traces_neighbours (c : Config) (h : c.validate = .ok ()) :
    ∃ xs, c.Traces xs ∧ (SharesGroup xs ↔ Traversal.Warns c ∨ c.SharesAround) ∧
      ∀ first second, .groupShared first second ∈ Traversal.announcement c →
        bankGroup first = bankGroup second ∧
        ∀ channel, c.channelMode.selects channel = true →
          ∃ a b, [a, b] <:+: sentTo channel xs ∧ a.bank = first ∧ b.bank = second := by
  have hvalid := (validate_eq_ok_iff c).mp h
  refine ⟨_, hvalid.traces, hvalid.sharesGroup_requests_iff, fun first second hwarned => ?_⟩
  obtain ⟨hbeside, hgroup⟩ := Traversal.infix_of_sharedGroup?
    ((Traversal.groupShared_mem_announcement_iff hvalid.channelMode).mp hwarned)
  exact ⟨hgroup, fun channel hchannel => hvalid.infix_sentTo_requests hchannel hbeside⟩

/-- One round of which two banks are warned of, one right behind the other. -/
theorem traces_neighbours_one_round :
    let c : Config :=
      { output := ⟨[0x74]⟩, rowCount := 1, burstCount := 1, bankOrder := [8, 4, 5] }
    c.validate = .ok () ∧ .groupShared 4 5 ∈ Traversal.announcement c ∧ ¬ c.SharesAround ∧
      ∃ xs, c.Traces xs ∧ SharesGroup xs ∧
        ∃ a b, [a, b] <:+: sentTo 31 xs ∧ a.bank = 4 ∧ b.bank = 5 := by
  intro c
  have h : c.validate = .ok () := by decide
  have hwarned : .groupShared 4 5 ∈ Traversal.announcement c := by decide
  have haround : ¬ c.SharesAround := fun haround => absurd haround.1 (by decide)
  obtain ⟨xs, hxs, hshares, hpairs⟩ := traces_neighbours c h
  exact ⟨h, hwarned, haround, xs, hxs, hshares.mpr (.inl ⟨4, 5, hwarned⟩),
    (hpairs 4 5 hwarned).2 31 (by decide)⟩

/-- Two rounds of banks whose neighbours are in different groups. The second round begins in the
group in which the first one ends, and no warning says so. -/
theorem sharesGroup_without_warning :
    let c : Config :=
      { output := ⟨[0x74]⟩, rowCount := 1, burstCount := 2, bankOrder := [0, 4, 1] }
    c.validate = .ok () ∧ ¬ Traversal.Warns c ∧ ∃ xs, c.Traces xs ∧ SharesGroup xs := by
  intro c
  have h : c.validate = .ok () := by decide
  have hvalid := (validate_eq_ok_iff c).mp h
  refine ⟨h, ?_, _, hvalid.traces, hvalid.sharesGroup_requests_iff.mpr (.inr ?_)⟩
  · rw [Traversal.warns_iff hvalid.channelMode]
    simp [c, bankGroup, bankGroupSize]
  · exact ⟨by decide, 1, rfl, 0, rfl, rfl⟩

end Config

end BankTrace
