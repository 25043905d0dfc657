import BankTrace.Proofs.Traversal.Position

/-!
# The requests of a configuration

The trace of a configuration as four nested loops over lists, and the closed form of its entries.
A traversal gives these entries one by one, however many are pulled at a time.
-/

namespace BankTrace

/-! ## Lists made of pieces of one length -/

theorem getElem?_flatMap_of_length {α β : Type} {xs : List α} {f : α → List β} {k : Nat}
    (hk : 0 < k) (h : ∀ a ∈ xs, (f a).length = k) (i : Nat) :
    (xs.flatMap f)[i]? = xs[i / k]?.bind fun a => (f a)[i % k]? := by
  induction xs generalizing i with
  | nil => simp
  | cons x xs ih =>
      have hx : (f x).length = k := h x (by simp)
      rw [List.flatMap_cons]
      by_cases hi : i < k
      · rw [List.getElem?_append_left (by omega), Nat.div_eq_of_lt hi, Nat.mod_eq_of_lt hi]
        rfl
      · obtain ⟨j, rfl⟩ := Nat.exists_eq_add_of_le (Nat.le_of_not_lt hi)
        rw [List.getElem?_append_right (by omega), hx, Nat.add_sub_cancel_left,
          ih (fun a ha => h a (by simp [ha])), Nat.add_div_left _ hk, Nat.add_mod_left]
        rfl

theorem length_flatMap_of_length {α β : Type} {xs : List α} {f : α → List β} {k : Nat}
    (h : ∀ a ∈ xs, (f a).length = k) : (xs.flatMap f).length = xs.length * k := by
  induction xs with
  | nil => simp
  | cons x xs ih =>
      rw [List.flatMap_cons, List.length_append, h x (by simp),
        ih fun a ha => h a (by simp [ha]), List.length_cons, Nat.succ_mul, Nat.add_comm]

/-- Two nested loops over counters, each pass of the inner one making `k` entries. -/
theorem getElem?_flatMap_range {α : Type} {outer inner k : Nat} {f : Nat → Nat → List α}
    (hk : 0 < k) (hf : ∀ a b, (f a b).length = k) {i : Nat} (hi : i / k < outer * inner) :
    ((List.range outer).flatMap fun a => (List.range inner).flatMap (f a))[i]? =
      (f (i / k / inner) (i / k % inner))[i % k]? := by
  have hinner : 0 < inner := Nat.pos_of_mul_pos_left (Nat.zero_lt_of_lt hi)
  have hpass (a : Nat) : ((List.range inner).flatMap (f a)).length = inner * k := by
    rw [length_flatMap_of_length fun b _ => hf a b, List.length_range]
  have houter : i / (inner * k) < outer := by
    rw [Nat.mul_comm, ← Nat.div_div_eq_div_mul, Nat.div_lt_iff_lt_mul hinner]
    exact hi
  rw [getElem?_flatMap_of_length (Nat.mul_pos hinner hk) fun a _ => hpass a,
    List.getElem?_range houter, Option.bind_some,
    getElem?_flatMap_of_length hk fun b _ => hf _ b, Nat.mod_mul_left_div_self,
    Nat.mod_mul_left_mod, List.getElem?_range (Nat.mod_lt _ hinner), Option.bind_some,
    Nat.div_div_eq_div_mul, Nat.mul_comm k inner]

namespace Config

/-! ## Nested loops -/

variable (c : Config)

def leaf (row : Nat) (bank : UInt16) (channels : ChannelMask) : Request where
  opcode := c.opcode
  operandSize := c.operandSize
  channels := channels
  bank := bank
  row := UInt32.ofNat row

/-- The requests of one visit of a row: its banks in order, and the masks of each bank. -/
def pass (row : Nat) : List Request :=
  c.bankOrder.flatMap fun bank => c.channelMode.maskList.map (c.leaf row bank)

def requests : List Request :=
  match c.loopOrder with
  | .rowColumnBank =>
      (List.range c.rowCount.toNat).flatMap fun row =>
        (List.range c.visitCount).flatMap fun _ => c.pass row
  | .burstGroup =>
      (List.range c.visitCount).flatMap fun _ =>
        (List.range c.rowCount.toNat).flatMap c.pass

def instructions : List Instruction := c.requests.map .data ++ [.eoc]

/-- What the request with a number is like: its mask changes fastest, then its bank. -/
structure IsRequestAt (i : Nat) (r : Request) : Prop where
  opcode : r.opcode = c.opcode
  operandSize : r.operandSize = c.operandSize
  channels : c.channelMode.maskList[i % c.channelMode.maskList.length]? = some r.channels
  bank : c.bankOrder[i / c.channelMode.maskList.length % c.bankOrder.length]? = some r.bank
  row : r.row.toNat = match c.loopOrder with
    | .rowColumnBank =>
        i / (c.channelMode.maskList.length * c.bankOrder.length * c.burstCount.toNat)
    | .burstGroup =>
        i / (c.channelMode.maskList.length * c.bankOrder.length) % c.rowCount.toNat

theorem length_pass (row : Nat) :
    (c.pass row).length = c.bankOrder.length * c.channelMode.requestCount := by
  rw [pass, length_flatMap_of_length (k := c.channelMode.requestCount)]
  intro bank hbank
  simp

theorem length_requests : c.requests.length = c.lineCount := by
  cases horder : c.loopOrder with
  | rowColumnBank =>
      simp only [requests, horder]
      rw [length_flatMap_of_length fun row _ =>
        length_flatMap_of_length fun _ _ => c.length_pass row]
      simp only [List.length_range, lineCount]
      ring
  | burstGroup =>
      simp only [requests, horder]
      rw [length_flatMap_of_length fun _ _ =>
        length_flatMap_of_length fun row _ => c.length_pass row]
      simp only [List.length_range, lineCount]
      ring

theorem length_instructions : c.instructions.length = c.lineCount + 1 := by
  rw [instructions, List.length_append, List.length_map, length_requests]
  rfl

def sweep : Sweep where
  opcode := c.opcode
  operandSize := c.operandSize
  loopOrder := c.loopOrder
  rowCount := c.rowCount.toNat
  visitCount := c.visitCount
  banks := c.bankOrder
  masks := c.channelMode.maskList

@[simp] theorem requestTotal_sweep : c.sweep.requestTotal = c.lineCount := by
  simp [Sweep.requestTotal, sweep, lineCount]

variable {c}

theorem IsValid.hasRequests (h : c.IsValid) : c.sweep.hasRequests = true := by
  rw [Sweep.hasRequests_iff]
  refine ⟨h.rowCount_pos, h.visitCount_pos, List.length_pos_iff.mpr h.banks_ne_nil, ?_⟩
  rw [sweep, ChannelMode.length_maskList]
  exact h.channelMode.requestCount_pos

theorem IsValid.ofConfig (h : c.IsValid) :
    Traversal.ofConfig c = .ok (.ofSweep c.sweep c.lineCount) := by
  simp only [Traversal.ofConfig, (validate_eq_ok_iff c).mpr h, h.dataLineCount?,
    h.channelMode.masks]
  rfl

theorem ofConfig_of_validate_eq_error {e : ConfigError} (h : c.validate = .error e) :
    Traversal.ofConfig c = .error (.config e) := by
  simp only [Traversal.ofConfig, h]
  rfl

/-! ## The entries of the loops -/

theorem pass_getElem? (h : c.IsValid) (row i : Nat) :
    (c.pass row)[i % (c.sweep.banks.length * c.sweep.masks.length)]? =
      some (c.leaf row (c.sweep.banks.getD (i / c.sweep.masks.length % c.sweep.banks.length) 0)
        (c.sweep.masks.getD (i % c.sweep.masks.length) .all)) := by
  obtain ⟨-, -, hbanks, hmasks⟩ := (Sweep.hasRequests_iff c.sweep).mp h.hasRequests
  have hlength : ∀ bank ∈ c.sweep.banks, (c.sweep.masks.map (c.leaf row bank)).length =
      c.sweep.masks.length := by simp
  have hbank := Nat.mod_lt (i / c.sweep.masks.length) hbanks
  have hmask := Nat.mod_lt i hmasks
  change (c.sweep.banks.flatMap fun bank => c.sweep.masks.map (c.leaf row bank))[_]? = _
  rw [getElem?_flatMap_of_length hmasks hlength, Nat.mod_mul_left_div_self, Nat.mod_mul_left_mod,
    List.getElem?_eq_getElem hbank, Option.bind_some, List.getElem?_map,
    List.getElem?_eq_getElem hmask]
  simp [hbank, hmask]

/-- The two outer loops run through the rows of the passes. -/
theorem requests_getElem?_eq_pass (h : c.IsValid) {i : Nat} (hi : i < c.lineCount) :
    c.requests[i]? =
      (c.pass (c.sweep.rowOfPass (i / c.sweep.masks.length / c.sweep.banks.length)))[
        i % (c.sweep.banks.length * c.sweep.masks.length)]? := by
  obtain ⟨-, -, hbanks, hmasks⟩ := (Sweep.hasRequests_iff c.sweep).mp h.hasRequests
  have hpassPos := Nat.mul_pos hbanks hmasks
  have hpass (row : Nat) : (c.pass row).length = c.sweep.banks.length * c.sweep.masks.length := by
    simpa [sweep] using c.length_pass row
  have htotal : i / (c.sweep.banks.length * c.sweep.masks.length) <
      c.visitCount * c.rowCount.toNat := by
    rw [Nat.div_lt_iff_lt_mul hpassPos, ← Nat.mul_assoc]
    simpa [lineCount, sweep] using hi
  rw [Nat.div_div_eq_div_mul, Nat.mul_comm c.sweep.masks.length, requests]
  cases horder : c.loopOrder with
  | rowColumnBank =>
      rw [Nat.mul_comm c.visitCount] at htotal
      dsimp only
      rw [getElem?_flatMap_range hpassPos (fun row _ => hpass row) htotal]
      simp [Sweep.rowOfPass, sweep, horder]
  | burstGroup =>
      dsimp only
      rw [getElem?_flatMap_range hpassPos (fun _ row => hpass row) htotal]
      simp [Sweep.rowOfPass, sweep, horder]

/-- The entry with a number is the request at the counters with that number. -/
theorem requests_getElem? (h : c.IsValid) {i : Nat} (hi : i < c.lineCount) :
    c.requests[i]? = some (c.sweep.request (c.sweep.countersAt i)) := by
  rw [requests_getElem?_eq_pass h hi, pass_getElem? h]
  rfl

theorem instructions_getElem? (h : c.IsValid) (i : Nat) :
    c.instructions[i]? = c.sweep.instruction? i := by
  have hlength : (c.requests.map Instruction.data).length = c.lineCount := by
    rw [List.length_map, length_requests]
  rw [instructions, Sweep.instruction?, requestTotal_sweep]
  rcases Nat.lt_trichotomy i c.lineCount with hi | rfl | hi
  · rw [List.getElem?_append_left (by omega), List.getElem?_map, requests_getElem? h hi, if_pos hi]
    rfl
  · rw [List.getElem?_append_right (by omega), hlength]
    simp
  · rw [if_neg (by omega), if_neg (by omega), List.getElem?_eq_none]
    simp only [List.length_append, hlength, List.length_singleton]
    omega

/-- What a pull gives is an entry of the loops, and nothing behind the last one. -/
theorem item?_ofSweep_sweep (h : c.IsValid) (i : Nat) :
    (Traversal.ofSweep c.sweep c.lineCount).item? i = c.instructions[i]? := by
  rw [Traversal.item?_ofSweep h.hasRequests, instructions_getElem? h]

/-! ## The closed form -/

theorem isRequestAt_countersAt (h : c.IsValid) {i : Nat} (hi : i < c.lineCount) :
    c.IsRequestAt i (c.sweep.request (c.sweep.countersAt i)) := by
  obtain ⟨-, -, hbanks, hmasks⟩ := (Sweep.hasRequests_iff c.sweep).mp h.hasRequests
  have hbank := Nat.mod_lt (i / c.sweep.masks.length) hbanks
  have hmask := Nat.mod_lt i hmasks
  have hpass : i / c.sweep.masks.length / c.sweep.banks.length <
      c.sweep.visitCount * c.sweep.rowCount := by
    rw [Nat.div_lt_iff_lt_mul hbanks, Nat.div_lt_iff_lt_mul hmasks]
    simpa [lineCount, sweep] using hi
  have hrow : c.sweep.rowOfPass (i / c.sweep.masks.length / c.sweep.banks.length) <
      UInt32.size := by
    exact (Sweep.rowOfPass_lt h.hasRequests hpass).trans c.rowCount.toNat_lt_size
  refine ⟨rfl, rfl, ?_, ?_, ?_⟩
  · change c.sweep.masks[i % c.sweep.masks.length]? = some (c.sweep.masks.getD _ .all)
    simp [Sweep.countersAt, hmask]
  · change c.sweep.banks[i / c.sweep.masks.length % c.sweep.banks.length]? =
      some (c.sweep.banks.getD _ 0)
    simp [Sweep.countersAt, hbank]
  · change (UInt32.ofNat (c.sweep.rowOfPass _)).toNat = _
    rw [UInt32.toNat_ofNat_of_lt' hrow]
    cases horder : c.loopOrder with
    | rowColumnBank => simp [Sweep.rowOfPass, sweep, horder, visitCount, Nat.div_div_eq_div_mul]
    | burstGroup => simp [Sweep.rowOfPass, sweep, horder, Nat.div_div_eq_div_mul]

/-- Pulled one by one or in batches, a valid configuration gives each request at its place in the
closed form, then the sentinel, then nothing for ever. -/
theorem ofConfig_items (c : Config) (h : c.validate = .ok ()) :
    let n := c.visitCount * c.rowCount.toNat * c.bankOrder.length * c.channelMode.maskList.length
    ∃ t, Traversal.ofConfig c = .ok t ∧ t.dataLength = n ∧ n < 2 ^ 64 ∧
      (∀ i < n, ∃ request, t.item? i = some (.data request) ∧ c.IsRequestAt i request) ∧
      t.item? n = some .eoc ∧ (∀ i, n < i → t.item? i = none) ∧
      ∀ counts, t.batches counts = Traversal.cut t.item? 0 counts := by
  intro n
  have hvalid := (validate_eq_ok_iff c).mp h
  have hn : n = c.lineCount := by simp [n, lineCount]
  have hitem := Traversal.item?_ofSweep hvalid.hasRequests c.lineCount
  rw [hn]
  refine ⟨_, hvalid.ofConfig, rfl, hvalid.lineCount_lt, ?_, ?_, ?_, ?_⟩
  · intro i hi
    refine ⟨_, ?_, isRequestAt_countersAt hvalid hi⟩
    rw [hitem, Sweep.instruction?, requestTotal_sweep, if_pos hi]
  · rw [hitem, Sweep.instruction?, requestTotal_sweep]
    simp
  · intro i hi
    rw [hitem, Sweep.instruction?, requestTotal_sweep, if_neg (by omega), if_neg (by omega)]
  · exact Traversal.batches_eq_cut _

theorem ofConfig_items_groups :
    let c : Config :=
      { output := ⟨[0x74]⟩, rowCount := 2, burstCount := 4, bankOrder := [0, 4],
        channelMode := .perChannel 3, loopOrder := .burstGroup, opcode := .readBank,
        operandSize := 2 }
    c.validate = .ok () ∧ ∃ t, Traversal.ofConfig c = .ok t ∧ t.dataLength = 24 ∧
      ∃ request, t.item? 17 = some (.data request) ∧ c.IsRequestAt 17 request := by
  intro c
  have hvalid : c.validate = .ok () := by decide
  obtain ⟨t, ht, hlength, -, hitems, -⟩ := ofConfig_items c hvalid
  exact ⟨hvalid, t, ht, hlength.trans (by decide), hitems 17 (by decide)⟩

end Config

end BankTrace
