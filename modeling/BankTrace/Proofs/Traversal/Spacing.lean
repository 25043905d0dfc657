import BankTrace.Proofs.Traversal.Channels
import Mathlib.Data.List.Rotate

/-!
# The spacing of banks

A channel is sent around the banks again and again, across the ends of bursts, rows and groups
alike, so that just as many requests as there are banks lie from one request to a bank to the next.
The rows a bank is visited with follow the outer two loops.
-/

namespace BankTrace

/-! ## Going around a list -/

section

variable {α : Type} (xs : List α) (rounds : Nat)

theorem getElem?_flatten_replicate {i : Nat} (hi : i < rounds * xs.length) :
    (List.replicate rounds xs).flatten[i]? = xs[i % xs.length]? := by
  have hpos : 0 < xs.length := Nat.pos_of_mul_pos_left (Nat.zero_lt_of_lt hi)
  have hround : i / xs.length < rounds := Nat.div_lt_of_lt_mul (Nat.mul_comm _ _ ▸ hi)
  rw [← List.flatMap_id, getElem?_flatMap_of_length hpos fun round hround => ?_]
  · rw [List.getElem?_replicate, if_pos hround]
    rfl
  · rw [List.eq_of_mem_replicate hround, id]

/-- A window of the length of the list starts anywhere in it and goes around to there. -/
theorem take_drop_flatten_replicate {start : Nat} (h : start + xs.length ≤ rounds * xs.length) :
    ((List.replicate rounds xs).flatten.drop start).take xs.length = xs.rotate start := by
  refine List.ext_getElem? fun i => ?_
  rw [List.getElem?_take]
  by_cases hi : i < xs.length
  · rw [if_pos hi, List.getElem?_drop, getElem?_flatten_replicate xs rounds (by omega),
      List.getElem?_rotate hi, Nat.add_comm]
  · rw [if_neg hi, List.getElem?_eq_none (by simpa using hi)]

theorem flatMap_range_const :
    (List.range rounds).flatMap (fun _ => xs) = (List.replicate rounds xs).flatten := by
  rw [List.flatMap_def, List.map_const', List.length_range]

theorem flatten_replicate_flatten (count : Nat) :
    (List.replicate rounds (List.replicate count xs).flatten).flatten =
      (List.replicate (rounds * count) xs).flatten := by
  induction rounds with
  | zero => simp
  | succ rounds ih =>
      rw [List.replicate_succ, List.flatten_cons, ih, Nat.add_mul, Nat.one_mul, Nat.add_comm,
        List.replicate_add, List.flatten_append]

end

namespace Config

variable {c : Config}

/-! ## The banks a channel is sent to -/

theorem loops_const {α : Type} (c : Config) (given : List α) :
    c.loops (fun _ => given) =
      (List.replicate (c.visitCount * c.rowCount.toNat) given).flatten := by
  cases horder : c.loopOrder with
  | rowColumnBank =>
      simp only [loops, horder, flatMap_range_const, flatten_replicate_flatten, Nat.mul_comm]
  | burstGroup => simp only [loops, horder, flatMap_range_const, flatten_replicate_flatten]

/-- A selected channel is sent around the banks, once for each row of each visit. -/
theorem map_bank_sentTo_requests (h : c.channelMode.IsValid) {channel : Nat}
    (hselected : c.channelMode.selects channel = true) :
    (sentTo channel c.requests).map Request.bank =
      (List.replicate (c.visitCount * c.rowCount.toNat) c.bankOrder).flatten := by
  have hwork := congrArg (List.map Work.bank) (map_work_sentTo_requests h channel)
  rw [if_pos hselected, map_loops, List.map_map] at hwork
  simp only [List.map_map, Function.comp_def, List.map_id', loops_const] at hwork
  exact hwork

/-- Between two requests of a channel to one bank lie whole rounds. -/
theorem IsValid.bank_eq_iff (h : c.IsValid) {channel : Nat}
    (hselected : c.channelMode.selects channel = true) {i j : Nat} {r r' : Request}
    (hr : (sentTo channel c.requests)[i]? = some r)
    (hr' : (sentTo channel c.requests)[j]? = some r') :
    r.bank = r'.bank ↔ i % c.bankOrder.length = j % c.bankOrder.length := by
  have hpos := List.length_pos_iff.mpr h.banks_ne_nil
  have hbank {i : Nat} {r : Request} (hr : (sentTo channel c.requests)[i]? = some r) :
      c.bankOrder[i % c.bankOrder.length]? = some r.bank := by
    have hmapped : ((sentTo channel c.requests).map Request.bank)[i]? = some r.bank := by
      rw [List.getElem?_map, hr]
      rfl
    rw [map_bank_sentTo_requests h.channelMode hselected] at hmapped
    obtain ⟨hi, -⟩ := List.getElem?_eq_some_iff.mp hmapped
    rwa [getElem?_flatten_replicate _ _ (by simpa using hi)] at hmapped
  obtain ⟨hi, hbanki⟩ := List.getElem?_eq_some_iff.mp (hbank hr)
  obtain ⟨hj, hbankj⟩ := List.getElem?_eq_some_iff.mp (hbank hr')
  rw [← hbanki, ← hbankj, h.banks_nodup.getElem_inj_iff]

/-! ## The rows a bank is visited with -/

/-- A channel is sent to a bank once a pass, so that the outer loops alone give the rows. -/
theorem IsValid.map_row_sentTo_bank (h : c.IsValid) {channel : Nat}
    (hselected : c.channelMode.selects channel = true) {bank : UInt16}
    (hbank : bank ∈ c.bankOrder) :
    ((sentTo channel c.requests).filter fun r => r.bank = bank).map (fun r => r.row.toNat) =
      c.loops fun row => [row] := by
  have hwork := congrArg
    (fun works => (works.filter fun w => w.bank = bank).map fun w => w.row.toNat)
    (map_work_sentTo_requests h.channelMode channel)
  simp only [if_pos hselected, filter_loops, map_loops, List.filter_map, List.map_map,
    Function.comp_def] at hwork
  refine hwork.trans (c.loops_congr fun row hrow => ?_)
  rw [List.filter_eq, h.banks_nodup.count, if_pos hbank]
  have hrow' : row < UInt32.size := hrow.trans c.rowCount.toNat_lt
  simpa using UInt32.toNat_ofNat_of_lt' hrow'

/-- On each selected channel of a valid configuration as many requests in a row as there are banks
go to each bank once, so that requests to one bank are whole rounds apart. A bank is asked for its
rows in order: each for all bursts in a row, or all rows once for each group of bursts. -/
theorem traces_spaced (c : Config) (h : c.validate = .ok ()) (channel : Nat)
    (hselected : c.channelMode.selects channel = true) :
    ∃ xs, c.Traces xs ∧
      (sentTo channel xs).length = c.visitCount * c.rowCount.toNat * c.bankOrder.length ∧
      (∀ start, start + c.bankOrder.length ≤ (sentTo channel xs).length →
        ((((sentTo channel xs).drop start).take c.bankOrder.length).map Request.bank).Perm
          c.bankOrder) ∧
      (∀ i j r r', (sentTo channel xs)[i]? = some r → (sentTo channel xs)[j]? = some r' →
        (r.bank = r'.bank ↔ i % c.bankOrder.length = j % c.bankOrder.length)) ∧
      ∀ bank ∈ c.bankOrder,
        ((sentTo channel xs).filter fun r => r.bank = bank).map (fun r => r.row.toNat) =
          match c.loopOrder with
          | .rowColumnBank =>
              (List.range c.rowCount.toNat).flatMap (List.replicate c.burstCount.toNat)
          | .burstGroup =>
              (List.replicate (c.burstCount.toNat / c.operandSize.toNat)
                (List.range c.rowCount.toNat)).flatten := by
  have hvalid := (validate_eq_ok_iff c).mp h
  have hbanks := map_bank_sentTo_requests hvalid.channelMode hselected
  have hlength : (sentTo channel c.requests).length =
      c.visitCount * c.rowCount.toNat * c.bankOrder.length := by
    simpa using congrArg List.length hbanks
  refine ⟨_, hvalid.traces, hlength, fun start hstart => ?_,
    fun i j r r' => hvalid.bank_eq_iff hselected, fun bank hbank => ?_⟩
  · rw [hlength] at hstart
    rw [List.map_take, List.map_drop, hbanks, take_drop_flatten_replicate _ _ hstart]
    exact List.rotate_perm _ _
  · rw [hvalid.map_row_sentTo_bank hselected hbank]
    cases horder : c.loopOrder with
    | rowColumnBank =>
        simp only [loops, horder, visitCount, flatMap_range_const, List.flatten_replicate_singleton]
    | burstGroup =>
        simp only [loops, horder, visitCount, burstGroups, List.flatMap_singleton',
          flatMap_range_const]

/-- Two groups of two rows. The window begins in the middle of a round and ends in the next row. -/
theorem traces_spaced_two_groups :
    let c : Config :=
      { output := ⟨[0x74]⟩, rowCount := 2, burstCount := 4, bankOrder := [4, 0, 9],
        channelMode := .perChannel 3, loopOrder := .burstGroup, operandSize := 2 }
    c.validate = .ok () ∧ c.channelMode.selects 2 = true ∧ ∃ xs, c.Traces xs ∧
      ((((sentTo 2 xs).drop 1).take 3).map Request.bank).Perm [4, 0, 9] ∧
      ((sentTo 2 xs).filter fun r => r.bank = 9).map (fun r => r.row.toNat) = [0, 1, 0, 1] := by
  intro c
  have h : c.validate = .ok () := by decide
  have hselected : c.channelMode.selects 2 = true := by decide
  obtain ⟨xs, hxs, hlength, hwindow, -, hrows⟩ := traces_spaced c h 2 hselected
  refine ⟨h, hselected, xs, hxs, hwindow 1 ?_, (hrows 9 (by decide)).trans (by decide)⟩
  rw [hlength]
  decide

end Config

end BankTrace
