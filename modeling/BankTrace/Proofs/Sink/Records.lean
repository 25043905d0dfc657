import BankTrace.Proofs.World
import BankTrace.Sink

/-!
# Sinks that record

A sink that records puts what it takes behind what it holds. It may refuse at any time, and nothing
is known of what it holds after that, but it stays the sink it was.
-/

namespace BankTrace

open World (run)

variable {m : Type → Type} [Monad m] {W : Type} [World m W] {σ : Type} [Sink m σ]

variable (m) in
/-- Sinks that stay valid whatever happens and put the bytes they take behind those they hold. -/
structure Sink.Records (Valid : σ → W → Prop) (content : σ → W → ByteArray) : Prop where
  write {s w} (bytes : ByteArray) : Valid s w → ∃ result s' w',
    run (Sink.write (m := m) s bytes) w = ((result, s'), w') ∧ Valid s' w' ∧
      ∀ count, result = .ok count → count ≤ bytes.size ∧
        content s' w' = content s w ++ bytes.extract 0 count
  flush {s w} : Valid s w → ∃ result s' w',
    run (Sink.flush (m := m) s) w = ((result, s'), w') ∧ Valid s' w' ∧
      (result = .ok () → content s' w' = content s w)

variable {Valid : σ → W → Prop} {content : σ → W → ByteArray}

/-! ## Offering bytes -/

theorem Sink.Records.offerWithin (h : Sink.Records m Valid content) (rounds : Nat) {s : σ} {w : W}
    (bytes : ByteArray) (hrounds : bytes.size ≤ rounds) (hvalid : Valid s w) :
    ∃ result left s' w',
      run (Sink.offerWithin (m := m) rounds s bytes) w = ((result, left, s'), w') ∧ Valid s' w' ∧
        (result = .ok () → left = .empty ∧ content s' w' = content s w ++ bytes) := by
  induction rounds generalizing s w bytes with
  | zero =>
      obtain rfl := ByteArray.size_eq_zero_iff.mp (Nat.le_zero.mp hrounds)
      exact ⟨.ok (), .empty, s, w, World.run_offerWithin_empty 0 s w, hvalid, by simp⟩
  | succ rounds ih =>
      by_cases hsize : bytes.size = 0
      · obtain rfl := ByteArray.size_eq_zero_iff.mp hsize
        exact ⟨.ok (), .empty, s, w, World.run_offerWithin_empty _ s w, hvalid, by simp⟩
      obtain ⟨result, s', w', hwrite, hvalid', hok⟩ := h.write bytes hvalid
      by_cases hrefused : result = .ok 0 ∨ ∃ e, result = .error e
      · obtain ⟨e, hrun⟩ := World.run_offerWithin_refused rounds hsize hwrite hrefused
        exact ⟨.error e, bytes, s', w', hrun, hvalid', by simp⟩
      · obtain ⟨count, rfl⟩ : ∃ count, result = .ok (count + 1) := by
          rcases result with e | _ | count
          · exact absurd (.inr ⟨e, rfl⟩) hrefused
          · exact absurd (.inl rfl) hrefused
          · exact ⟨count, rfl⟩
        have hrest : (bytes.extract (count + 1) bytes.size).size ≤ rounds := by
          simp only [ByteArray.size_extract]
          omega
        obtain ⟨result, left, s'', w'', hrun, hvalid'', hok'⟩ :=
          ih (bytes.extract (count + 1) bytes.size) hrest hvalid'
        refine ⟨result, left, s'', w'',
          (World.run_offerWithin_taken rounds hsize hwrite).trans hrun, hvalid'', fun hresult => ?_⟩
        obtain ⟨hleft, hcontent⟩ := hok' hresult
        obtain ⟨hle, hfirst⟩ := hok _ rfl
        refine ⟨hleft, ?_⟩
        rw [hcontent, hfirst, ByteArray.append_assoc,
          ← ByteArray.extract_eq_extract_append_extract (count + 1) (by omega) hle,
          ByteArray.extract_zero_size]

theorem Sink.Records.offer (h : Sink.Records m Valid content) {s : σ} {w : W}
    (bytes : ByteArray) (hvalid : Valid s w) :
    ∃ result left s' w',
      run (Sink.offer (m := m) s bytes) w = ((result, left, s'), w') ∧ Valid s' w' ∧
        (result = .ok () → left = .empty ∧ content s' w' = content s w ++ bytes) :=
  h.offerWithin bytes.size bytes le_rfl hvalid

/-! ## Collecting bytes -/

namespace Buffered

/-- What a collecting sink holds: the bytes passed on and behind them those that were not. -/
def contentOf (content : σ → W → ByteArray) (b : Buffered σ) (w : W) : ByteArray :=
  content b.inner w ++ b.pending

theorem passOn_records (h : Sink.Records m Valid content) (b : Buffered σ) {w : W}
    (hvalid : Valid b.inner w) :
    ∃ result b' w', run (b.passOn (m := m)) w = ((result, b'), w') ∧ Valid b'.inner w' ∧
      (result = .ok () →
        b'.pending = .empty ∧ content b'.inner w' = contentOf content b w) := by
  obtain ⟨result, left, s', w', hrun, hvalid', hok⟩ := h.offer b.pending hvalid
  exact ⟨result, ⟨s', left⟩, w', by simp [passOn, hrun], hvalid', hok⟩

/-- Bytes may be collected behind others as long as they are collected and not passed by. -/
theorem collect_records (h : Sink.Records m Valid content) (b : Buffered σ) (bytes : ByteArray)
    {w : W} (hvalid : Valid b.inner w)
    (hpending : capacity ≤ bytes.size → b.pending = .empty) :
    ∃ result b' w', run (b.collect (m := m) bytes) w = ((result, b'), w') ∧ Valid b'.inner w' ∧
      ∀ count, result = .ok count → count ≤ bytes.size ∧
        contentOf content b' w' = contentOf content b w ++ bytes.extract 0 count := by
  by_cases hlarge : capacity ≤ bytes.size
  · obtain ⟨result, s', w', hrun, hvalid', hok⟩ := h.write bytes hvalid
    refine ⟨result, { b with inner := s' }, w', by simp [collect, hlarge, hrun], hvalid',
      fun count hresult => ?_⟩
    obtain ⟨hle, hcontent⟩ := hok count hresult
    exact ⟨hle, by simp [contentOf, hpending hlarge, hcontent]⟩
  · refine ⟨.ok bytes.size, ⟨b.inner, b.pending ++ bytes⟩, w, by simp [collect, hlarge], hvalid,
      fun count hresult => ?_⟩
    obtain rfl := Except.ok.inj hresult
    exact ⟨le_rfl, by simp [contentOf, ByteArray.append_assoc]⟩

theorem flush_records (h : Sink.Records m Valid content) (b : Buffered σ) {w : W}
    (hvalid : Valid b.inner w) :
    ∃ result b' w', run (Sink.flush (m := m) b) w = ((result, b'), w') ∧ Valid b'.inner w' ∧
      (result = .ok () →
        b'.pending = .empty ∧ content b'.inner w' = contentOf content b w) := by
  obtain ⟨result, b', w', hrun, hvalid', hok⟩ := b.passOn_records h hvalid
  cases result with
  | error e => exact ⟨.error e, b', w', by simp [Sink.flush, flush, hrun], hvalid', by simp⟩
  | ok _ =>
      obtain ⟨hpending, hcontent⟩ := hok rfl
      obtain ⟨result, s', w'', hrun', hvalid'', hok'⟩ := h.flush hvalid'
      refine ⟨result, { b' with inner := s' }, w'', by simp [Sink.flush, flush, hrun, hrun'],
        hvalid'', fun hresult => ⟨hpending, ?_⟩⟩
      rw [hok' hresult, hcontent]

theorem records (h : Sink.Records m Valid content) :
    Sink.Records m (fun (b : Buffered σ) w => Valid b.inner w) (contentOf content) where
  write {b w} bytes hvalid := by
    by_cases hfits : b.pending.size + bytes.size ≤ capacity
    · have hpending : capacity ≤ bytes.size → b.pending = .empty := by
        intro hlarge
        exact ByteArray.size_eq_zero_iff.mp (by omega)
      obtain ⟨result, b', w', hrun, hvalid', hok⟩ := b.collect_records h bytes hvalid hpending
      exact ⟨result, b', w', by simp [Sink.write, write, hfits, hrun], hvalid', hok⟩
    · obtain ⟨result, b', w', hrun, hvalid', hok⟩ := b.passOn_records h hvalid
      cases result with
      | error e =>
          exact ⟨.error e, b', w', by simp [Sink.write, write, hfits, hrun], hvalid', by simp⟩
      | ok _ =>
          obtain ⟨hpending, hcontent⟩ := hok rfl
          obtain ⟨result, b'', w'', hrun', hvalid'', hok'⟩ :=
            b'.collect_records h bytes hvalid' fun _ => hpending
          refine ⟨result, b'', w'', by simp [Sink.write, write, hfits, hrun, hrun'], hvalid'',
            fun count hresult => ?_⟩
          obtain ⟨hle, hcontent'⟩ := hok' count hresult
          refine ⟨hle, ?_⟩
          rw [hcontent', contentOf, hpending, ByteArray.append_empty, hcontent]
  flush {b w} hvalid := by
    obtain ⟨result, b', w', hrun, hvalid', hok⟩ := b.flush_records h hvalid
    refine ⟨result, b', w', hrun, hvalid', fun hresult => ?_⟩
    obtain ⟨hpending, hcontent⟩ := hok hresult
    rw [contentOf, hpending, ByteArray.append_empty, hcontent]

end Buffered

end BankTrace
