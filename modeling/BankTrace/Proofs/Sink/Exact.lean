import BankTrace.Proofs.Sink.Limited

/-!
# Exact sinks

An exact sink holds the bytes it took and no others. It may take as few as it likes, and it may
refuse at any time and take more later: how much it takes is up to it, and is known only afterwards.
-/

namespace BankTrace

open World (run)

variable {m : Type → Type} [Monad m] {W : Type} [World m W] {σ : Type} [Sink m σ]

namespace Sink

def taken : Except IoError Nat → Nat
  | .ok count => count
  | .error _ => 0

variable (m) in
/-- Sinks that hold what they took and say how much it is. `content` is what such a sink holds, and
`flushes` is how its flushes ended, the first one first. -/
structure Exact (Valid : σ → W → Prop) (content : σ → W → ByteArray)
    (flushes : σ → W → List (Except IoError Unit)) : Prop where
  write {s w} (bytes : ByteArray) : Valid s w → ∃ result s' w',
    run (Sink.write (m := m) s bytes) w = ((result, s'), w') ∧ Valid s' w' ∧
      taken result ≤ bytes.size ∧ content s' w' = content s w ++ bytes.extract 0 (taken result) ∧
      flushes s' w' = flushes s w
  flush {s w} : Valid s w → ∃ result s' w',
    run (Sink.flush (m := m) s) w = ((result, s'), w') ∧ Valid s' w' ∧
      content s' w' = content s w ∧ flushes s' w' = flushes s w ++ [result]

variable {Valid : σ → W → Prop} {content : σ → W → ByteArray}
  {flushes : σ → W → List (Except IoError Unit)}

/-- Some of the first bytes of an offer go in. It succeeds when these are all of them. -/
theorem Exact.offerWithin (h : Exact m Valid content flushes) (rounds : Nat) {s : σ} {w : W}
    (bytes : ByteArray) (hrounds : bytes.size ≤ rounds) (hvalid : Valid s w) :
    ∃ count result left s' w',
      run (Sink.offerWithin (m := m) rounds s bytes) w = ((result, left, s'), w') ∧ Valid s' w' ∧
        count ≤ bytes.size ∧ content s' w' = content s w ++ bytes.extract 0 count ∧
        flushes s' w' = flushes s w ∧ (result = .ok () ↔ count = bytes.size) := by
  have hnothing (rounds : Nat) {s : σ} {w : W} (hvalid : Valid s w) :
      ∃ count result left s' w',
        run (Sink.offerWithin (m := m) rounds s .empty) w = ((result, left, s'), w') ∧
          Valid s' w' ∧ count ≤ ByteArray.empty.size ∧
          content s' w' = content s w ++ ByteArray.empty.extract 0 count ∧
          flushes s' w' = flushes s w ∧ (result = .ok () ↔ count = ByteArray.empty.size) := by
    refine ⟨0, .ok (), .empty, s, w, World.run_offerWithin_empty rounds s w, hvalid, le_rfl, ?_,
      rfl, by simp⟩
    simp
  induction rounds generalizing s w bytes with
  | zero =>
      obtain rfl := ByteArray.size_eq_zero_iff.mp (Nat.le_zero.mp hrounds)
      exact hnothing 0 hvalid
  | succ rounds ih =>
      by_cases hsize : bytes.size = 0
      · obtain rfl := ByteArray.size_eq_zero_iff.mp hsize
        exact hnothing (rounds + 1) hvalid
      obtain ⟨result, s', w', hwrite, hvalid', hle, hcontent, hflushes⟩ := h.write bytes hvalid
      by_cases hrefused : result = .ok 0 ∨ ∃ e, result = .error e
      · have hzero : taken result = 0 := by
          rcases hrefused with rfl | ⟨e, rfl⟩ <;> rfl
        obtain ⟨e, hrun⟩ := World.run_offerWithin_refused rounds hsize hwrite hrefused
        rw [hzero] at hcontent
        exact ⟨0, .error e, bytes, s', w', hrun, hvalid', Nat.zero_le _, hcontent, hflushes,
          by simpa using Ne.symm hsize⟩
      · obtain ⟨first, rfl⟩ : ∃ first, result = .ok (first + 1) := by
          rcases result with e | _ | first
          · exact absurd (.inr ⟨e, rfl⟩) hrefused
          · exact absurd (.inl rfl) hrefused
          · exact ⟨first, rfl⟩
        change first + 1 ≤ bytes.size at hle
        have hrest : (bytes.extract (first + 1) bytes.size).size = bytes.size - (first + 1) := by
          simp [ByteArray.size_extract]
        obtain ⟨count, result, left, s'', w'', hrun, hvalid'', hle', hcontent', hflushes', hok⟩ :=
          ih (bytes.extract (first + 1) bytes.size) (by omega) hvalid'
        refine ⟨first + 1 + count, result, left, s'', w'',
          (World.run_offerWithin_taken rounds hsize hwrite).trans hrun, hvalid'', by omega, ?_,
          hflushes'.trans hflushes, by rw [hok, hrest]; omega⟩
        have hend : min (first + 1 + count) bytes.size = first + 1 + count := by omega
        rw [hcontent', hcontent, ByteArray.append_assoc, ByteArray.extract_extract, hend]
        exact congrArg (content s w ++ ·) (ByteArray.extract_eq_extract_append_extract (first + 1)
          (Nat.zero_le _) (Nat.le_add_right _ _)).symm

theorem Exact.offer (h : Exact m Valid content flushes) {s : σ} {w : W} (bytes : ByteArray)
    (hvalid : Valid s w) :
    ∃ count result left s' w',
      run (Sink.offer (m := m) s bytes) w = ((result, left, s'), w') ∧ Valid s' w' ∧
        count ≤ bytes.size ∧ content s' w' = content s w ++ bytes.extract 0 count ∧
        flushes s' w' = flushes s w ∧ (result = .ok () ↔ count = bytes.size) :=
  h.offerWithin bytes.size bytes le_rfl hvalid

end Sink

/-- A sink in memory is exact at any limit, also at one it has passed. -/
theorem MemorySink.exact (m : Type → Type) [Monad m] {W : Type} [World m W] :
    Sink.Exact m (fun (_ : MemorySink) (_ : W) => True) (fun s _ => s.content)
      (fun s _ => s.flushResults) where
  write {s w} bytes _ := by
    by_cases hroom : s.room bytes.size = 0
    · refine ⟨if s.silentWhenFull then .ok 0 else .error (.other "sink full"), s, w, ?_, trivial,
        ?_⟩
      · simp [Sink.write, MemorySink.write, hroom]
      · cases s.silentWhenFull <;> simp [Sink.taken]
    · refine ⟨.ok (s.room bytes.size),
        { s with content := s.content ++ bytes.extract 0 (s.room bytes.size) }, w, ?_, trivial,
        s.room_le _, rfl, rfl⟩
      simp [Sink.write, MemorySink.write, hroom]
  flush {s w} _ := by
    refine ⟨_, { s with flushCount := s.flushCount + 1 }, w, ?_, trivial, rfl,
      List.replicate_succ'⟩
    simp [Sink.flush, MemorySink.flush]

end BankTrace
