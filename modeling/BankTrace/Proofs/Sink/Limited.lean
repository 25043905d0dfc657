import BankTrace.Proofs.World
import BankTrace.Sink

/-!
# Limited sinks

A limited sink takes bytes in pieces of any size until it is full and refuses from then on. Offering
it bytes leaves it with as many of the first of them as there was room for, however they were cut.
-/

namespace BankTrace

/-! ## Cutting at a limit -/

def Fits (limit : Option Nat) (size : Nat) : Prop := ∀ most ∈ limit, size ≤ most

def upTo (limit : Option Nat) (size : Nat) : Nat := limit.elim size (min · size)

def cutAt (limit : Option Nat) (text : ByteArray) : ByteArray :=
  text.extract 0 (upTo limit text.size)

theorem upTo_of_fits {limit : Option Nat} {size : Nat} (h : Fits limit size) :
    upTo limit size = size := by
  cases limit with
  | none => rfl
  | some most => exact Nat.min_eq_right (h most rfl)

theorem Fits.mono {limit : Option Nat} {m n : Nat} (h : Fits limit n) (hmn : m ≤ n) :
    Fits limit m :=
  fun most hmost => hmn.trans (h most hmost)

theorem cutAt_of_fits {limit : Option Nat} {text : ByteArray} (h : Fits limit text.size) :
    cutAt limit text = text := by
  rw [cutAt, upTo_of_fits h, ByteArray.extract_zero_size]

/-- What comes behind a text that is too long is lost. -/
theorem cutAt_append_of_not_fits {limit : Option Nat} {text : ByteArray}
    (h : ¬ Fits limit text.size) (more : ByteArray) :
    cutAt limit (text ++ more) = cutAt limit text := by
  cases limit with
  | none => exact absurd (fun most hmost => by simp at hmost) h
  | some most =>
      have hlt : most < text.size := by
        by_contra hle
        exact h fun other hother => by
          obtain rfl := Option.some.inj hother
          omega
      have hcut : most ≤ (text ++ more).size := by
        rw [ByteArray.size_append]
        omega
      simp only [cutAt, upTo, Option.elim_some, Nat.min_eq_left hcut, Nat.min_eq_left hlt.le]
      rw [ByteArray.extract_append, Nat.sub_eq_zero_of_le hlt.le, Nat.zero_sub,
        ByteArray.extract_same, ByteArray.append_empty]

namespace Sink

open World (run)

variable {m : Type → Type} [Monad m] {W : Type} [World m W] {σ : Type} [Sink m σ]

/-! ## The law -/

variable (m) in
/-- Sinks that take `limit` bytes in all. Each call takes at least a byte while there is room, and
none afterwards. `content` is what such a sink holds, and `flushes` is how its flushes ended, the
first one first. -/
structure Limited (Valid : σ → W → Prop) (content : σ → W → ByteArray)
    (flushes : σ → W → List (Except IoError Unit)) (limit : Option Nat) : Prop where
  fits {s w} : Valid s w → Fits limit (content s w).size
  write_some {s w} (bytes : ByteArray) : Valid s w → 0 < bytes.size →
    limit ≠ some (content s w).size → ∃ count s' w',
      run (Sink.write (m := m) s bytes) w = ((.ok count, s'), w') ∧ Valid s' w' ∧
        0 < count ∧ count ≤ bytes.size ∧
        content s' w' = content s w ++ bytes.extract 0 count ∧ flushes s' w' = flushes s w
  write_none {s w} (bytes : ByteArray) : Valid s w → 0 < bytes.size →
    limit = some (content s w).size → ∃ result s' w',
      run (Sink.write (m := m) s bytes) w = ((result, s'), w') ∧ Valid s' w' ∧
        (result = .ok 0 ∨ ∃ e, result = .error e) ∧
        content s' w' = content s w ∧ flushes s' w' = flushes s w
  flush {s w} : Valid s w → ∃ result s' w',
    run (Sink.flush (m := m) s) w = ((result, s'), w') ∧ Valid s' w' ∧
      content s' w' = content s w ∧ flushes s' w' = flushes s w ++ [result]

variable {Valid : σ → W → Prop} {content : σ → W → ByteArray}
  {flushes : σ → W → List (Except IoError Unit)} {limit : Option Nat}

/-! ## Offering bytes -/

/-- Offered bytes go in up to the limit, and the offer succeeds when they all fit. -/
theorem Limited.offerWithin (h : Limited m Valid content flushes limit) (rounds : Nat) {s : σ}
    {w : W} (bytes : ByteArray) (hrounds : bytes.size ≤ rounds) (hvalid : Valid s w) :
    ∃ result left s' w',
      run (Sink.offerWithin (m := m) rounds s bytes) w = ((result, left, s'), w') ∧ Valid s' w' ∧
        content s' w' = cutAt limit (content s w ++ bytes) ∧ flushes s' w' = flushes s w ∧
        (result = .ok () ↔ Fits limit ((content s w).size + bytes.size)) := by
  have hnothing (rounds : Nat) {s : σ} {w : W} (hvalid : Valid s w) :
      ∃ result left s' w',
        run (Sink.offerWithin (m := m) rounds s .empty) w = ((result, left, s'), w') ∧
          Valid s' w' ∧ content s' w' = cutAt limit (content s w ++ .empty) ∧
          flushes s' w' = flushes s w ∧
          (result = .ok () ↔ Fits limit ((content s w).size + ByteArray.empty.size)) := by
    refine ⟨.ok (), .empty, s, w, World.run_offerWithin_empty rounds s w, hvalid, ?_, rfl, ?_⟩
    · rw [ByteArray.append_empty, cutAt_of_fits (h.fits hvalid)]
    · simpa using h.fits hvalid
  induction rounds generalizing s w bytes with
  | zero =>
      obtain rfl := ByteArray.size_eq_zero_iff.mp (Nat.le_zero.mp hrounds)
      exact hnothing 0 hvalid
  | succ rounds ih =>
      by_cases hsize : bytes.size = 0
      · obtain rfl := ByteArray.size_eq_zero_iff.mp hsize
        exact hnothing (rounds + 1) hvalid
      have hpos : 0 < bytes.size := Nat.pos_of_ne_zero hsize
      by_cases hfull : limit = some (content s w).size
      · -- The sink is full: the offer ends, and nothing goes in.
        obtain ⟨result, s', w', hwrite, hvalid', hrefused, hcontent, hflushes⟩ :=
          h.write_none bytes hvalid hpos hfull
        obtain ⟨e, hrun⟩ := World.run_offerWithin_refused rounds hsize hwrite hrefused
        have hnot : ¬ Fits limit ((content s w).size + bytes.size) := by
          intro hfits
          have := hfits _ (Option.mem_def.mpr hfull)
          omega
        have hcut : cutAt limit (content s w ++ bytes) = content s w := by
          subst hfull
          simp [cutAt, upTo, ByteArray.extract_append]
        exact ⟨.error e, bytes, s', w', hrun, hvalid', by rw [hcontent, hcut], hflushes,
          by simp [hnot]⟩
      · obtain ⟨count, s', w', hwrite, hvalid', hcount, hle, hcontent, hflushes⟩ :=
          h.write_some bytes hvalid hpos hfull
        obtain ⟨count, rfl⟩ := Nat.exists_eq_succ_of_ne_zero hcount.ne'
        have hrest : (bytes.extract (count + 1) bytes.size).size = bytes.size - (count + 1) := by
          simp [ByteArray.size_extract]
        obtain ⟨result, left, s'', w'', hrun, hvalid'', hcontent', hflushes', hok⟩ :=
          ih (bytes.extract (count + 1) bytes.size) (by omega) hvalid'
        refine ⟨result, left, s'', w'',
          (World.run_offerWithin_taken rounds hsize hwrite).trans hrun, hvalid'', ?_,
          hflushes'.trans hflushes, ?_⟩
        · rw [hcontent', hcontent, ByteArray.append_assoc,
            ← ByteArray.extract_eq_extract_append_extract (count + 1) (by omega) hle,
            ByteArray.extract_zero_size]
        · rw [hok, hcontent, hrest, ByteArray.size_append, ByteArray.size_extract,
            Nat.min_eq_left hle]
          have hsum : (content s w).size + (count + 1 - 0) + (bytes.size - (count + 1)) =
              (content s w).size + bytes.size := by omega
          rw [hsum]

theorem Limited.offer (h : Limited m Valid content flushes limit) {s : σ} {w : W}
    (bytes : ByteArray) (hvalid : Valid s w) :
    ∃ result left s' w',
      run (Sink.offer (m := m) s bytes) w = ((result, left, s'), w') ∧ Valid s' w' ∧
        content s' w' = cutAt limit (content s w ++ bytes) ∧ flushes s' w' = flushes s w ∧
        (result = .ok () ↔ Fits limit ((content s w).size + bytes.size)) :=
  h.offerWithin bytes.size bytes le_rfl hvalid

end Sink

/-! ## Sinks in memory -/

namespace MemorySink

def flushResults (s : MemorySink) : List (Except IoError Unit) :=
  List.replicate s.flushCount (if s.flushFails then .error (.other "flush failed") else .ok ())

/-- A sink with a limit that it has not passed, and with some room in each call. -/
structure Within (limit : Option Nat) (s : MemorySink) : Prop where
  limit_eq : s.limit = limit
  fits : Fits limit s.content.size
  chunk_ne : s.chunk ≠ some 0

theorem room_le (s : MemorySink) (offered : Nat) : s.room offered ≤ offered := by
  unfold room
  cases s.limit <;> cases s.chunk <;> simp

theorem Within.room_eq_zero_iff {limit : Option Nat} {s : MemorySink} (h : s.Within limit)
    {offered : Nat} (hoffered : 0 < offered) :
    s.room offered = 0 ↔ limit = some s.content.size := by
  obtain ⟨rfl, hfits, hchunk⟩ := h
  have hchunk' : ∀ chunk ∈ s.chunk, chunk ≠ 0 := by
    rintro chunk hmem rfl
    exact hchunk hmem
  unfold room
  cases hlimit : s.limit with
  | none =>
      cases hsome : s.chunk with
      | none => simpa using hoffered.ne'
      | some chunk =>
          have := hchunk' chunk (by simp [hsome])
          simp
          omega
  | some most =>
      have hmost := hfits most (by simp [hlimit])
      cases hsome : s.chunk with
      | none =>
          simp
          omega
      | some chunk =>
          have := hchunk' chunk (by simp [hsome])
          simp
          omega

theorem Within.content_add_room {limit : Option Nat} {s : MemorySink} (h : s.Within limit)
    (offered : Nat) : Fits limit (s.content.size + s.room offered) := by
  obtain ⟨rfl, hfits, -⟩ := h
  intro most hmost
  have hmost' := hfits most hmost
  have hlimit : s.limit = some most := hmost
  unfold room
  cases s.chunk <;> simp [hlimit] <;> omega

/-- A sink in memory takes bytes up to its limit, whatever it takes at a time. -/
theorem limited (m : Type → Type) [Monad m] {W : Type} [World m W] (limit : Option Nat) :
    Sink.Limited m (fun (s : MemorySink) (_ : W) => s.Within limit) (fun s _ => s.content)
      (fun s _ => s.flushResults) limit where
  fits h := h.fits
  write_some {s w} bytes h hpos hroom := by
    have hne : s.room bytes.size ≠ 0 := mt (h.room_eq_zero_iff hpos).mp hroom
    refine ⟨s.room bytes.size,
      { s with content := s.content ++ bytes.extract 0 (s.room bytes.size) },
      w, ?_, ⟨h.limit_eq, ?_, h.chunk_ne⟩, Nat.pos_of_ne_zero hne, s.room_le _, rfl, rfl⟩
    · simp [Sink.write, MemorySink.write, hne]
    · have hsize : (bytes.extract 0 (s.room bytes.size)).size = s.room bytes.size := by
        rw [ByteArray.size_extract, Nat.min_eq_left (s.room_le _), Nat.sub_zero]
      rw [ByteArray.size_append, hsize]
      exact h.content_add_room _
  write_none {s w} bytes h hpos hfull := by
    have hzero : s.room bytes.size = 0 := (h.room_eq_zero_iff hpos).mpr hfull
    refine ⟨if s.silentWhenFull then .ok 0 else .error (.other "sink full"), s, w, ?_, h, ?_, rfl,
      rfl⟩
    · simp [Sink.write, MemorySink.write, hzero]
    · cases s.silentWhenFull <;> simp
  flush {s w} h := by
    refine ⟨_, { s with flushCount := s.flushCount + 1 }, w, ?_, ⟨h.limit_eq, h.fits, h.chunk_ne⟩,
      rfl, List.replicate_succ'⟩
    simp [Sink.flush, MemorySink.flush]

end MemorySink

end BankTrace
