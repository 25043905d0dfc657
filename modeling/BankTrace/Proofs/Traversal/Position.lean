import BankTrace.Proofs.Config.Validity
import BankTrace.Traversal

/-!
# Positions in a traversal

The counters of the four loops are the digits of a number in a mixed base: the number of requests
before the position. Going on by one request adds one to that number, carries included, so the
position behind any number of pulls has a closed form.
-/

namespace BankTrace

namespace Sweep

/-! ## Digits -/

theorem succ_of_mod_lt {i n : Nat} (h : i % n + 1 < n) :
    (i + 1) % n = i % n + 1 ∧ (i + 1) / n = i / n := by
  have hsplit : i + 1 = i % n + 1 + n * (i / n) := by
    have := Nat.mod_add_div i n
    omega
  have hn : 0 < n := by omega
  rw [hsplit, Nat.add_mul_mod_self_left, Nat.add_mul_div_left _ _ hn, Nat.mod_eq_of_lt h,
    Nat.div_eq_of_lt h]
  simp

theorem succ_of_le_mod {i n : Nat} (hn : 0 < n) (h : ¬ i % n + 1 < n) :
    (i + 1) % n = 0 ∧ (i + 1) / n = i / n + 1 := by
  have hlt := Nat.mod_lt i hn
  have hsplit : i + 1 = n * (i / n + 1) := by
    have := Nat.mod_add_div i n
    rw [Nat.mul_add, Nat.mul_one]
    omega
  rw [hsplit, Nat.mul_mod_right, Nat.mul_div_cancel_left _ hn]
  simp

/-- The last digit of a number below a product can grow, or the digits before it can. -/
theorem succ_lt_mul_iff {i m n : Nat} (hn : 0 < n) :
    i + 1 < m * n ↔ (i + 1) / n < m :=
  (Nat.div_lt_iff_lt_mul hn).symm

variable (s : Sweep)

def requestTotal : Nat := s.visitCount * s.rowCount * s.banks.length * s.masks.length

def rowOfPass (pass : Nat) : Nat :=
  match s.loopOrder with
  | .rowColumnBank => pass / s.visitCount
  | .burstGroup => pass % s.rowCount

def visitOfPass (pass : Nat) : Nat :=
  match s.loopOrder with
  | .rowColumnBank => pass % s.visitCount
  | .burstGroup => pass / s.rowCount

def countersAt (i : Nat) : Counters where
  row := s.rowOfPass (i / s.masks.length / s.banks.length)
  visit := s.visitOfPass (i / s.masks.length / s.banks.length)
  bank := i / s.masks.length % s.banks.length
  mask := i % s.masks.length

theorem hasRequests_iff : s.hasRequests = true ↔
    0 < s.rowCount ∧ 0 < s.visitCount ∧ 0 < s.banks.length ∧ 0 < s.masks.length := by
  simp [hasRequests, Nat.pos_iff_ne_zero, and_assoc]

variable {s}

theorem rowOfPass_lt (h : s.hasRequests = true) {pass : Nat}
    (hpass : pass < s.visitCount * s.rowCount) : s.rowOfPass pass < s.rowCount := by
  obtain ⟨hrows, hvisits, -, -⟩ := (hasRequests_iff s).mp h
  cases horder : s.loopOrder with
  | rowColumnBank =>
      simp only [rowOfPass, horder]
      rw [Nat.div_lt_iff_lt_mul hvisits, Nat.mul_comm]
      exact hpass
  | burstGroup =>
      simp only [rowOfPass, horder]
      exact Nat.mod_lt _ hrows

theorem nextPass?_ofPass (h : s.hasRequests = true) {pass : Nat}
    (hpass : pass < s.visitCount * s.rowCount) (bank mask : Nat) :
    s.nextPass? ⟨s.rowOfPass pass, s.visitOfPass pass, bank, mask⟩ =
      if pass + 1 < s.visitCount * s.rowCount then
        some ⟨s.rowOfPass (pass + 1), s.visitOfPass (pass + 1), 0, 0⟩
      else none := by
  obtain ⟨hrows, hvisits, -, -⟩ := (hasRequests_iff s).mp h
  cases horder : s.loopOrder with
  | rowColumnBank =>
      rw [Nat.mul_comm, ← Nat.div_lt_iff_lt_mul hvisits] at hpass
      simp only [Nat.mul_comm s.visitCount, succ_lt_mul_iff hvisits, nextPass?, rowOfPass,
        visitOfPass, horder]
      by_cases hvisit : pass % s.visitCount + 1 < s.visitCount
      · obtain ⟨hmod, hdiv⟩ := succ_of_mod_lt hvisit
        simp [hvisit, hmod, hdiv, hpass]
      · obtain ⟨hmod, hdiv⟩ := succ_of_le_mod hvisits hvisit
        simp [hvisit, hmod, hdiv]
  | burstGroup =>
      rw [← Nat.div_lt_iff_lt_mul hrows] at hpass
      simp only [succ_lt_mul_iff hrows, nextPass?, rowOfPass, visitOfPass, horder]
      by_cases hrow : pass % s.rowCount + 1 < s.rowCount
      · obtain ⟨hmod, hdiv⟩ := succ_of_mod_lt hrow
        simp [hrow, hmod, hdiv, hpass]
      · obtain ⟨hmod, hdiv⟩ := succ_of_le_mod hrows hrow
        simp [hrow, hmod, hdiv]

theorem next?_countersAt (h : s.hasRequests = true) {i : Nat} (hi : i < s.requestTotal) :
    s.next? (s.countersAt i) =
      if i + 1 < s.requestTotal then some (s.countersAt (i + 1)) else none := by
  obtain ⟨-, -, hbanks, hmasks⟩ := (hasRequests_iff s).mp h
  rw [requestTotal, ← Nat.div_lt_iff_lt_mul hmasks] at hi
  simp only [requestTotal, succ_lt_mul_iff hmasks]
  by_cases hmask : i % s.masks.length + 1 < s.masks.length
  · obtain ⟨hmod, hdiv⟩ := succ_of_mod_lt hmask
    simp [next?, countersAt, hmask, hmod, hdiv, hi]
  · obtain ⟨hmod, hdiv⟩ := succ_of_le_mod hmasks hmask
    rw [← Nat.div_lt_iff_lt_mul hbanks] at hi
    simp only [hdiv, succ_lt_mul_iff hbanks]
    by_cases hbank : i / s.masks.length % s.banks.length + 1 < s.banks.length
    · obtain ⟨hmodBank, hdivBank⟩ := succ_of_mod_lt hbank
      simp [next?, countersAt, hmask, hmod, hdiv, hbank, hmodBank, hdivBank, hi]
    · obtain ⟨hmodBank, hdivBank⟩ := succ_of_le_mod hbanks hbank
      simp only [next?, countersAt, hmask, hbank, if_false, hmod, hdiv, hmodBank, hdivBank]
      exact nextPass?_ofPass h hi _ _

variable (s) in
def placeAt (i : Nat) : Traversal.Place :=
  if i < s.requestTotal then .request (s.countersAt i)
  else if i = s.requestTotal then .sentinel
  else .finished

variable (s) in
/-- The instruction with a number: the requests, the sentinel, and nothing behind it. -/
def instruction? (i : Nat) : Option Instruction :=
  if i < s.requestTotal then some (.data (s.request (s.countersAt i)))
  else if i = s.requestTotal then some .eoc
  else none

end Sweep

/-! ## Pulls -/

namespace Traversal

/-- One pull. At its end a traversal gives nothing and stays where it is. -/
def pull (t : Traversal) : Option Instruction × Traversal :=
  match t.next? with
  | some (instruction, rest) => (some instruction, rest)
  | none => (none, t)

def behind (t : Traversal) : Nat → Traversal
  | 0 => t
  | count + 1 => t.pull.2.behind count

/-- What the pull with a number gives. -/
def item? (t : Traversal) (i : Nat) : Option Instruction := (t.behind i).pull.1

def batches (t : Traversal) : List Nat → List (List Instruction)
  | [] => []
  | count :: counts => (t.take count).1 :: (t.take count).2.batches counts

def cut (item? : Nat → Option Instruction) (start : Nat) : List Nat → List (List Instruction)
  | [] => []
  | count :: counts =>
      (List.range' start count).filterMap item? :: cut item? (start + count) counts

theorem behind_add (t : Traversal) (m n : Nat) : t.behind (m + n) = (t.behind m).behind n := by
  induction m generalizing t with
  | zero => simp [behind]
  | succ m ih => rw [Nat.succ_add, behind, behind, ih]

theorem item?_behind (t : Traversal) (m i : Nat) : (t.behind m).item? i = t.item? (m + i) := by
  rw [item?, item?, behind_add]

theorem behind_of_next?_eq_none {t : Traversal} (h : t.next? = none) (count : Nat) :
    t.behind count = t := by
  induction count with
  | zero => rfl
  | succ count ih => simpa [behind, pull, h] using ih

theorem takeOnto_eq (taken : Array Instruction) (count : Nat) (t : Traversal) :
    takeOnto taken count t =
      (taken ++ ((List.range count).filterMap t.item?).toArray, t.behind count) := by
  induction count generalizing taken t with
  | zero => simp [takeOnto, behind]
  | succ count ih =>
      cases hnext : t.next? with
      | none =>
          have hitem : ∀ i, t.item? i = none := by
            intro i
            simp [item?, behind_of_next?_eq_none hnext, pull, hnext]
          simp [takeOnto, hnext, behind_of_next?_eq_none hnext, hitem]
      | some step =>
          obtain ⟨instruction, rest⟩ := step
          have hpull : t.pull = (some instruction, rest) := by simp [pull, hnext]
          have hzero : t.item? 0 = some instruction := by simp [item?, behind, hpull]
          have hsucc : rest.item? = fun i => t.item? (i + 1) := by
            funext i
            simp [item?, behind, hpull]
          simp [takeOnto, hnext, ih, List.range_succ_eq_map, hzero, List.filterMap_map, hsucc,
            behind, hpull]

theorem take_eq (t : Traversal) (count : Nat) :
    t.take count = ((List.range count).filterMap t.item?, t.behind count) := by
  simp [take, takeOnto_eq]

/-- Batches only cut the sequence of single pulls. -/
theorem batches_eq_cut (t : Traversal) (counts : List Nat) :
    t.batches counts = cut t.item? 0 counts := by
  suffices h : ∀ start, (t.behind start).batches counts = cut t.item? start counts from h 0
  induction counts with
  | nil => intro start; rfl
  | cons count counts ih =>
      intro start
      have hitem : (t.behind start).item? = fun i => t.item? (start + i) :=
        funext (item?_behind t start)
      rw [batches, take_eq, hitem, ← behind_add, ih, cut, List.range'_eq_map_range,
        List.filterMap_map]
      rfl

/-! ## The closed form -/

theorem pull_at {t : Traversal} (h : t.sweep.hasRequests = true) {i : Nat}
    (hplace : t.place = t.sweep.placeAt i) :
    t.pull = (t.sweep.instruction? i, { t with place := t.sweep.placeAt (i + 1) }) := by
  obtain ⟨s, place, n⟩ := t
  obtain rfl : place = s.placeAt i := hplace
  rcases Nat.lt_trichotomy i s.requestTotal with hi | rfl | hi
  · simp only [pull, next?, Sweep.placeAt, Sweep.instruction?, hi, if_true,
      Sweep.next?_countersAt h hi]
    by_cases hnext : i + 1 < s.requestTotal
    · simp [hnext]
    · have hlast : i + 1 = s.requestTotal := by omega
      simp [hlast]
  · simp [pull, next?, Sweep.placeAt, Sweep.instruction?]
  · have hnot : ¬ i < s.requestTotal := by omega
    have hne : i ≠ s.requestTotal := by omega
    have hnot' : ¬ i + 1 < s.requestTotal := by omega
    have hne' : i + 1 ≠ s.requestTotal := by omega
    simp [pull, next?, Sweep.placeAt, Sweep.instruction?, hnot, hne, hnot', hne']

theorem behind_at {t : Traversal} (h : t.sweep.hasRequests = true) {start : Nat}
    (hplace : t.place = t.sweep.placeAt start) (count : Nat) :
    t.behind count = { t with place := t.sweep.placeAt (start + count) } := by
  induction count generalizing t start with
  | zero => rw [behind, Nat.add_zero, ← hplace]
  | succ count ih =>
      rw [behind, pull_at h hplace]
      have hrest := ih (t := { t with place := t.sweep.placeAt (start + 1) }) h rfl
      rwa [show start + (count + 1) = start + 1 + count by omega]

/-- A traversal from its beginning gives the numbered instructions of its sweep. -/
theorem item?_ofSweep {s : Sweep} (h : s.hasRequests = true) (n i : Nat) :
    (ofSweep s n).item? i = s.instruction? i := by
  have hpos : 0 < s.requestTotal := by
    obtain ⟨hrows, hvisits, hbanks, hmasks⟩ := (Sweep.hasRequests_iff s).mp h
    exact Nat.mul_pos (Nat.mul_pos (Nat.mul_pos hvisits hrows) hbanks) hmasks
  have hplace : (ofSweep s n).place = s.placeAt 0 := by
    simp [ofSweep, h, Sweep.placeAt, hpos, Sweep.countersAt, Sweep.rowOfPass, Sweep.visitOfPass]
    cases s.loopOrder <;> rfl
  have hbehind := behind_at (t := ofSweep s n) h hplace i
  rw [item?, hbehind, pull_at (t := { ofSweep s n with place := _ }) h rfl, Nat.zero_add]
  rfl

end Traversal

end BankTrace
