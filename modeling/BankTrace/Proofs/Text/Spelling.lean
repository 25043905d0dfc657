import BankTrace.Proofs.Text.Numeral
import Mathlib.Data.List.DropRight
import Mathlib.Data.Nat.Digits.Defs

/-!
# Spellings

Which texts a number is read from, and what is left of a text without the blanks around it, said
without the readers.
-/

namespace BankTrace

/-! ## Numbers -/

namespace Numeral

variable {base seen n d : Nat} {c : Char} {text : List Char}

/-- Whether a character is the digit of a base with some value. A letter may be of either case. -/
def IsDigit (base : Nat) (c : Char) (d : Nat) : Prop :=
  d < base ∧ (c = Nat.digitChar d ∨ c = (Nat.digitChar d).toUpper)

/-- Whether one or more digits stand for a number, the most significant first. -/
def Denotes (base : Nat) (text : List Char) (n : Nat) : Prop :=
  text ≠ [] ∧ ∃ digits, List.Forall₂ (IsDigit base) text digits ∧
    n = Nat.ofDigits base digits.reverse

/-- Whether digits stand for a number, with no sign or one plus sign before them. -/
def DenotesSigned (base : Nat) (text : List Char) (n : Nat) : Prop :=
  ∃ digits, (text = digits ∨ text = '+' :: digits) ∧ Denotes base digits n

theorem digit?_toUpper_digitChar : ∀ d < 16, digit? (Nat.digitChar d).toUpper = some d := by decide

/-- A digit is found by its distance from the first of its kind. -/
theorem eq_digitChar_of_digit? (h : digit? c = some d) :
    d < 16 ∧ (c = Nat.digitChar d ∨ c = (Nat.digitChar d).toUpper) := by
  have hdecimal : ∀ k < 10, Char.ofNat ('0'.toNat + k) = Nat.digitChar k := by decide
  have hlower : ∀ k < 6, Char.ofNat ('a'.toNat + k) = Nat.digitChar (k + 10) := by decide
  have hupper : ∀ k < 6, Char.ofNat ('A'.toNat + k) = (Nat.digitChar (k + 10)).toUpper := by decide
  have hfrom {first last : Char} (hc : first ≤ c ∧ c ≤ last) :
      c.toNat - first.toNat ≤ last.toNat - first.toNat ∧
        c = Char.ofNat (first.toNat + (c.toNat - first.toNat)) := by
    have hfirst : first.toNat ≤ c.toNat := hc.1
    have hlast : c.toNat ≤ last.toNat := hc.2
    exact ⟨by omega, by rw [Nat.add_sub_cancel' hfirst, Char.ofNat_toNat]⟩
  unfold digit? at h
  split_ifs at h with h₁ h₂ h₃
  · obtain ⟨hle, hc⟩ := hfrom h₁
    have hlt : c.toNat - '0'.toNat < 10 := Nat.lt_succ_of_le hle
    obtain rfl := Option.some.inj h
    exact ⟨by omega, .inl (hc.trans (hdecimal _ hlt))⟩
  · obtain ⟨hle, hc⟩ := hfrom h₂
    have hlt : c.toNat - 'a'.toNat < 6 := Nat.lt_succ_of_le hle
    obtain rfl := Option.some.inj h
    exact ⟨by omega, .inl (hc.trans (hlower _ hlt))⟩
  · obtain ⟨hle, hc⟩ := hfrom h₃
    have hlt : c.toNat - 'A'.toNat < 6 := Nat.lt_succ_of_le hle
    obtain rfl := Option.some.inj h
    exact ⟨by omega, .inr (hc.trans (hupper _ hlt))⟩

theorem isDigit_iff (hbase : base ≤ 16) : IsDigit base c d ↔ digit? c = some d ∧ d < base := by
  constructor
  · rintro ⟨hd, rfl | rfl⟩
    · exact ⟨digit?_digitChar d (by omega), hd⟩
    · exact ⟨digit?_toUpper_digitChar d (by omega), hd⟩
  · rintro ⟨hdigit, hd⟩
    exact ⟨hd, (eq_digitChar_of_digit? hdigit).2⟩

/-- The digits that are still to be read are worth what they spell, those read before as much more
as there are digits behind them. The induction takes the first digit away. -/
theorem readFrom?_eq_some_iff (hbase : base ≤ 16) :
    readFrom? base seen text = some n ↔ ∃ digits, List.Forall₂ (IsDigit base) text digits ∧
      n = Nat.ofDigits base digits.reverse + base ^ text.length * seen := by
  induction text generalizing seen with
  | nil => simp [readFrom?, eq_comm]
  | cons c text ih =>
      have hvalue (d : Nat) {digits : List Nat} (h : List.Forall₂ (IsDigit base) text digits) :
          Nat.ofDigits base (d :: digits).reverse + base ^ (c :: text).length * seen =
            Nat.ofDigits base digits.reverse + base ^ text.length * (seen * base + d) := by
        rw [List.reverse_cons, Nat.ofDigits_append, Nat.ofDigits_singleton, List.length_reverse,
          ← h.length_eq, List.length_cons]
        ring
      simp only [List.forall₂_cons_left_iff]
      constructor
      · intro h
        rw [readFrom?] at h
        split at h
        next d hdigit =>
          split_ifs at h with hd
          obtain ⟨digits, hdigits, hn⟩ := ih.mp h
          exact ⟨_, ⟨d, digits, (isDigit_iff hbase).mpr ⟨hdigit, hd⟩, hdigits, rfl⟩,
            hn.trans (hvalue d hdigits).symm⟩
        next => simp at h
      · rintro ⟨_, ⟨d, digits, hc, hdigits, rfl⟩, hn⟩
        obtain ⟨hdigit, hd⟩ := (isDigit_iff hbase).mp hc
        simp only [readFrom?, hdigit, if_pos hd]
        exact ih.mpr ⟨digits, hdigits, hn.trans (hvalue d hdigits)⟩

theorem le_of_readFrom? (hpos : 0 < base) (hbase : base ≤ 16)
    (h : readFrom? base seen text = some n) : seen ≤ n := by
  obtain ⟨digits, -, rfl⟩ := (readFrom?_eq_some_iff hbase).mp h
  exact le_add_left (Nat.le_mul_of_pos_left seen (Nat.pow_pos hpos))

theorem digits?_eq_some_iff (hbase : base ≤ 16) :
    digits? base text = some n ↔ Denotes base text n := by
  cases text with
  | nil => simp [digits?, Denotes]
  | cons c text =>
      have hread : digits? base (c :: text) = readFrom? base 0 (c :: text) := rfl
      rw [hread, readFrom?_eq_some_iff hbase, Denotes]
      simp

/-- A sign is no digit, so that digits have no sign before them in one way only. -/
theorem not_denotes_plus (hbase : base ≤ 16) : ¬ Denotes base ('+' :: text) n := by
  have hplus : ∀ d < 16, '+' ≠ Nat.digitChar d ∧ '+' ≠ (Nat.digitChar d).toUpper := by decide
  rintro ⟨-, digits, hdigits, -⟩
  obtain ⟨d, -, ⟨hd, hdigit⟩, -⟩ := List.forall₂_cons_left_iff.mp hdigits
  obtain ⟨hlower, hupper⟩ := hplus d (hd.trans_le hbase)
  exact hdigit.elim hlower hupper

theorem read?_eq_some_iff (hbase : base ≤ 16) :
    read? base text = some n ↔ DenotesSigned base text n := by
  unfold read?
  split
  next text =>
    rw [digits?_eq_some_iff hbase]
    refine ⟨fun h => ⟨text, .inr rfl, h⟩, ?_⟩
    rintro ⟨digits, rfl | hdigits, h⟩
    · exact absurd h (not_denotes_plus hbase)
    · exact (List.cons.inj hdigits).2 ▸ h
  next text hplus =>
    rw [digits?_eq_some_iff hbase]
    refine ⟨fun h => ⟨_, .inl rfl, h⟩, ?_⟩
    rintro ⟨digits, rfl | rfl, h⟩
    · exact h
    · exact absurd rfl (hplus digits)

end Numeral

/-! ## Blanks -/

namespace Blank

variable {text inner : List Char}

/-- A text without the blanks before and behind it. -/
structure IsTrimmed (text inner : List Char) : Prop where
  around : ∃ before behind, text = before ++ (inner ++ behind) ∧
    (∀ c ∈ before, isBlank c = true) ∧ ∀ c ∈ behind, isBlank c = true
  first : ∀ c ∈ inner.head?, isBlank c = false
  last : ∀ c ∈ inner.getLast?, isBlank c = false

theorem not_isBlank_of_head_dropWhile (text : List Char) :
    ∀ c ∈ (text.dropWhile isBlank).head?, isBlank c = false := by
  intro c hc
  have hhead := List.head?_dropWhile_not isBlank text
  rwa [Option.mem_def.mp hc] at hhead

theorem dropWhile_eq_self (h : ∀ c ∈ text.head?, isBlank c = false) :
    text.dropWhile isBlank = text := by
  cases text with
  | nil => rfl
  | cons c text => exact List.dropWhile_cons_of_neg (by simp [h c rfl])

theorem isTrimmed_trim (text : List Char) : IsTrimmed text (trim text) := by
  have htrim : trim text = (text.dropWhile isBlank).rdropWhile isBlank := rfl
  have hsplit : trim text ++ (text.dropWhile isBlank).rtakeWhile isBlank =
      text.dropWhile isBlank := List.rdropWhile_append_rtakeWhile ..
  refine ⟨⟨text.takeWhile isBlank, (text.dropWhile isBlank).rtakeWhile isBlank, ?_, ?_, ?_⟩, ?_, ?_⟩
  · rw [hsplit, List.takeWhile_append_dropWhile]
  · exact fun c hc => List.mem_takeWhile_imp hc
  · exact fun c hc => List.mem_rtakeWhile_imp hc
  · intro c hc
    apply not_isBlank_of_head_dropWhile text
    rw [← hsplit, List.head?_append, Option.mem_def.mp hc]
    rfl
  · intro c hc
    rw [trim, List.getLast?_reverse] at hc
    exact not_isBlank_of_head_dropWhile _ c hc

/-- There is one way to take the blanks around a text away. -/
theorem IsTrimmed.eq_trim (h : IsTrimmed text inner) : inner = trim text := by
  obtain ⟨⟨before, behind, rfl, hbefore, hbehind⟩, hfirst, hlast⟩ := h
  rw [trim, List.dropWhile_append_of_pos hbefore]
  cases inner with
  | nil => rw [List.nil_append, List.dropWhile_eq_nil_iff.mpr hbehind]; rfl
  | cons c inner =>
      have hfront : (c :: inner ++ behind).dropWhile isBlank = c :: inner ++ behind :=
        dropWhile_eq_self hfirst
      rw [hfront, List.reverse_append, List.dropWhile_append_of_pos (by simpa using hbehind),
        dropWhile_eq_self (by rwa [List.head?_reverse]), List.reverse_reverse]

end Blank

end BankTrace
