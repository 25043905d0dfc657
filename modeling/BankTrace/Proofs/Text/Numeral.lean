import BankTrace.ChannelMask
import BankTrace.Json.Number
import Mathlib.Tactic

/-!
# Written numbers are read back

What writes a number and what reads it agree digit by digit, in every base, whether the reader
takes any number or only one that 64 bits hold.
-/

namespace BankTrace

namespace Numeral

/-! ## Digits -/

theorem digit?_digitChar : ∀ d < 16, digit? (Nat.digitChar d) = some d := by decide

/-- The characters of written numbers. -/
def isLowerDigit (c : Char) : Bool := "0123456789abcdef".toList.contains c

theorem isLowerDigit_digitChar : ∀ d < 16, isLowerDigit (Nat.digitChar d) = true := by
  decide +kernel

/-- A written number is made of digits. The induction takes the last digit away. -/
theorem isLowerDigit_of_mem_toDigits {base : Nat} (hbase : 1 < base) (hbase' : base ≤ 16) {n : Nat}
    {c : Char} (h : c ∈ Nat.toDigits base n) : isLowerDigit c = true := by
  induction n using Nat.strong_induction_on with
  | _ n ih =>
      rw [Nat.toDigits_eq_if hbase] at h
      split at h
      next hlt =>
        obtain rfl := List.mem_singleton.mp h
        exact isLowerDigit_digitChar n (by omega)
      next hge =>
        rcases List.mem_append.mp h with h | h
        · exact ih (n / base) (Nat.div_lt_self (by omega) hbase) h
        · obtain rfl := List.mem_singleton.mp h
          exact isLowerDigit_digitChar _ ((Nat.mod_lt n (by omega)).trans_le hbase')

/-! ## Reading -/

theorem readFrom?_concat {base : Nat} (hbase : base ≤ 16) {d : Nat} (hd : d < base) (seen : Nat)
    (text : List Char) :
    readFrom? base seen (text ++ [Nat.digitChar d]) =
      (readFrom? base seen text).map fun n => n * base + d := by
  induction text generalizing seen with
  | nil => simp [readFrom?, digit?_digitChar d (by omega), hd]
  | cons c text ih =>
      rw [List.cons_append, readFrom?, readFrom?]
      split
      · split_ifs
        · exact ih _
        · rfl
      · rfl

theorem readFrom?_toDigits {base : Nat} (hbase : 1 < base) (hbase' : base ≤ 16) (n : Nat) :
    readFrom? base 0 (Nat.toDigits base n) = some n := by
  induction n using Nat.strong_induction_on with
  | _ n ih =>
      rw [Nat.toDigits_eq_if hbase]
      split
      next hlt => simp [readFrom?, digit?_digitChar n (by omega), hlt]
      next hge =>
        rw [readFrom?_concat hbase' (Nat.mod_lt n (by omega)),
          ih (n / base) (Nat.div_lt_self (by omega) hbase)]
        simp [Nat.div_add_mod']

theorem digits?_toDigits {base : Nat} (hbase : 1 < base) (hbase' : base ≤ 16) (n : Nat) :
    digits? base (Nat.toDigits base n) = some n := by
  cases h : Nat.toDigits base n with
  | nil => exact absurd h Nat.toDigits_ne_nil
  | cons c rest =>
      rw [digits?, ← h]
      · exact readFrom?_toDigits hbase hbase' n
      · simp

theorem read?_toDigits {base : Nat} (hbase : 1 < base) (hbase' : base ≤ 16) (n : Nat) :
    read? base (Nat.toDigits base n) = some n := by
  unfold read?
  split
  next rest h =>
    have hplus := isLowerDigit_of_mem_toDigits hbase hbase' (n := n) (c := '+') (by simp [h])
    exact absurd hplus (by decide +kernel)
  next => exact digits?_toDigits hbase hbase' n

end Numeral

/-! ## Digits of a number in JSON text -/

namespace Json.Number

theorem accumulate_concat {seen n d : Nat} {text : List Char} (hd : d < 10)
    (h : accumulate seen text = (n, 0)) (hsize : n * 10 + d < UInt64.size) :
    accumulate seen (text ++ [Nat.digitChar d]) = (n * 10 + d, 0) := by
  induction text generalizing seen with
  | nil =>
      obtain rfl : seen = n := by simpa [accumulate] using h
      have hdigit : (Nat.digitChar d).toNat - '0'.toNat = d :=
        Nat.toNat_digitChar_sub_48_of_lt_ten hd
      simp only [List.nil_append, accumulate, hdigit, if_pos hsize]
  | cons c text ih =>
      rw [List.cons_append, accumulate]
      rw [accumulate] at h
      split at h
      next hfits =>
        rw [if_pos hfits]
        exact ih h
      next => simp at h

theorem accumulate_toDigits {n : Nat} (hn : n < UInt64.size) :
    accumulate 0 (Nat.toDigits 10 n) = (n, 0) := by
  induction n using Nat.strong_induction_on with
  | _ n ih =>
      have hmod : n % 10 < 10 := Nat.mod_lt n (by omega)
      rw [Nat.toDigits_eq_if (by omega)]
      split
      next hlt =>
        have hnone : accumulate 0 [] = (0, 0) := rfl
        have h := accumulate_concat hlt hnone (by omega)
        simpa using h
      next hge =>
        have h := accumulate_concat hmod (ih (n / 10) (by omega) (by omega)) (by omega)
        rwa [Nat.div_add_mod'] at h

end Json.Number

/-! ## Literals of masks -/

namespace ChannelMask

theorem not_isBlank_of_isLowerDigit {c : Char} (h : Numeral.isLowerDigit c = true) :
    Blank.isBlank c = false := by
  have hall : "0123456789abcdef".toList.all (fun c => !Blank.isBlank c) = true := by decide +kernel
  simpa using List.all_eq_true.mp hall c (by simpa [Numeral.isLowerDigit] using h)

theorem trim_eq_self {text : List Char} (h : ∀ c ∈ text, Blank.isBlank c = false) :
    Blank.trim text = text := by
  have hkeep (text : List Char) (h : ∀ c ∈ text, Blank.isBlank c = false) :
      text.dropWhile Blank.isBlank = text := by
    cases text with
    | nil => rfl
    | cons c rest => rw [List.dropWhile_cons, h c List.mem_cons_self]; rfl
  rw [Blank.trim, hkeep text h, hkeep text.reverse (by simpa using h), List.reverse_reverse]

theorem toList_literal (mask : ChannelMask) :
    mask.literal.toList = '0' :: 'x' :: Nat.toDigits 16 mask.bits.toNat := by
  simp [literal, Numeral.write]

theorem not_isBlank_of_mem_literal (mask : ChannelMask) :
    ∀ c ∈ mask.literal.toList, Blank.isBlank c = false := by
  rw [toList_literal]
  simp only [List.forall_mem_cons]
  refine ⟨by decide, by decide, fun c hc => not_isBlank_of_isLowerDigit ?_⟩
  exact Numeral.isLowerDigit_of_mem_toDigits (by omega) le_rfl hc

theorem ofString_literal (mask : ChannelMask) : ofString mask.literal = .ok mask := by
  have hbits : mask.bits.toNat < UInt32.size := mask.bits.isLt
  rw [ofString, trim_eq_self mask.not_isBlank_of_mem_literal, toList_literal, numberOfLiteral?,
    Numeral.read?_toDigits (by omega) le_rfl]
  simp [hbits]

end ChannelMask

end BankTrace
