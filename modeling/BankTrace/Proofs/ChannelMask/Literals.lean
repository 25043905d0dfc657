import BankTrace.Config.Text
import BankTrace.Proofs.Json.Containers
import BankTrace.Proofs.Text.Spelling

/-!
# Literals of masks

Which texts a mask is read from, to the last character. Where a mask is expected in JSON text, an
integer is as good as the string of its digits.
-/

namespace BankTrace

open Json (IsWhole)
open Json.Reader (Judges Delimited)

/-! ## Literals -/

namespace ChannelMask

variable {text : List Char} {n : Nat} {s : String} {mask : ChannelMask}

/-- Whether a text with no blanks around it is the literal of a number. -/
inductive IsLiteral : List Char → Nat → Prop where
  | hexadecimal {x : Char} {text : List Char} {n : Nat} (hx : x = 'x' ∨ x = 'X')
      (h : Numeral.DenotesSigned 16 text n) : IsLiteral ('0' :: x :: text) n
  | decimal {text : List Char} {n : Nat}
      (hmark : ∀ x rest, text = '0' :: x :: rest → ¬ (x = 'x' ∨ x = 'X'))
      (h : Numeral.DenotesSigned 10 text n) : IsLiteral text n

theorem isLiteral_marked {x : Char} (hx : x = 'x' ∨ x = 'X') :
    IsLiteral ('0' :: x :: text) n ↔ Numeral.DenotesSigned 16 text n := by
  refine ⟨fun h => ?_, .hexadecimal hx⟩
  cases h with
  | hexadecimal _ h => exact h
  | decimal hmark _ => exact absurd hx (hmark x text rfl)

theorem isLiteral_unmarked (hmark : ∀ x rest, text = '0' :: x :: rest → ¬ (x = 'x' ∨ x = 'X')) :
    IsLiteral text n ↔ Numeral.DenotesSigned 10 text n := by
  refine ⟨fun h => ?_, .decimal hmark⟩
  cases h with
  | hexadecimal hx _ => exact absurd hx (hmark _ _ rfl)
  | decimal _ h => exact h

theorem numberOfLiteral?_eq_some_iff : numberOfLiteral? text = some n ↔ IsLiteral text n := by
  unfold numberOfLiteral?
  split
  next => rw [isLiteral_marked (.inl rfl), Numeral.read?_eq_some_iff le_rfl]
  next => rw [isLiteral_marked (.inr rfl), Numeral.read?_eq_some_iff le_rfl]
  next hlower hupper =>
    have hmark (x : Char) (rest : List Char) (htext : text = '0' :: x :: rest) :
        ¬ (x = 'x' ∨ x = 'X') := by
      rintro (rfl | rfl)
      · exact hlower rest htext
      · exact hupper rest htext
    rw [isLiteral_unmarked hmark, Numeral.read?_eq_some_iff (by decide)]

theorem ofNat_eq_iff (hn : n < UInt32.size) : (⟨BitVec.ofNat 32 n⟩ : ChannelMask) = mask ↔
    n = mask.bits.toNat := by
  obtain ⟨bits⟩ := mask
  rw [ChannelMask.mk.injEq, ← BitVec.toNat_inj, BitVec.toNat_ofNat, Nat.mod_eq_of_lt hn]

theorem ofString_eq_ok_iff : ofString s = .ok mask ↔
    numberOfLiteral? (Blank.trim s.toList) = some mask.bits.toNat := by
  unfold ofString
  split
  next n hn =>
    rw [hn, Option.some_inj]
    split_ifs with hsize
    · rw [Except.ok.injEq, ofNat_eq_iff hsize]
    · have hbits : mask.bits.toNat < UInt32.size := mask.bits.isLt
      simp only [false_iff]
      exact fun h => hsize (h ▸ hbits)
  next hn => simp [hn]

theorem ofString_eq_error (h : ∀ mask, ofString s ≠ .ok mask) :
    ofString s = .error (.invalidChannelMask s) := by
  unfold ofString at h ⊢
  split at h
  next n hn =>
    split_ifs at h with hsize
    · exact absurd rfl (h _)
    · exact if_neg hsize
  next => rfl

theorem toOption_ofString : (ofString s).toOption = some mask ↔
    numberOfLiteral? (Blank.trim s.toList) = some mask.bits.toNat := by
  rw [← ofString_eq_ok_iff]
  cases ofString s <;> simp [Except.toOption]

theorem numberOfLiteral?_digits (h : ∀ c ∈ text, c.isDigit = true) :
    numberOfLiteral? text = Numeral.digits? 10 text := by
  have hne {c d : Char} {rest : List Char} (htext : text = c :: d :: rest) : d.isDigit = true :=
    h d (by simp [htext])
  unfold numberOfLiteral?
  split
  next => exact absurd (hne rfl) (by decide)
  next => exact absurd (hne rfl) (by decide)
  next =>
    unfold Numeral.read?
    split
    next => exact absurd (h '+' List.mem_cons_self) (by decide)
    next => rfl

theorem numberOfLiteral?_negative (text : List Char) : numberOfLiteral? ('-' :: text) = none := rfl

end ChannelMask

/-! ## Integers in JSON text -/

namespace Json

variable {token sign whole rest : List Char} {n seen : Nat}

/-- An integer of any size: digits, no zero before others, and at most a minus sign in front. -/
inductive IsInteger : List Char → Prop where
  | mk {sign whole : List Char} (hsign : sign = [] ∨ sign = ['-']) (hwhole : IsWhole whole) :
      IsInteger (sign ++ whole)

theorem IsInteger.isNumber (h : IsInteger token) : IsNumber token := by
  obtain ⟨hsign, hwhole⟩ := h
  simpa using IsNumber.mk hsign hwhole .none .none

theorem Reader.takes_numerals_integer (hsign : sign = [] ∨ sign = ['-']) (hwhole : IsWhole whole)
    (ended : Error) (hrest : Delimited rest) :
    (numerals ended).Takes (sign ++ whole ++ rest)
      ⟨decide (sign = ['-']), whole, none, none⟩ rest := by
  have hexponent : (exponent ended).Takes rest none rest :=
    (takes_accept_of_head fun c hc => (hrest c hc).2.2.1).bind
      ((takes_accept_of_head fun c hc => (hrest c hc).2.2.2).bind (Takes.pure _ _))
  rw [List.append_assoc]
  refine (takes_sign hsign (hwhole.1.ne_of_head (by decide) _)).bind ?_
  refine (takes_whole_of_isWhole hwhole (fun c hc => (hrest c hc).1) ended).bind ?_
  refine (takes_accept_of_head fun c hc => (hrest c hc).2.1).bind ((Takes.pure _ _).bind ?_)
  exact hexponent.bind (Takes.pure _ _)

namespace Number

theorem digit?_of_isDigit {c : Char} (hc : c.isDigit = true) :
    Numeral.digit? c = some (c.toNat - '0'.toNat) ∧ c.toNat - '0'.toNat < 10 := by
  have hrange := Char.isDigit_iff_toNat.mp hc
  exact ⟨if_pos hrange, Nat.lt_succ_of_le (Nat.sub_le_sub_right hrange.2 _)⟩

/-- Digits are all taken if and only if 64 bits hold the number that they make. -/
theorem accumulate_eq_iff (hdigits : ∀ c ∈ whole, c.isDigit = true) (hseen : seen < UInt64.size) :
    accumulate seen whole = (n, 0) ↔
      Numeral.readFrom? 10 seen whole = some n ∧ n < UInt64.size := by
  induction whole generalizing seen with
  | nil =>
      simp only [accumulate, Numeral.readFrom?, Prod.mk.injEq, and_true, Option.some_inj]
      exact (and_iff_left_of_imp fun h => h ▸ hseen).symm
  | cons c whole ih =>
      obtain ⟨hdigit, hlt⟩ := digit?_of_isDigit (hdigits c List.mem_cons_self)
      have hread : Numeral.readFrom? 10 seen (c :: whole) =
          Numeral.readFrom? 10 (seen * 10 + (c.toNat - '0'.toNat)) whole := by
        rw [Numeral.readFrom?, hdigit]
        exact if_pos hlt
      rw [accumulate, hread]
      split
      next hfits => exact ih (fun c hc => hdigits c (List.mem_cons_of_mem _ hc)) hfits
      next hfull =>
        -- what does not fit in 64 bits only grows with the digits that follow
        refine iff_of_false (by simp) fun h => hfull ?_
        exact (Numeral.le_of_readFrom? (by decide) (by decide) h.1).trans_lt h.2

theorem double?_ne_natural (isNegative : Bool) (significand : Nat) (power : Int)
    (exponent : Option (Bool × List Char)) :
    double? isNegative significand power exponent ≠ some (.natural n) := by
  simp [double?]

/-- An integer is a natural number if it has no sign and 64 bits hold it. -/
theorem ofNumerals?_eq_natural_iff (hdigits : IsDigits whole) {isNegative : Bool} :
    ofNumerals? ⟨isNegative, whole, none, none⟩ = some (.natural n) ↔
      isNegative = false ∧ Numeral.digits? 10 whole = some n ∧ n < UInt64.size := by
  have hread : Numeral.digits? 10 whole = Numeral.readFrom? 10 0 whole := by
    obtain ⟨c, more, rfl, -⟩ := hdigits.head
    rfl
  rw [hread, ← accumulate_eq_iff (List.all_eq_true.mp hdigits.2) (by decide)]
  unfold ofNumerals?
  obtain ⟨taken, dropped⟩ := accumulate 0 whole
  by_cases hdropped : dropped = 0
  · cases isNegative with
    | false => simp [hdropped]
    | true =>
        dsimp only
        rw [if_pos hdropped, if_neg (by simp)]
        split_ifs <;> simp [double?_ne_natural]
  · simp [hdropped, double?_ne_natural]

end Number

/-! ### Masks -/

namespace Reader

variable {v sign whole : List Char}

def Found.worth? : Found → Option Value
  | .null => some .null
  | .boolean b => some (.boolean b)
  | .number n => some (.number n)
  | .string s => some (.string s.toList)
  | .list | .object | .bareName => none

/-- A leaf is judged the same at every depth. -/
theorem judges_value_leaf {outcome : Option Found} (h : Judges found v outcome)
    (hlist : outcome ≠ some .list) (hobject : outcome ≠ some .object) (depth : Nat) :
    Judges (value depth) v (outcome.bind Found.worth?) := by
  have hvalue (list object : Reader Value) :
      Judges (valueWith list object) v (outcome.bind Found.worth?) := by
    refine h.bind fun leaf hleaf text => ?_
    cases leaf with
    | list => exact absurd hleaf hlist
    | object => exact absurd hleaf hobject
    | bareName => exact fails_throw _ text
    | null | boolean | number | string => exact Takes.pure _ text
  cases depth <;> exact hvalue _ _

theorem judges_mask_of_value {outcome : Option Value} {opened : Nat}
    (h : Judges (value (maxDepth - opened)) v outcome) :
    Judges (mask opened) v (outcome.bind fun v => (maskOfValue v).toOption) :=
  h.bind fun v _ => yields_resolved (maskOfValue v)

theorem judges_mask_leaf {outcome : Option Found} (h : Judges found v outcome)
    (hlist : outcome ≠ some .list) (hobject : outcome ≠ some .object) (opened : Nat) :
    Judges (mask opened) v
      ((outcome.bind Found.worth?).bind fun v => (maskOfValue v).toOption) :=
  judges_mask_of_value (judges_value_leaf h hlist hobject _)

theorem toOption_maskOfValue_string (text : List Char) : (maskOfValue (.string text)).toOption =
    (ChannelMask.ofString (String.ofList text)).toOption := by
  simp only [maskOfValue]
  cases ChannelMask.ofString (String.ofList text) <;> rfl

theorem toOption_maskOfValue_number {m : Number} {mask : ChannelMask} :
    (maskOfValue (.number m)).toOption = some mask ↔ m = .natural mask.bits.toNat := by
  cases m with
  | natural n =>
      rw [maskOfValue, Number.natural.injEq]
      split_ifs with hn
      · rw [← ChannelMask.ofNat_eq_iff hn]
        exact Option.some_inj
      · have hbits : mask.bits.toNat < UInt32.size := mask.bits.isLt
        exact iff_of_false (by simp [Except.toOption]) fun h => hn (h ▸ hbits)
  | negative | double => simp [maskOfValue, Except.toOption]

theorem judges_mask_string {letters text : List Char} (h : Spells letters text) (opened : Nat) :
    Judges (mask opened) ('"' :: (letters ++ ['"']))
      (ChannelMask.ofString (String.ofList text)).toOption := by
  have hworth : ((some text).map fun s => Found.string (String.ofList s)).bind Found.worth? =
      some (.string text) := by
    simp [Found.worth?]
  have hvalue := judges_value_leaf (judges_found_string (readsAs_of_spells h)) (by simp) (by simp)
    (maxDepth - opened)
  rw [hworth] at hvalue
  rw [← toOption_maskOfValue_string]
  exact judges_mask_of_value hvalue

theorem not_isBlank_of_isDigit {c : Char} (hc : c.isDigit = true) : Blank.isBlank c = false := by
  obtain ⟨hlow, hhigh⟩ := Char.isDigit_iff_toNat.mp hc
  change 48 ≤ c.toNat at hlow
  change c.toNat ≤ 57 at hhigh
  simp [Blank.isBlank, Blank.ranges]
  omega

theorem trim_integer (hsign : sign = [] ∨ sign = ['-']) (hwhole : IsWhole whole) :
    Blank.trim (sign ++ whole) = sign ++ whole := by
  have hdigits (c : Char) (hc : c ∈ whole) : Blank.isBlank c = false :=
    not_isBlank_of_isDigit (List.all_eq_true.mp hwhole.1.2 c hc)
  apply ChannelMask.trim_eq_self
  rcases hsign with rfl | rfl
  · exact hdigits
  · exact List.forall_mem_cons.mpr ⟨by decide, hdigits⟩

theorem numberOfLiteral?_integer (hsign : sign = [] ∨ sign = ['-']) (hwhole : IsWhole whole)
    {n : Nat} : ChannelMask.numberOfLiteral? (sign ++ whole) = some n ↔
      decide (sign = ['-']) = false ∧ Numeral.digits? 10 whole = some n := by
  rcases hsign with rfl | rfl
  · rw [List.nil_append, ChannelMask.numberOfLiteral?_digits (List.all_eq_true.mp hwhole.1.2)]
    simp
  · simp [ChannelMask.numberOfLiteral?_negative]

theorem judges_mask_integer {token : List Char} (h : IsInteger token) (opened : Nat) :
    Judges (mask opened) token (ChannelMask.ofString (String.ofList token)).toOption := by
  have hnumber := h.isNumber
  obtain @⟨sign, whole, hsign, hwhole⟩ := h
  have hmask := judges_mask_leaf (judges_found_number hnumber
    fun ended rest hrest => takes_numerals_integer hsign hwhole ended hrest) (by simp) (by simp)
    opened
  convert hmask using 1
  apply Option.ext
  intro mask
  have hbits : mask.bits.toNat < UInt64.size := mask.bits.isLt.trans (by decide)
  rw [ChannelMask.toOption_ofString, String.toList_ofList, trim_integer hsign hwhole,
    numberOfLiteral?_integer hsign hwhole]
  simp [Option.bind_eq_some_iff, Found.worth?, toOption_maskOfValue_number,
    Number.ofNumerals?_eq_natural_iff hwhole.1, hbits]

end Reader

end Json

/-! ## Exactness -/

namespace ChannelMask

open Json (IsInteger)

/-- What a mask is read from, whatever the text: the blanks around a text do not count, the rest of
it has to be the literal of a number that 32 bits hold, and a text that is refused is named in the
error as it is. Every mask is read back from its own literal. In JSON text an integer counts for
what the string of its digits counts for, wherever the two stand and however the string is
spelled. -/
theorem ofString_exact (s : String) :
    (∃ t, Blank.IsTrimmed s.toList t ∧ (∀ other, Blank.IsTrimmed s.toList other → other = t) ∧
      (∀ v, (∃ mask, ofString s = .ok mask ∧ mask.bits.toNat = v) ↔ IsLiteral t v ∧ v < 2 ^ 32) ∧
      ((¬ ∃ v, IsLiteral t v ∧ v < 2 ^ 32) → ofString s = .error (.invalidChannelMask s))) ∧
    (∀ mask : ChannelMask, ofString mask.literal = .ok mask) ∧
    ∀ token letters, IsInteger token → Json.Spells letters token → ∀ opened,
      Judges (Json.Reader.mask opened) token (ofString (String.ofList token)).toOption ∧
      Judges (Json.Reader.mask opened) ('"' :: (letters ++ ['"']))
        (ofString (String.ofList token)).toOption := by
  have hvalue (v : Nat) : (∃ mask, ofString s = .ok mask ∧ mask.bits.toNat = v) ↔
      IsLiteral (Blank.trim s.toList) v ∧ v < 2 ^ 32 := by
    simp only [ofString_eq_ok_iff, ← numberOfLiteral?_eq_some_iff]
    constructor
    · rintro ⟨mask, hmask, rfl⟩
      exact ⟨hmask, mask.bits.isLt⟩
    · rintro ⟨hliteral, hv⟩
      have hbits : (BitVec.ofNat 32 v).toNat = v := Nat.mod_eq_of_lt hv
      exact ⟨⟨BitVec.ofNat 32 v⟩, hbits.symm ▸ hliteral, hbits⟩
  refine ⟨⟨_, Blank.isTrimmed_trim _, fun other h => h.eq_trim, hvalue, fun hnone => ?_⟩,
    ofString_literal, fun token letters htoken hletters opened =>
      ⟨Json.Reader.judges_mask_integer htoken opened,
        Json.Reader.judges_mask_string hletters opened⟩⟩
  exact ofString_eq_error fun mask hmask => hnone ⟨_, (hvalue _).mp ⟨mask, hmask, rfl⟩⟩

theorem ofString_exact_padded :
    (∃ mask, ofString " 0X+00fF\n" = .ok mask ∧ mask.bits.toNat = 255) ∧
    Judges (Json.Reader.mask 2) ['2', '5', '5'] (some ⟨255#32⟩) ∧
    Judges (Json.Reader.mask 2) ['"', '2', '5', '5', '"'] (some ⟨255#32⟩) := by
  obtain ⟨⟨t, -, htrim, hvalue, -⟩, -, hjson⟩ := ofString_exact " 0X+00fF\n"
  have hspace : Blank.isBlank ' ' = true := by decide
  have hnewline : Blank.isBlank '\n' = true := by decide
  have hzero : Blank.isBlank '0' = false := by decide
  have hlast : Blank.isBlank 'F' = false := by decide
  have hinner : ['0', 'X', '+', '0', '0', 'f', 'F'] = t :=
    htrim _ ⟨⟨[' '], ['\n'], by decide, by simp [hspace], by simp [hnewline]⟩, by simp [hzero],
      by simp [hlast]⟩
  have hdigits : Numeral.Denotes 16 ['0', '0', 'f', 'F'] 255 :=
    ⟨by decide, [0, 0, 15, 15], by simp [Numeral.IsDigit]; decide, by decide⟩
  have hliteral : IsLiteral t 255 := hinner ▸ .hexadecimal (.inr rfl) ⟨_, .inr rfl, hdigits⟩
  have htoken : IsInteger ['2', '5', '5'] :=
    IsInteger.mk (.inl rfl) ⟨⟨by decide, by decide⟩, by decide⟩
  have hmask : (ofString (String.ofList ['2', '5', '5'])).toOption = some ⟨255#32⟩ := by decide
  rw [← hmask]
  exact ⟨(hvalue 255).mpr ⟨hliteral, by decide⟩,
    hjson _ _ htoken (Json.spells_self (by decide)) 2⟩

end ChannelMask

end BankTrace
