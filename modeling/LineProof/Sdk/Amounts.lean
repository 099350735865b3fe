import LineProof.Lib.Decimals
import LineProof.Sdk.Calls

/-!
# Amounts

Reference: `toStroops` and `fromStroops` of `sdk/src/utils.ts`.

A text is accepted if it is, without the white space around it, a decimal of at most seven places that fits
the amount type, and the result is its value in stroops (`amounts_exact`). Printing gives back the shortest
text of the value.
-/

namespace LineProof.Sdk

open Decimals Soroban

/-- What `toStroops` throws. -/
inductive AmountError
  | sdk (error : SDKError)
  /-- `BigInt` of a text that is not a number -/
  | syntaxError

/-! ## Functions of the language on texts -/

/-- `s.trim()`. -/
def trim (s : List Char) : List Char := (s.dropWhile isWhiteSpace).rdropWhile isWhiteSpace

/-- `s.padEnd(p, "0")`. -/
def padEnd (p : ℕ) (s : List Char) : List Char := s ++ zeros (p - s.length)

/-- `BigInt` of a text without a sign. -/
def bigInt (s : List Char) : Except AmountError ℤ :=
  if s.all Char.isDigit then .ok (numeral s) else .error .syntaxError

/-- A match of `\d+(\.\d+)?`. -/
def isUnsignedDecimal (text : List Char) : Bool :=
  match text.span Char.isDigit with
  | (whole, []) => whole ≠ []
  | (whole, '.' :: frac) => whole ≠ [] ∧ frac ≠ [] ∧ frac.all Char.isDigit
  | _ => false

/-- `/^-?\d+(\.\d+)?$/.test(text)`. -/
def isDecimalString (text : List Char) : Bool :=
  isUnsignedDecimal (if text.head? = some '-' then text.tail else text)

section

variable (J : Conversions)

/-- `x.toFixed(7)` of a finite number. -/
def toFixed (x : ℚ) : List Char :=
  if 10 ^ 21 ≤ |x| then (J.toString (.number (.finite x))).toList
  else
    -- the nearest number of stroops, the larger one of two
    let n := ⌊|x| * 10 ^ 7 + 1 / 2⌋₊
    (if x < 0 then ['-'] else []) ++ Nat.toDigits 10 (n / 10 ^ 7) ++
      '.' :: padStart 7 (Nat.toDigits 10 (n % 10 ^ 7))

/-! ## Conversions -/

/-- The errors of `toStroops` share their code. -/
def invalidAmount (message : String) (amount : Native) : AmountError :=
  .sdk ⟨"INVALID_AMOUNT", message, some amount⟩

/-- The text whose digits `toStroops` reads. -/
def amountText : Native → Except AmountError (List Char)
  | .number (.finite x) => .ok (toFixed J x)
  | .number x => .error (invalidAmount "Amount must be a finite number" (.number x))
  | .string s =>
    if isDecimalString (trim s.toList) then .ok (trim s.toList)
    else .error (invalidAmount "Amount must be a decimal string" (.string s))
  | amount => .error (invalidAmount "Amount must be a string or number" amount)

/-- The checks in the order of the source: the sign, the form, the number of places, the range. -/
def toStroops (amount : Native) : Except AmountError ℤ := do
  let text ← amountText J amount
  if text.head? = some '-' then
    throw (invalidAmount "Amount must be non-negative" amount)
  let parts := text.splitOn '.'
  let whole := parts.headD []
  let frac := parts.tail.headD []
  if 7 < frac.length then
    throw (invalidAmount "Amount has more than 7 decimal places (sub-stroop precision)" amount)
  let stroops := (← bigInt whole) * 10000000 + (← bigInt (padEnd 7 frac))
  if i128Max < stroops then
    throw (invalidAmount "Amount exceeds the maximum i128 value" amount)
  return stroops

end

/-- `BigInt` division and remainder round towards zero. -/
def fromStroops (stroops : ℤ) : String :=
  let whole := stroops.tdiv 10000000
  let frac := stroops.tmod 10000000
  let fracStr := stripZeros (padStart 7 (toString frac).toList)
  if fracStr.length > 0 then toString whole ++ "." ++ String.ofList fracStr else toString whole

/-! ## Texts -/

/-- A text without white space is trimmed to itself. -/
theorem trim_eq_self {s : List Char} (h : ∀ c ∈ s, isWhiteSpace c = false) : trim s = s := by
  have hfront : s.dropWhile isWhiteSpace = s := by
    rw [List.dropWhile_eq_self_iff]
    intro hpos
    simpa using h _ (List.getElem_mem hpos)
  rw [trim, hfront, List.rdropWhile_eq_self_iff]
  intro hne
  simpa using h _ (List.getLast_mem hne)

/-- A digit is neither the point nor the sign. -/
theorem digit_ne {c : Char} (h : c.isDigit = true) : c ≠ '.' ∧ c ≠ '-' := by
  constructor <;> rintro rfl <;> cases h

variable {d : DecimalText}

/-- A decimal text has nothing to trim. -/
theorem trim_chars : trim d.chars = d.chars := by
  apply trim_eq_self
  intro c hc
  obtain hdigit | rfl := d.digit_or_point hc
  · exact isWhiteSpace_of_isDigit hdigit
  · rfl

/-- An unsigned text starts with no sign. -/
theorem head?_chars_ne : d.chars.head? ≠ some '-' := by
  intro hhead
  obtain hdigit | hpoint := d.digit_or_point (List.mem_of_head? hhead)
  · exact (digit_ne hdigit).2 rfl
  · cases hpoint

/-- A text is split into its whole part and its places, if it has any. -/
theorem splitOn_chars : d.chars.splitOn '.' = if d.frac = [] then [d.whole] else [d.whole, d.frac] := by
  have hwhole : '.' ∉ d.whole := fun h => (digit_ne (d.whole_digits _ h)).1 rfl
  have hfrac : '.' ∉ d.frac := fun h => (digit_ne (d.frac_digits _ h)).1 rfl
  rw [DecimalText.chars]
  split
  · exact List.splitOn_eq_singleton hwhole
  · rw [List.splitOn_append_cons_self, List.splitOn_eq_singleton hwhole, List.splitOn_eq_singleton hfrac]
    rfl

/-- The pattern accepts the decimal texts. -/
theorem isUnsignedDecimal_iff {text : List Char} :
    isUnsignedDecimal text = true ↔ ∃ d : DecimalText, text = d.chars := by
  rw [isUnsignedDecimal, List.span_eq_takeWhile_dropWhile]
  constructor
  · have htext := List.takeWhile_append_dropWhile (p := Char.isDigit) (l := text)
    have hwhole : IsDigits (text.takeWhile Char.isDigit) := fun c hc => List.mem_takeWhile_imp hc
    intro h
    split at h
    next whole hspan =>
      obtain ⟨rfl, hrest⟩ := Prod.mk.inj hspan
      refine ⟨⟨_, [], of_decide_eq_true h, hwhole, by simp [IsDigits]⟩, ?_⟩
      rw [DecimalText.chars, if_pos rfl]
      rw [hrest, List.append_nil] at htext
      exact htext.symm
    next whole frac hspan =>
      obtain ⟨rfl, hrest⟩ := Prod.mk.inj hspan
      obtain ⟨hne, hfrac, hdigits⟩ := of_decide_eq_true h
      refine ⟨⟨_, frac, hne, hwhole, List.all_eq_true.mp hdigits⟩, ?_⟩
      rw [DecimalText.chars, if_neg hfrac, ← hrest]
      exact htext.symm
    next => cases h
  · rintro ⟨d, rfl⟩
    by_cases hfrac : d.frac = []
    · rw [DecimalText.chars, if_pos hfrac, List.takeWhile_eq_self_iff.mpr d.whole_digits,
        List.dropWhile_eq_nil_iff.mpr d.whole_digits]
      exact decide_eq_true d.whole_ne
    · rw [DecimalText.chars, if_neg hfrac, List.takeWhile_append_of_pos d.whole_digits,
        List.dropWhile_append_of_pos d.whole_digits,
        List.takeWhile_cons_of_neg (by decide), List.dropWhile_cons_of_neg (by decide), List.append_nil]
      exact decide_eq_true ⟨d.whole_ne, hfrac, List.all_eq_true.mpr d.frac_digits⟩

/-- The texts of the regular expression are the decimals with and without a sign. -/
theorem isDecimalString_iff {text : List Char} :
    isDecimalString text = true ↔ ∃ d : DecimalText, text = d.chars ∨ text = '-' :: d.chars := by
  rw [isDecimalString, isUnsignedDecimal_iff]
  constructor
  · rintro ⟨d, hd⟩
    refine ⟨d, ?_⟩
    split at hd
    next hhead =>
      obtain ⟨rest, rfl⟩ := List.head?_eq_some_iff.mp hhead
      exact Or.inr (congrArg _ hd)
    next => exact Or.inl hd
  · rintro ⟨d, rfl | rfl⟩
    · exact ⟨d, by rw [if_neg head?_chars_ne]⟩
    · exact ⟨d, rfl⟩

/-! ## Results -/

/-- The amount in stroops of a decimal of at most seven places. -/
def stroopsOf (d : DecimalText) : ℕ := numeral (d.digits ++ zeros (7 - d.frac.length))

/-- Up to seven places the stroops are the value scaled by ten million. -/
theorem stroopsOf_eq (hplaces : d.frac.length ≤ 7) : (stroopsOf d : ℚ) = d.value * 10 ^ 7 :=
  (DecimalText.value_mul_pow hplaces).symm

/-- The whole part and the padded places make up the stroops. -/
theorem stroopsOf_eq_add (hplaces : d.frac.length ≤ 7) :
    stroopsOf d = numeral d.whole * 10000000 + numeral (padEnd 7 d.frac) := by
  have hlength : (padEnd 7 d.frac).length = 7 := by
    rw [padEnd, List.length_append, List.length_replicate]
    omega
  rw [stroopsOf, DecimalText.digits, List.append_assoc, ← padEnd, numeral_append, hlength,
    mul_comm (numeral d.whole)]
  rfl

/-- `BigInt` reads digits as their numeral. -/
theorem bigInt_eq {s : List Char} (h : IsDigits s) : bigInt s = .ok (numeral s : ℤ) :=
  if_pos (List.all_eq_true.mpr h)

variable {J : Conversions} {amount : Native} {s : String} {z : ℤ}

/-- What becomes of an amount whose text is a decimal. -/
theorem toStroops_of_text (h : amountText J amount = .ok d.chars) : toStroops J amount =
    if 7 < d.frac.length then
      .error (invalidAmount "Amount has more than 7 decimal places (sub-stroop precision)" amount)
    else if i128Max < stroopsOf d then
      .error (invalidAmount "Amount exceeds the maximum i128 value" amount)
    else .ok (stroopsOf d) := by
  have hparts : (d.chars.splitOn '.').headD [] = d.whole ∧
      (d.chars.splitOn '.').tail.headD [] = d.frac := by
    rw [splitOn_chars]
    split
    next hfrac => exact ⟨rfl, hfrac.symm⟩
    next => exact ⟨rfl, rfl⟩
  have hpadded : IsDigits (padEnd 7 d.frac) := isDigits_append.mpr ⟨d.frac_digits, isDigits_zeros _⟩
  simp only [toStroops, h, bind, Except.bind, if_neg head?_chars_ne, hparts.1, hparts.2]
  by_cases hplaces : 7 < d.frac.length
  · rw [if_pos hplaces, if_pos hplaces]
    rfl
  · have hsum := stroopsOf_eq_add (Nat.le_of_not_lt hplaces)
    rw [if_neg hplaces, if_neg hplaces, bigInt_eq d.whole_digits, bigInt_eq hpadded, hsum]
    push_cast
    rfl

/-- A string is read up to the white space around it. -/
theorem amountText_string (h : trim s.toList = d.chars) : amountText J (.string s) = .ok d.chars := by
  have hdecimal := isDecimalString_iff.mpr ⟨d, Or.inl h⟩
  rw [amountText, if_pos hdecimal, h]

/-- A sign is refused before anything else is looked at. -/
theorem toStroops_of_signed (h : trim s.toList = '-' :: d.chars) : toStroops J (.string s) =
    .error (invalidAmount "Amount must be non-negative" (.string s)) := by
  have hdecimal := isDecimalString_iff.mpr ⟨d, Or.inr h⟩
  have htext : amountText J (.string s) = .ok ('-' :: d.chars) := by
    rw [amountText, if_pos hdecimal, h]
  rw [toStroops, htext]
  rfl

/-- A text that is no decimal is refused. -/
theorem toStroops_of_malformed (h : isDecimalString (trim s.toList) ≠ true) : toStroops J (.string s) =
    .error (invalidAmount "Amount must be a decimal string" (.string s)) := by
  rw [toStroops, amountText, if_neg h]
  rfl

/-- A text that is accepted is, without the white space around it, an unsigned decimal. -/
theorem exists_chars_of_toStroops (h : toStroops J (.string s) = .ok z) :
    ∃ d : DecimalText, trim s.toList = d.chars := by
  by_cases hdecimal : isDecimalString (trim s.toList) = true
  · obtain ⟨d, hd | hd⟩ := isDecimalString_iff.mp hdecimal
    · exact ⟨d, hd⟩
    · rw [toStroops_of_signed hd] at h
      cases h
  · rw [toStroops_of_malformed hdecimal] at h
    cases h

/-- A decimal text is accepted up to seven places and the range of `i128`, at its exact value. -/
theorem toStroops_string_eq_ok_iff (h : trim s.toList = d.chars) : toStroops J (.string s) = .ok z ↔
    d.frac.length ≤ 7 ∧ d.value * 10 ^ 7 ≤ i128Max ∧ (z : ℚ) = d.value * 10 ^ 7 := by
  rw [toStroops_of_text (amountText_string h)]
  by_cases hplaces : 7 < d.frac.length
  · rw [if_pos hplaces]
    exact ⟨nofun, fun hd => absurd hd.1 (Nat.not_le_of_lt hplaces)⟩
  · have hle := Nat.le_of_not_lt hplaces
    rw [if_neg hplaces, ← stroopsOf_eq hle]
    have hcast : ((stroopsOf d : ℚ) ≤ i128Max) ↔ ((stroopsOf d : ℤ) ≤ i128Max) := by
      rw [← Int.cast_natCast, Int.cast_le]
    have hvalue : ((z : ℚ) = stroopsOf d) ↔ (z = stroopsOf d) := by
      rw [← Int.cast_natCast, Int.cast_inj]
    rw [hcast, hvalue]
    by_cases hmax : i128Max < stroopsOf d
    · rw [if_pos hmax]
      exact ⟨nofun, fun hd => absurd hd.2.1 (Int.not_le_of_gt hmax)⟩
    · rw [if_neg hmax, Except.ok.injEq]
      exact ⟨fun hz => ⟨hle, Int.not_lt.mp hmax, hz.symm⟩, fun hd => hd.2.2.symm⟩

/-- Every refusal of a text is `INVALID_AMOUNT`. -/
theorem toStroops_string_error {error : AmountError} (h : toStroops J (.string s) = .error error) :
    ∃ message, error = invalidAmount message (.string s) := by
  by_cases hdecimal : isDecimalString (trim s.toList) = true
  · obtain ⟨d, hd | hd⟩ := isDecimalString_iff.mp hdecimal
    · rw [toStroops_of_text (amountText_string hd)] at h
      split at h
      · exact ⟨_, (Except.error.inj h).symm⟩
      split at h
      · exact ⟨_, (Except.error.inj h).symm⟩
      · cases h
    · rw [toStroops_of_signed hd] at h
      exact ⟨_, (Except.error.inj h).symm⟩
  · rw [toStroops_of_malformed hdecimal] at h
    exact ⟨_, (Except.error.inj h).symm⟩

/-- A number is rounded to the nearest number of stroops. -/
theorem toStroops_number {x : ℚ} (hx : 0 ≤ x) (hlt : x < 10 ^ 21) :
    toStroops J (.number (.finite x)) = .ok ⌊x * 10 ^ 7 + 1 / 2⌋₊ := by
  have hlength := DecimalText.fixed_frac_length (n := ⌊x * 10 ^ 7 + 1 / 2⌋₊) (p := 7) (by omega)
  have htext : amountText J (.number (.finite x)) =
      .ok (DecimalText.fixed ⌊x * 10 ^ 7 + 1 / 2⌋₊ 7).chars := by
    rw [DecimalText.chars, if_neg (List.length_pos_iff.mp (by omega)), amountText, toFixed,
      abs_of_nonneg hx, if_neg (not_le.mpr hlt), if_neg (not_lt.mpr hx)]
    rfl
  have hstroops : stroopsOf (DecimalText.fixed ⌊x * 10 ^ 7 + 1 / 2⌋₊ 7) = ⌊x * 10 ^ 7 + 1 / 2⌋₊ := by
    rw [← Nat.cast_inj (R := ℚ), stroopsOf_eq hlength.le, DecimalText.fixed_value (by omega)]
  have hbound : (⌊x * 10 ^ 7 + 1 / 2⌋₊ : ℤ) ≤ i128Max := by
    have hfloor := Nat.floor_le (a := x * 10 ^ 7 + 1 / 2) (by positivity)
    have hlarge : ((⌊x * 10 ^ 7 + 1 / 2⌋₊ : ℕ) : ℚ) ≤ (10 ^ 29 : ℕ) := by
      push_cast
      linarith
    have hnat := Nat.cast_le.mp hlarge
    have hmax : (10 ^ 29 : ℤ) ≤ i128Max := by decide
    omega
  rw [toStroops_of_text htext, if_neg (by omega), hstroops, if_neg (by omega)]

/-! ## Printing -/

/-- A natural number is printed in its digits. -/
theorem toString_natCast (n : ℕ) : toString (n : ℤ) = String.ofList (Nat.toDigits 10 n) := by
  change Int.repr (n : ℤ) = _
  exact Nat.repr_eq_ofList_toDigits

/-- What is printed is the canonical decimal. -/
theorem fromStroops_natCast (n : ℕ) : (fromStroops n).toList = (DecimalText.fixed n 7).strip.chars := by
  have hwhole : (n : ℤ).tdiv 10000000 = (n / 10 ^ 7 : ℕ) := rfl
  have hfrac : (n : ℤ).tmod 10000000 = (n % 10 ^ 7 : ℕ) := rfl
  rw [fromStroops, hwhole, hfrac, toString_natCast, toString_natCast, String.toList_ofList,
    DecimalText.chars, DecimalText.strip, DecimalText.fixed]
  by_cases hnil : stripZeros (padStart 7 (Nat.toDigits 10 (n % 10 ^ 7))) = []
  · rw [if_pos hnil, if_neg (by rw [hnil]; exact Nat.lt_irrefl 0), String.toList_ofList]
  · rw [if_neg hnil, if_pos (List.length_pos_iff.mpr hnil), String.toList_append, String.toList_append,
      String.toList_ofList, String.toList_ofList, String.toList_ofList, List.append_assoc,
      List.singleton_append]

/-- The printed text has the value of the stroops. -/
theorem printed_value (n : ℕ) : (DecimalText.fixed n 7).strip.value * 10 ^ 7 = n := by
  rw [DecimalText.strip_value]
  exact DecimalText.fixed_value (by omega)

/-- Printing and reading back gives the same stroops. -/
theorem toStroops_fromStroops {n : ℕ} (h : (n : ℤ) ≤ i128Max) :
    toStroops J (.string (fromStroops n)) = .ok n := by
  have hplaces := DecimalText.strip_frac_length (d := DecimalText.fixed n 7)
  rw [DecimalText.fixed_frac_length (by omega)] at hplaces
  have htext : trim (fromStroops n).toList = (DecimalText.fixed n 7).strip.chars := by
    rw [fromStroops_natCast, trim_chars]
  rw [toStroops_string_eq_ok_iff htext, printed_value]
  refine ⟨hplaces, ?_, Int.cast_natCast n⟩
  rw [← Int.cast_natCast, Int.cast_le]
  exact h

/-- The texts and the amounts correspond exactly. -/
structure AmountsExact (J : Conversions) : Prop where
  /-- A text is accepted exactly if it is a decimal of at most seven places that fits. -/
  accepted_iff : ∀ s, (∃ z, toStroops J (.string s) = .ok z) ↔
    ∃ d : DecimalText, trim s.toList = d.chars ∧ d.frac.length ≤ 7 ∧ d.value * 10 ^ 7 ≤ i128Max
  /-- The result is the value of the text in stroops. -/
  exact_value : ∀ s z, toStroops J (.string s) = .ok z →
    ∀ d : DecimalText, trim s.toList = d.chars → (z : ℚ) = d.value * 10 ^ 7
  /-- Every other text is refused with `INVALID_AMOUNT`. -/
  refused : ∀ s error, toStroops J (.string s) = .error error →
    ∃ message, error = .sdk ⟨"INVALID_AMOUNT", message, some (.string s)⟩
  round_trip : ∀ n : ℤ, 0 ≤ n → n ≤ i128Max → toStroops J (.string (fromStroops n)) = .ok n
  /-- What is printed for an accepted text is the shortest text of its value, without needless zeros. -/
  shortest : ∀ s z, toStroops J (.string s) = .ok z →
    ∃ c : DecimalText, (fromStroops z).toList = c.chars ∧ c.Canonical ∧
      (∀ d : DecimalText, trim s.toList = d.chars → c.value = d.value) ∧
      ∀ d : DecimalText, d.value = c.value → d ≠ c → c.chars.length < d.chars.length

/-- Amounts are converted exactly, or refused. -/
theorem amounts_exact (J : Conversions) : AmountsExact J where
  accepted_iff s := by
    constructor
    · rintro ⟨z, hz⟩
      obtain ⟨d, hd⟩ := exists_chars_of_toStroops hz
      obtain ⟨hplaces, hfits, -⟩ := (toStroops_string_eq_ok_iff hd).mp hz
      exact ⟨d, hd, hplaces, hfits⟩
    · rintro ⟨d, hd, hplaces, hfits⟩
      refine ⟨stroopsOf d, (toStroops_string_eq_ok_iff hd).mpr ⟨hplaces, hfits, ?_⟩⟩
      rw [Int.cast_natCast, stroopsOf_eq hplaces]
  exact_value s z hz d hd := ((toStroops_string_eq_ok_iff hd).mp hz).2.2
  refused s error h := toStroops_string_error h
  round_trip n hn hmax := by
    lift n to ℕ using hn
    exact toStroops_fromStroops hmax
  shortest s z hz := by
    obtain ⟨d, hd⟩ := exists_chars_of_toStroops hz
    obtain ⟨hplaces, hfits, hvalue⟩ := (toStroops_string_eq_ok_iff hd).mp hz
    rw [← stroopsOf_eq hplaces, ← Int.cast_natCast, Int.cast_inj] at hvalue
    subst hvalue
    have hcanonical := DecimalText.strip_fixed_canonical (stroopsOf d) 7
    refine ⟨_, fromStroops_natCast _, hcanonical, fun d' hd' => ?_, fun d' => hcanonical.shortest⟩
    -- both are the number of stroops over ten to the seventh
    obtain ⟨-, -, hvalue⟩ := (toStroops_string_eq_ok_iff hd').mp hz
    rw [Int.cast_natCast, ← printed_value] at hvalue
    exact mul_right_cancel₀ (by norm_num) hvalue

end LineProof.Sdk
