import Mathlib.Algebra.Order.Archimedean.Basic
import Mathlib.Algebra.Order.Floor.Ring
import Mathlib.Data.List.DropRight
import Mathlib.Data.Rat.Floor
import Mathlib.Tactic.FieldSimp
import Mathlib.Tactic.Ring

/-!
# Decimal texts

Runs of decimal digits, the numbers they stand for (`numeral`), and numbers with a decimal point. A run of
digits is determined by its length and its number (`numeral_inj`), so a run is what `Nat.toDigits` prints, up
to leading zeros (`exists_zeros_append_toDigits`), and two fractions of the same value differ in trailing
zeros. A decimal without needless zeros is therefore shorter than every other one of its value
(`DecimalText.Canonical.shortest`).
-/

namespace Decimals

variable {as bs cs : List Char} {n p : ℕ}

/-- The number a run of decimal digits stands for. -/
def numeral (cs : List Char) : ℕ := Nat.ofDigitChars 10 cs 0

/-- Nothing but decimal digits. -/
def IsDigits (cs : List Char) : Prop := ∀ c ∈ cs, c.isDigit = true

/-- So many zeros. -/
abbrev zeros (k : ℕ) : List Char := List.replicate k '0'

/-- Two runs of digits are one. -/
theorem isDigits_append : IsDigits (as ++ bs) ↔ IsDigits as ∧ IsDigits bs :=
  List.forall_mem_append

/-- Zeros are digits. -/
theorem isDigits_zeros (k : ℕ) : IsDigits (zeros k) := by
  intro c hc
  rw [List.eq_of_mem_replicate hc]
  rfl

/-- What is printed for a natural number is a run of digits. -/
theorem isDigits_toDigits (n : ℕ) : IsDigits (Nat.toDigits 10 n) :=
  fun _ hc => Nat.isDigit_of_mem_toDigits (by omega) (by omega) hc

/-! ## Numbers -/

@[simp] theorem numeral_nil : numeral [] = 0 := Nat.ofDigitChars_nil

@[simp] theorem numeral_toDigits (n : ℕ) : numeral (Nat.toDigits 10 n) = n :=
  Nat.ofDigitChars_ten_toDigits

/-- The front of a numeral counts once more for each place behind it. -/
theorem numeral_append (as bs : List Char) :
    numeral (as ++ bs) = 10 ^ bs.length * numeral as + numeral bs := by
  rw [numeral, Nat.ofDigitChars_append, Nat.ofDigitChars_eq_ofDigitChars_zero]
  rfl

/-- A digit alone stands for itself. -/
theorem numeral_singleton (c : Char) : numeral [c] = c.toNat - 48 := by
  rw [numeral, Nat.ofDigitChars_cons, Nat.ofDigitChars_nil]
  simp

/-- Zeros stand for zero. -/
theorem numeral_zeros (k : ℕ) : numeral (zeros k) = 0 := by
  rw [numeral, Nat.ofDigitChars_replicate_zero, Nat.mul_zero]

/-- Zeros at the end are factors of ten. -/
theorem numeral_append_zeros (cs : List Char) (k : ℕ) : numeral (cs ++ zeros k) = 10 ^ k * numeral cs := by
  rw [numeral_append, numeral_zeros, List.length_replicate, Nat.add_zero]

/-- Zeros at the front say nothing. -/
theorem numeral_zeros_append (k : ℕ) (cs : List Char) : numeral (zeros k ++ cs) = numeral cs := by
  rw [numeral_append, numeral_zeros, Nat.mul_zero, Nat.zero_add]

/-- A digit stands for less than ten. -/
theorem numeral_digit_lt {c : Char} (h : c.isDigit = true) : numeral [c] < 10 := by
  have hrange := Char.isDigit_iff_toNat.mp h
  simp only [Char.reduceToNat] at hrange
  rw [numeral_singleton]
  omega

/-- A digit is what is printed for its number. -/
theorem toDigits_digit {c : Char} (h : c.isDigit = true) : Nat.toDigits 10 (numeral [c]) = [c] := by
  have hrange := Char.isDigit_iff_toNat.mp h
  simp only [Char.reduceToNat] at hrange
  rw [Nat.toDigits_of_lt_base (numeral_digit_lt h)]
  have hchar : (Nat.digitChar (numeral [c])).toNat = c.toNat := by
    rw [Nat.toNat_digitChar_of_lt_ten (numeral_digit_lt h), numeral_singleton]
    omega
  rw [Char.toNat_inj.mp hchar]

/-- A numeral is below the power of ten of its length. -/
theorem numeral_lt (h : IsDigits cs) : numeral cs < 10 ^ cs.length := by
  induction cs using List.reverseRecOn with
  | nil => simp
  | append_singleton cs c ih =>
    obtain ⟨hcs, hc⟩ := isDigits_append.mp h
    have hdigit := numeral_digit_lt (hc c (List.mem_singleton_self c))
    have hrest := ih hcs
    rw [numeral_append, List.length_append, List.length_singleton, pow_one, pow_succ]
    omega

/-- Runs of digits of one length with the same number are the same. -/
theorem numeral_inj (hlength : as.length = bs.length) (has : IsDigits as) (hbs : IsDigits bs)
    (h : numeral as = numeral bs) : as = bs := by
  induction as using List.reverseRecOn generalizing bs with
  | nil => exact (List.length_eq_zero_iff.mp hlength.symm).symm
  | append_singleton as a ih =>
    obtain rfl | ⟨bs, b, rfl⟩ := List.eq_nil_or_concat' bs
    · simp at hlength
    obtain ⟨has, ha⟩ := isDigits_append.mp has
    obtain ⟨hbs, hb⟩ := isDigits_append.mp hbs
    have hdigit := ha a (List.mem_singleton_self a)
    have hdigit' := hb b (List.mem_singleton_self b)
    rw [numeral_append, numeral_append, List.length_singleton, List.length_singleton, pow_one] at h
    have hlt := numeral_digit_lt hdigit
    have hlt' := numeral_digit_lt hdigit'
    -- the last digits are the remainders by ten
    have hlast : numeral [a] = numeral [b] := by omega
    have hrest : numeral as = numeral bs := by omega
    rw [List.length_append, List.length_append] at hlength
    have hlists := congrArg (Nat.toDigits 10) hlast
    rw [toDigits_digit hdigit, toDigits_digit hdigit'] at hlists
    rw [ih (by simpa using hlength) has hbs hrest, hlists]

/-- The last digits of a number determine themselves and the number before them. -/
theorem numeral_append_inj {ds : List Char} (hlength : bs.length = ds.length) (hbs : IsDigits bs)
    (hds : IsDigits ds) (h : numeral (as ++ bs) = numeral (cs ++ ds)) :
    numeral as = numeral cs ∧ bs = ds := by
  rw [numeral_append, numeral_append, ← hlength] at h
  have hlt := numeral_lt hbs
  have hlt' : numeral ds < 10 ^ bs.length := hlength ▸ numeral_lt hds
  have hfirst := congrArg (· / 10 ^ bs.length) h
  have hlast := congrArg (· % 10 ^ bs.length) h
  simp only [Nat.mul_add_mod, Nat.mod_eq_of_lt hlt, Nat.mod_eq_of_lt hlt'] at hlast
  simp only [Nat.mul_add_div (Nat.pow_pos (n := bs.length) (by omega : 0 < 10)), Nat.div_eq_of_lt hlt,
    Nat.div_eq_of_lt hlt', Nat.add_zero] at hfirst
  exact ⟨hfirst, numeral_inj hlength hbs hds hlast⟩

/-- A run of digits is its number as it is printed, after some zeros. -/
theorem exists_zeros_append_toDigits (hne : cs ≠ []) (h : IsDigits cs) :
    ∃ k, cs = zeros k ++ Nat.toDigits 10 (numeral cs) := by
  induction cs using List.reverseRecOn with
  | nil => exact absurd rfl hne
  | append_singleton cs c ih =>
    obtain ⟨hcs, hc⟩ := isDigits_append.mp h
    have hdigit := hc c (List.mem_singleton_self c)
    rw [numeral_append, List.length_singleton, pow_one]
    by_cases hzero : numeral cs = 0
    · -- nothing but zeros before the last digit
      refine ⟨cs.length, ?_⟩
      have hlength : cs.length = (zeros cs.length).length := (List.length_replicate).symm
      have hcs' : cs = zeros cs.length := by
        refine numeral_inj hlength hcs (isDigits_zeros _) ?_
        rw [hzero, numeral_zeros]
      rw [hzero, Nat.mul_zero, Nat.zero_add, toDigits_digit hdigit, ← hcs']
    · obtain ⟨k, hk⟩ := ih (fun hnil => hzero (by rw [hnil, numeral_nil])) hcs
      refine ⟨k, ?_⟩
      have hprint := Nat.toDigits_append_toDigits (b := 10) (by omega) (Nat.pos_of_ne_zero hzero)
        (numeral_digit_lt hdigit)
      rw [← hprint, toDigits_digit hdigit, ← List.append_assoc, ← hk]

/-- Only zero is printed with a zero in front. -/
theorem eq_zero_of_head?_toDigits (h : (Nat.toDigits 10 n).head? = some '0') : n = 0 := by
  obtain ⟨rest, hrest⟩ := List.head?_eq_some_iff.mp h
  have hdigits : IsDigits rest := by
    have hall := isDigits_toDigits n
    rw [hrest] at hall
    exact (List.forall_mem_cons.mp hall).2
  have hn : n = numeral rest := by
    rw [← numeral_toDigits n, hrest, ← List.singleton_append]
    exact numeral_zeros_append 1 rest
  have hlt := numeral_lt hdigits
  by_cases hnil : rest = []
  · rw [hn, hnil, numeral_nil]
  · -- a shorter run would have been printed
    have hle := (Nat.length_toDigits_le_iff (b := 10) (by omega) (List.length_pos_iff.mpr hnil)).mpr
      (hn.symm ▸ hlt : n < 10 ^ rest.length)
    rw [hrest, List.length_cons] at hle
    omega

/-! ## Zeros around a text -/

/-- Zeros in front, up to a length. -/
def padStart (p : ℕ) (cs : List Char) : List Char := zeros (p - cs.length) ++ cs

/-- Padding adds digits only. -/
theorem isDigits_padStart : IsDigits (padStart p cs) ↔ IsDigits cs := by
  rw [padStart, isDigits_append]
  exact and_iff_right (isDigits_zeros _)

/-- Padding leaves the number. -/
theorem numeral_padStart (p : ℕ) (cs : List Char) : numeral (padStart p cs) = numeral cs :=
  numeral_zeros_append _ cs

/-- A text that is not too long is padded to the length. -/
theorem length_padStart (h : cs.length ≤ p) : (padStart p cs).length = p := by
  rw [padStart, List.length_append, List.length_replicate]
  omega

/-- The text without its trailing zeros. -/
def stripZeros (cs : List Char) : List Char := cs.rdropWhile (· = '0')

/-- What is stripped are zeros at the end. -/
theorem exists_stripZeros_append (cs : List Char) : ∃ k, cs = stripZeros cs ++ zeros k := by
  refine ⟨(cs.rtakeWhile (· = '0')).length, ?_⟩
  have hzeros : cs.rtakeWhile (· = '0') = zeros (cs.rtakeWhile (· = '0')).length :=
    List.eq_replicate_of_mem fun c hc => by simpa using List.mem_rtakeWhile_imp hc
  rw [← hzeros, stripZeros, List.rdropWhile_append_rtakeWhile]

/-- Zeros that are appended are stripped again. -/
theorem stripZeros_append_zeros (cs : List Char) (k : ℕ) : stripZeros (cs ++ zeros k) = stripZeros cs := by
  induction k with
  | zero => rw [zeros, List.replicate_zero, List.append_nil]
  | succ k ih =>
    rw [zeros, List.replicate_succ', ← List.append_assoc, stripZeros,
      List.rdropWhile_concat_pos _ _ _ (by simp)]
    exact ih

/-- Exactly a text without a zero at the end stays as it is. -/
theorem stripZeros_eq_self_iff : stripZeros cs = cs ↔ cs.getLast? ≠ some '0' := by
  rw [stripZeros, List.rdropWhile_eq_self_iff]
  by_cases hne : cs = []
  · simp [hne]
  · simp [hne, List.getLast?_eq_some_getLast hne]

/-- Stripping leaves digits. -/
theorem IsDigits.stripZeros (h : IsDigits cs) : IsDigits (stripZeros cs) :=
  fun c hc => h c ((List.rdropWhile_prefix _ cs).subset hc)

/-- A stripped text does not end with a zero. -/
theorem getLast?_stripZeros (cs : List Char) : (stripZeros cs).getLast? ≠ some '0' := by
  obtain ⟨k, hk⟩ := exists_stripZeros_append cs
  have hstrip := stripZeros_append_zeros (stripZeros cs) k
  rw [← hk] at hstrip
  exact stripZeros_eq_self_iff.mp hstrip.symm

/-- Fractions of one value, after padding to a common length, differ in trailing zeros. -/
theorem exists_append_zeros {i j : ℕ} (hbs : bs.getLast? ≠ some '0')
    (h : as ++ zeros i = bs ++ zeros j) : ∃ k, as = bs ++ zeros k := by
  have hstrip := congrArg stripZeros h
  rw [stripZeros_append_zeros, stripZeros_append_zeros, stripZeros_eq_self_iff.mpr hbs] at hstrip
  rw [← hstrip]
  exact exists_stripZeros_append as

/-! ## Decimals -/

/-- Digits, and after a point more digits. Without these the point is left out. -/
@[ext]
structure DecimalText where
  whole : List Char
  frac : List Char
  whole_ne : whole ≠ []
  whole_digits : IsDigits whole
  frac_digits : IsDigits frac

namespace DecimalText

variable (d c : DecimalText)

/-- The text itself, without a point if there is no fraction. -/
def chars : List Char := if d.frac = [] then d.whole else d.whole ++ '.' :: d.frac

/-- All the digits, without the point. -/
def digits : List Char := d.whole ++ d.frac

/-- The number that the text stands for. -/
def value : ℚ := numeral d.digits / 10 ^ d.frac.length

/-- Without needless zeros. -/
structure Canonical : Prop where
  /-- the only whole number with a zero in front is zero -/
  leading : d.whole.head? = some '0' → d.whole = ['0']
  trailing : d.frac.getLast? ≠ some '0'

variable {d c}

/-- A decimal text has no other characters. -/
theorem digit_or_point (d : DecimalText) {ch : Char} (h : ch ∈ d.chars) : ch.isDigit = true ∨ ch = '.' := by
  rw [chars] at h
  split at h
  · exact Or.inl (d.whole_digits ch h)
  · rw [List.mem_append, List.mem_cons] at h
    obtain hwhole | rfl | hfrac := h
    · exact Or.inl (d.whole_digits ch hwhole)
    · exact Or.inr rfl
    · exact Or.inl (d.frac_digits ch hfrac)

/-- Scaled by a power of ten that covers the fraction, the value is that of a run of digits. -/
theorem value_mul_pow (h : d.frac.length ≤ p) :
    d.value * 10 ^ p = (numeral (d.digits ++ zeros (p - d.frac.length)) : ℕ) := by
  rw [value, numeral_append_zeros, Nat.cast_mul, Nat.cast_pow, Nat.cast_ofNat, div_mul_eq_mul_div,
    div_eq_iff (by positivity), mul_right_comm, ← pow_add, Nat.sub_add_cancel h, mul_comm]

/-- The point takes one place, if there is a fraction. -/
theorem chars_length : d.chars.length =
    d.whole.length + if d.frac = [] then 0 else d.frac.length + 1 := by
  rw [chars]
  split <;> simp

/-- The whole part of a canonical text is the one that is printed. -/
theorem Canonical.whole_eq (hc : c.Canonical) : c.whole = Nat.toDigits 10 (numeral c.whole) := by
  obtain ⟨k, hk⟩ := exists_zeros_append_toDigits c.whole_ne c.whole_digits
  cases k with
  | zero => exact hk
  | succ k =>
    have hzero : c.whole = ['0'] := hc.leading (by rw [hk]; rfl)
    rw [hzero]
    rfl

/-- Every text of the value of a canonical one is that one with zeros around it. -/
theorem Canonical.exists_zeros (hc : c.Canonical) (h : d.value = c.value) :
    ∃ i j, d.whole = zeros i ++ c.whole ∧ d.frac = c.frac ++ zeros j := by
  have hscaled := congrArg (· * (10 : ℚ) ^ (d.frac.length + c.frac.length)) h
  simp only [value_mul_pow (Nat.le_add_right _ _), value_mul_pow (Nat.le_add_left _ _),
    Nat.add_sub_cancel_left, Nat.add_sub_cancel, Nat.cast_inj, digits, List.append_assoc] at hscaled
  obtain ⟨hwhole, hfrac⟩ := numeral_append_inj
    (by simp only [List.length_append, List.length_replicate]; omega)
    (isDigits_append.mpr ⟨d.frac_digits, isDigits_zeros _⟩)
    (isDigits_append.mpr ⟨c.frac_digits, isDigits_zeros _⟩) hscaled
  obtain ⟨i, hi⟩ := exists_zeros_append_toDigits d.whole_ne d.whole_digits
  obtain ⟨j, hj⟩ := exists_append_zeros hc.trailing hfrac
  refine ⟨i, j, ?_, hj⟩
  rw [hi, hwhole, ← hc.whole_eq]

/-- A canonical decimal is shorter than every other one of its value. -/
theorem Canonical.shortest (hc : c.Canonical) (h : d.value = c.value) (hne : d ≠ c) :
    c.chars.length < d.chars.length := by
  obtain ⟨i, j, hwhole, hfrac⟩ := hc.exists_zeros h
  have hzeros : 0 < i + j := by
    by_contra hnone
    obtain ⟨rfl, rfl⟩ : i = 0 ∧ j = 0 := by omega
    exact hne (DecimalText.ext (by simpa using hwhole) (by simpa using hfrac))
  rw [chars_length, chars_length, hwhole, hfrac, List.length_append, List.length_append,
    List.length_replicate, List.length_replicate]
  by_cases hcfrac : c.frac = []
  · rw [hcfrac, if_pos rfl, List.nil_append, List.length_nil]
    split
    next hj =>
      rw [List.replicate_eq_nil_iff] at hj
      omega
    next => omega
  · rw [if_neg hcfrac, if_neg (by simp [hcfrac])]
    omega

/-! ### Printing -/

/-- `n` units of the `p`-th decimal place, with every place written. -/
def fixed (n p : ℕ) : DecimalText where
  whole := Nat.toDigits 10 (n / 10 ^ p)
  frac := padStart p (Nat.toDigits 10 (n % 10 ^ p))
  whole_ne := Nat.toDigits_ne_nil
  whole_digits := isDigits_toDigits _
  frac_digits := isDigits_padStart.mpr (isDigits_toDigits _)

/-- A fixed-point text has its number of places. -/
theorem fixed_frac_length (hp : 0 < p) : (fixed n p).frac.length = p := by
  have hlt := Nat.mod_lt n (Nat.pow_pos (n := p) (by omega : 0 < 10))
  exact length_padStart ((Nat.length_toDigits_le_iff (b := 10) (by omega) hp).mpr hlt)

/-- A fixed-point text stands for its number of units. -/
theorem fixed_value (hp : 0 < p) : (fixed n p).value * 10 ^ p = n := by
  have hlength := fixed_frac_length (n := n) hp
  rw [value_mul_pow hlength.le, hlength, Nat.sub_self, zeros, List.replicate_zero, List.append_nil,
    digits, numeral_append, hlength]
  simp only [fixed, numeral_padStart, numeral_toDigits, Nat.div_add_mod]

/-- Without the zeros at the end. -/
def strip (d : DecimalText) : DecimalText where
  whole := d.whole
  frac := stripZeros d.frac
  whole_ne := d.whole_ne
  whole_digits := d.whole_digits
  frac_digits := d.frac_digits.stripZeros

/-- Stripping the fraction leaves the value. -/
theorem strip_value : d.strip.value = d.value := by
  obtain ⟨k, hk⟩ := exists_stripZeros_append d.frac
  have hlength : d.frac.length = d.strip.frac.length + k := by
    rw [← List.length_replicate (n := k) (a := '0'), strip, ← List.length_append, ← hk]
  have hscaled := value_mul_pow (d := d.strip) (p := d.frac.length) (by omega)
  have hzeros : d.frac.length - d.strip.frac.length = k := by omega
  have hdigits : d.strip.digits ++ zeros k = d.digits := by
    rw [digits, List.append_assoc, strip, ← hk, digits]
  rw [hzeros, hdigits] at hscaled
  exact eq_div_of_mul_eq (by positivity) hscaled

/-- Stripping adds no places. -/
theorem strip_frac_length : d.strip.frac.length ≤ d.frac.length :=
  (List.rdropWhile_prefix _ d.frac).length_le

/-- The stripped fixed-point text is canonical. -/
theorem strip_fixed_canonical (n p : ℕ) : (fixed n p).strip.Canonical where
  leading h := by
    change Nat.toDigits 10 (n / 10 ^ p) = ['0']
    rw [eq_zero_of_head?_toDigits h]
    rfl
  trailing := getLast?_stripZeros _

end DecimalText

end Decimals
