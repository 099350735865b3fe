import LineProof.Lib.Decimals
import LineProof.Sdk.Js

/-!
# Numbers without a fraction

A number that `parseInt` returns is an integer or an infinity. It is the double nearest to the integer that
the digits stand for, and it is written with as few digits as tell it from every other double. Up to
`2 ^ 53` both conversions are exact.
-/

namespace LineProof.Sdk

open Decimals (stripZeros)

/-- The double nearest to a natural number, the one with an even significand of two. -/
def nearestDouble (n : ℕ) : ℕ :=
  -- 53 bits are kept
  let unit := 2 ^ (Nat.log2 n - 52)
  let low := n / unit
  if unit < 2 * (n % unit) ∨ (unit = 2 * (n % unit) ∧ low % 2 = 1) then (low + 1) * unit
  else low * unit

/-- The multiples of a power of ten around `x`, the nearer one first, the even one of two. -/
def decimalsAround (x power : ℕ) : List ℕ :=
  let low := x / power
  if 2 * (x % power) < power ∨ (2 * (x % power) = power ∧ low % 2 = 0) then
    [low * power, (low + 1) * power]
  else [(low + 1) * power, low * power]

/-- The number with the fewest significant decimal digits among those whose nearest double is `x`. -/
def shortest (x : ℕ) : ℕ :=
  let powers := (List.range ((Nat.toDigits 10 x).length + 1)).reverse.map (10 ^ ·)
  ((powers.flatMap (decimalsAround x)).find? fun y => nearestDouble y = x).getD x

/-- The text of a double that is a natural number. -/
def naturalText (x : ℕ) : List Char :=
  let digits := Nat.toDigits 10 (shortest x)
  if digits.length ≤ 21 then digits
  else
    let exponent := 'e' :: '+' :: Nat.toDigits 10 (digits.length - 1)
    match stripZeros digits with
    | first :: second :: rest => first :: '.' :: second :: rest ++ exponent
    | first => first ++ exponent

/-- An integer that is a double, or an infinity. -/
inductive JsInteger
  | finite (z : ℤ)
  | infinite (negative : Bool)
deriving DecidableEq

namespace JsInteger

/-- Also of an infinity. -/
def neg : JsInteger → JsInteger
  | finite z => finite (-z)
  | infinite negative => infinite !negative

/-- The number that the digits of `n` stand for. -/
def ofNat (n : ℕ) : JsInteger :=
  if nearestDouble n < 2 ^ 1024 then finite (nearestDouble n) else infinite false

/-- `x + 1`. -/
def succ : JsInteger → JsInteger
  | finite z => if 0 ≤ z + 1 then ofNat (z + 1).toNat else (ofNat (z + 1).natAbs).neg
  | infinite negative => infinite negative

/-- `String(x)`. -/
def text : JsInteger → List Char
  | finite z => if z < 0 then '-' :: naturalText z.natAbs else naturalText z.toNat
  | infinite negative => if negative then "-Infinity".toList else "Infinity".toList

end JsInteger

variable {n x y : ℕ}

/-- A text of digits is read as its numeral. -/
theorem digits?_eq {cs : List Char} (hne : cs ≠ []) (h : Decimals.IsDigits cs) :
    digits? cs = some (Decimals.numeral cs) :=
  if_pos ⟨hne, List.all_eq_true.mpr h⟩

/-! ## Rounding -/

/-- Small numbers are doubles. -/
theorem nearestDouble_of_lt (h : n < 2 ^ 53) : nearestDouble n = n := by
  have hlog : Nat.log2 n - 52 = 0 := by
    by_cases hzero : n = 0
    · rw [hzero]
      rfl
    · have hlt := (Nat.log2_lt hzero).mpr h
      omega
  simp [nearestDouble, hlog, Nat.mod_one]

/-- Large numbers stay large. -/
theorem le_nearestDouble (h : 2 ^ 53 ≤ n) : 2 ^ 53 ≤ nearestDouble n := by
  have hne : n ≠ 0 := by omega
  have hlog : 53 ≤ Nat.log2 n := (Nat.le_log2 hne).mpr h
  obtain ⟨e, he⟩ : ∃ e, Nat.log2 n = 52 + (e + 1) := ⟨Nat.log2 n - 53, by omega⟩
  have hself := Nat.log2_self_le hne
  rw [he] at hself
  -- the significand has 53 bits
  have hlow : 2 ^ 52 ≤ n / 2 ^ (e + 1) := by
    rw [Nat.le_div_iff_mul_le (Nat.two_pow_pos _), ← pow_add]
    exact hself
  have hunit : 2 ≤ 2 ^ (e + 1) := by
    rw [pow_succ]
    have hpos := Nat.two_pow_pos e
    omega
  have hprod : 2 ^ 53 ≤ n / 2 ^ (e + 1) * 2 ^ (e + 1) := Nat.mul_le_mul hlow hunit
  have hexp : Nat.log2 n - 52 = e + 1 := by omega
  simp only [nearestDouble, hexp]
  split
  · exact hprod.trans (Nat.mul_le_mul_right _ (Nat.le_succ _))
  · exact hprod

/-- Rounding at most doubles. -/
theorem nearestDouble_le (n : ℕ) : nearestDouble n ≤ 2 * n := by
  by_cases hlt : n < 2 ^ 53
  · rw [nearestDouble_of_lt hlt]
    omega
  · have hne : n ≠ 0 := by omega
    have hunit : 2 ^ (Nat.log2 n - 52) ≤ n :=
      (Nat.pow_le_pow_right (by omega) (Nat.sub_le _ _)).trans (Nat.log2_self_le hne)
    have hlow := Nat.div_mul_le_self n (2 ^ (Nat.log2 n - 52))
    simp only [nearestDouble]
    split
    · rw [Nat.add_mul, Nat.one_mul]
      omega
    · omega

/-- No other number rounds to one below `2 ^ 53`. -/
theorem eq_of_nearestDouble (h : nearestDouble y = x) (hx : x < 2 ^ 53) : y = x := by
  by_cases hy : y < 2 ^ 53
  · rwa [nearestDouble_of_lt hy] at h
  · have hle := le_nearestDouble (Nat.le_of_not_lt hy)
    omega

/-- Small numbers are printed exactly. -/
theorem shortest_of_lt (h : x < 2 ^ 53) : shortest x = x := by
  rw [shortest]
  cases hfind : List.find? _ _ with
  | none => rfl
  | some y => exact eq_of_nearestDouble (by simpa using List.find?_some hfind) h

/-- Below the exponent notation a number is read as its nearest double. -/
theorem JsInteger.ofNat_of_lt (h : n < 10 ^ 21) : ofNat n = finite (nearestDouble n) := by
  have hle := nearestDouble_le n
  have hlt : nearestDouble n < 2 ^ 71 := by omega
  refine if_pos (hlt.trans_le ?_)
  gcongr <;> omega

/-! ## Texts -/

/-- Small numbers are printed in their digits. -/
theorem naturalText_of_lt (h : x < 2 ^ 53) : naturalText x = Nat.toDigits 10 x := by
  have hlength : (Nat.toDigits 10 x).length ≤ 21 :=
    (Nat.length_toDigits_le_iff (by omega) (by omega)).mpr (by omega)
  simp only [naturalText, shortest_of_lt h, if_pos hlength]

/-- A text is made of digits, and of the signs of an exponent. -/
theorem mem_naturalText {c : Char} (h : c ∈ naturalText x) :
    c.isDigit = true ∨ c = '.' ∨ c = 'e' ∨ c = '+' := by
  have hdigits (k : ℕ) : c ∈ Nat.toDigits 10 k → c.isDigit = true := Decimals.isDigits_toDigits k c
  have hstrip : c ∈ stripZeros (Nat.toDigits 10 (shortest x)) → c.isDigit = true :=
    fun hc => (Decimals.isDigits_toDigits _).stripZeros c hc
  simp only [naturalText] at h
  split at h
  · exact Or.inl (hdigits _ h)
  · split at h
    · case _ hsplit =>
      rw [hsplit] at hstrip
      simp only [List.mem_cons, List.mem_append] at h hstrip
      grind
    · simp only [List.mem_cons, List.mem_append] at h
      grind

/-- From `10 ^ 21` on a text begins with one digit that no digit follows. -/
theorem naturalText_of_long (h : 21 < (Nat.toDigits 10 (shortest x)).length) :
    ∃ d c rest, naturalText x = d :: c :: rest ∧ d.isDigit = true ∧ c.isDigit = false := by
  have hdigits := (Decimals.isDigits_toDigits (shortest x)).stripZeros
  have hne : stripZeros (Nat.toDigits 10 (shortest x)) ≠ [] := by
    intro hnil
    obtain ⟨k, hk⟩ := Decimals.exists_stripZeros_append (Nat.toDigits 10 (shortest x))
    have hvalue := Decimals.numeral_toDigits (shortest x)
    rw [hk, hnil, List.nil_append, Decimals.numeral_zeros] at hvalue
    rw [← hvalue] at h
    exact absurd h (by decide)
  simp only [naturalText, if_neg (Nat.not_le_of_lt h)]
  split
  · case _ hsplit =>
    rw [hsplit] at hdigits
    exact ⟨_, _, _, rfl, hdigits _ List.mem_cons_self, rfl⟩
  · case _ hshort =>
    match hcs : stripZeros (Nat.toDigits 10 (shortest x)), hne with
    | [d], _ =>
      rw [hcs] at hdigits
      exact ⟨d, 'e', _, rfl, hdigits d List.mem_cons_self, rfl⟩
    | first :: second :: rest, _ => exact absurd hcs (hshort first second rest)

end LineProof.Sdk
