import LineProof.Lib.Decimals

/-!
# Hexadecimal texts

The number a run of hexadecimal digits stands for (`numeral`), and the bytes that its pairs of digits stand
for (`toBytes`). Read as big-endian digits, the bytes are that number again (`bigEndian_toBytes`).
-/

namespace Hex

open Decimals (zeros padStart)

variable {as bs cs : List Char} {n p : ℕ}

/-- The number a hexadecimal digit stands for. -/
def digit? (c : Char) : Option ℕ :=
  let n := c.toNat
  if 48 ≤ n ∧ n ≤ 57 then some (n - 48)
  else if 97 ≤ n ∧ n ≤ 102 then some (n - 87)
  else if 65 ≤ n ∧ n ≤ 70 then some (n - 55)
  else none

/-- Nothing but hexadecimal digits, in either case. -/
def IsHex (cs : List Char) : Prop := ∀ c ∈ cs, (digit? c).isSome = true

/-- The number a run of hexadecimal digits stands for. -/
def numeral (cs : List Char) : ℕ := cs.foldl (fun n c => 16 * n + (digit? c).getD 0) 0

/-- The bytes that pairs of digits stand for, up to the first two characters that are not one. -/
def toBytes : List Char → List UInt8
  | high :: low :: rest =>
    match digit? high, digit? low with
    | some h, some l => UInt8.ofNat (16 * h + l) :: toBytes rest
    | _, _ => []
  | _ => []

/-- Two digits for each byte, in lower case. -/
def ofBytes (bytes : List UInt8) : List Char :=
  bytes.flatMap fun b => [(b.toNat / 16).digitChar, (b.toNat % 16).digitChar]

/-- The number whose digits in base 256 are the bytes. -/
def bigEndian (bytes : List UInt8) : ℕ := bytes.foldl (fun n b => 256 * n + b.toNat) 0

/-! ## Digits -/

/-- The digits that are printed are read back. -/
theorem digit?_digitChar (h : n < 16) : digit? n.digitChar = some n := by
  have hall : ∀ n < 16, digit? n.digitChar = some n := by decide
  exact hall n h

/-- A hexadecimal digit stands for less than sixteen. -/
theorem digit?_lt {c : Char} {d : ℕ} (h : digit? c = some d) : d < 16 := by
  unfold digit? at h
  grind

/-- Two runs of hexadecimal digits are one. -/
theorem isHex_append : IsHex (as ++ bs) ↔ IsHex as ∧ IsHex bs := List.forall_mem_append

/-- Zeros are hexadecimal digits. -/
theorem isHex_zeros (k : ℕ) : IsHex (zeros k) := by
  intro c hc
  rw [List.eq_of_mem_replicate hc]
  rfl

/-! ## Numbers -/

/-- A fold from another start adds the start in front. -/
theorem foldl_numeral (cs : List Char) (start : ℕ) :
    cs.foldl (fun n c => 16 * n + (digit? c).getD 0) start = 16 ^ cs.length * start + numeral cs := by
  induction cs generalizing start with
  | nil => simp [numeral]
  | cons c cs ih =>
    rw [numeral, List.foldl_cons, List.foldl_cons, ih, ih (16 * 0 + _), List.length_cons, pow_succ]
    ring

/-- The front of a numeral counts once more for each place behind it. -/
theorem numeral_append (as bs : List Char) :
    numeral (as ++ bs) = 16 ^ bs.length * numeral as + numeral bs := by
  rw [numeral, List.foldl_append, foldl_numeral]
  rfl

/-- Zeros stand for zero. -/
theorem numeral_zeros (k : ℕ) : numeral (zeros k) = 0 := by
  induction k with
  | zero => rfl
  | succ k ih =>
    rw [zeros, List.replicate_succ', numeral_append, ih]
    rfl

/-- Padding leaves the number. -/
theorem numeral_padStart (p : ℕ) (cs : List Char) : numeral (padStart p cs) = numeral cs := by
  rw [padStart, numeral_append, numeral_zeros, Nat.mul_zero, Nat.zero_add]

/-- Padding leaves hexadecimal digits. -/
theorem isHex_padStart (h : IsHex cs) : IsHex (padStart p cs) :=
  isHex_append.mpr ⟨isHex_zeros _, h⟩

/-- What is printed for a number is hexadecimal and stands for it. -/
theorem toDigits_spec (n : ℕ) : IsHex (Nat.toDigits 16 n) ∧ numeral (Nat.toDigits 16 n) = n := by
  induction n using Nat.strongRecOn with
  | ind n ih =>
    have hlast : digit? (n % 16).digitChar = some (n % 16) := digit?_digitChar (Nat.mod_lt n (by omega))
    by_cases hlt : n < 16
    · rw [Nat.mod_eq_of_lt hlt] at hlast
      rw [Nat.toDigits_of_lt_base hlt]
      constructor
      · intro c hc
        rw [List.mem_singleton.mp hc, hlast]
        rfl
      · rw [numeral, List.foldl_cons, List.foldl_nil, hlast]
        exact Nat.zero_add n
    · rw [Nat.toDigits_of_base_le (by omega) (by omega)]
      obtain ⟨hhex, hvalue⟩ := ih (n / 16) (by omega)
      constructor
      · refine isHex_append.mpr ⟨hhex, ?_⟩
        intro c hc
        rw [List.mem_singleton.mp hc, hlast]
        rfl
      · rw [numeral_append, hvalue, numeral, List.foldl_cons, List.foldl_nil, hlast,
          List.length_singleton, pow_one, Option.getD_some]
        omega

/-! ## Bytes -/

/-- A fold from another start adds the start in front. -/
theorem foldl_bigEndian (bytes : List UInt8) (start : ℕ) :
    bytes.foldl (fun n b => 256 * n + b.toNat) start =
      256 ^ bytes.length * start + bigEndian bytes := by
  induction bytes generalizing start with
  | nil => simp [bigEndian]
  | cons b bytes ih =>
    rw [bigEndian, List.foldl_cons, List.foldl_cons, ih, ih (256 * 0 + _), List.length_cons, pow_succ]
    ring

/-- The first byte is the most significant. -/
theorem bigEndian_cons (b : UInt8) (bytes : List UInt8) :
    bigEndian (b :: bytes) = 256 ^ bytes.length * b.toNat + bigEndian bytes := by
  rw [bigEndian, List.foldl_cons, foldl_bigEndian, Nat.mul_zero, Nat.zero_add]

/-- The front counts once more for each byte behind it. -/
theorem bigEndian_append (front back : List UInt8) :
    bigEndian (front ++ back) = 256 ^ back.length * bigEndian front + bigEndian back := by
  rw [bigEndian, List.foldl_append, foldl_bigEndian]
  rfl

/-- Bytes stand for less than the power of 256 of their number. -/
theorem bigEndian_lt (bytes : List UInt8) : bigEndian bytes < 256 ^ bytes.length := by
  induction bytes with
  | nil => exact Nat.one_pos
  | cons b bytes ih =>
    have hb := b.toNat_lt
    rw [bigEndian_cons, List.length_cons, pow_succ]
    calc 256 ^ bytes.length * b.toNat + bigEndian bytes
        < 256 ^ bytes.length * b.toNat + 256 ^ bytes.length := Nat.add_lt_add_left ih _
      _ = 256 ^ bytes.length * (b.toNat + 1) := (Nat.mul_succ _ _).symm
      _ ≤ 256 ^ bytes.length * 256 := Nat.mul_le_mul_left _ (by omega)

/-- An even number of hexadecimal digits are the bytes of their number. -/
theorem toBytes_spec {k : ℕ} (hlength : cs.length = 2 * k) (h : IsHex cs) :
    (toBytes cs).length = k ∧ bigEndian (toBytes cs) = numeral cs := by
  induction k generalizing cs with
  | zero =>
    rw [List.length_eq_zero_iff.mp hlength]
    exact ⟨rfl, rfl⟩
  | succ k ih =>
    match cs, hlength, h with
    | high :: low :: rest, hlength, h =>
      obtain ⟨hhigh, hlow, hrest⟩ : (digit? high).isSome = true ∧ (digit? low).isSome = true ∧ IsHex rest :=
        ⟨h _ (by simp), h _ (by simp), fun c hc => h c (by simp [hc])⟩
      obtain ⟨d, hd⟩ := Option.isSome_iff_exists.mp hhigh
      obtain ⟨e, he⟩ := Option.isSome_iff_exists.mp hlow
      have hlengthRest : rest.length = 2 * k := by
        simp only [List.length_cons] at hlength
        omega
      obtain ⟨hcount, hvalue⟩ := ih hlengthRest hrest
      have hdlt := digit?_lt hd
      have helt := digit?_lt he
      have hbyte : (UInt8.ofNat (16 * d + e)).toNat = 16 * d + e :=
        UInt8.toNat_ofNat_of_lt' (by show _ < 256; omega)
      have hpow : 16 ^ (2 * k) = 256 ^ k := pow_mul 16 2 k
      have hdigits : numeral (high :: low :: rest) = 256 ^ k * (16 * d + e) + numeral rest := by
        rw [numeral, List.foldl_cons, List.foldl_cons, foldl_numeral, hlengthRest, hpow, hd, he,
          Option.getD_some, Option.getD_some, Nat.mul_zero, Nat.zero_add]
      simp only [toBytes, hd, he]
      refine ⟨by rw [List.length_cons, hcount], ?_⟩
      rw [bigEndian_cons, hbyte, hcount, hvalue, hdigits]

/-- The digits that are written for bytes are read back as these bytes. -/
theorem toBytes_ofBytes (bytes : List UInt8) : toBytes (ofBytes bytes) = bytes := by
  induction bytes with
  | nil => rfl
  | cons b bytes ih =>
    have hlt := b.toNat_lt
    have hhigh : digit? (b.toNat / 16).digitChar = some (b.toNat / 16) := digit?_digitChar (by omega)
    have hlow : digit? (b.toNat % 16).digitChar = some (b.toNat % 16) := digit?_digitChar (by omega)
    have hbyte : UInt8.ofNat (16 * (b.toNat / 16) + b.toNat % 16) = b := by
      rw [Nat.div_add_mod]
      exact UInt8.ofNat_toNat
    show toBytes (_ :: _ :: ofBytes bytes) = b :: bytes
    simp only [toBytes, hhigh, hlow, hbyte, ih]

end Hex
