import LineProof.Lib.Hex
import LineProof.Sdk.Calls

/-!
# 128-bit integers

Reference: `encodeScI128` of `sdk/src/utils.ts`.

A bigint is written as the 32 hexadecimal digits of its residue by `2 ^ 128`, which are the 16 bytes that
the XDR reader takes for the two halves of a signed integer. Between the integers of 128 bits and the pairs
of halves this is a bijection (`encodeScI128_bijective`).
-/

namespace LineProof.Sdk

open Decimals (padStart)
open Hex Soroban

/-- `xdr.Int128Parts`. -/
structure Int128Parts where
  hi : Int64
  lo : UInt64
deriving DecidableEq

/-- The number that two halves stand for. -/
def Int128Parts.value (parts : Int128Parts) : ℤ := parts.hi.toInt * 2 ^ 64 + parts.lo.toNat

/-- What `encodeScI128` throws. -/
inductive EncodeError
  | sdk (error : SDKError)
  /-- the XDR reader got too few bytes, or too many -/
  | xdr

/-- `xdr.Int128Parts.fromXDR`. -/
def Int128Parts.fromXDR (bytes : List UInt8) : Except EncodeError Int128Parts :=
  if bytes.length = 16 then
    .ok ⟨Int64.ofNat (bigEndian (bytes.take 8)), UInt64.ofNat (bigEndian (bytes.drop 8))⟩
  else .error .xdr

/-- The text `hex` of `encodeScI128`. -/
def int128Hex (value : ℤ) : List Char :=
  padStart 32 (Nat.toDigits 16 (if value ≥ 0 then value else 2 ^ 128 + value).toNat)

/-- `encodeScI128` of a bigint: the parts inside the `scvI128`. -/
def encodeScI128 (value : ℤ) : Except EncodeError Int128Parts :=
  if value < -170141183460469231731687303715884105728 ∨
      170141183460469231731687303715884105727 < value then
    .error (.sdk
      ⟨"INVALID_INPUT", "Value must be a 128-bit signed integer", some (.bigint value)⟩)
  else Int128Parts.fromXDR (toBytes (int128Hex value))

/-- `v` is an `i128`. -/
def IsInt128 (v : ℤ) : Prop := i128Min ≤ v ∧ v ≤ i128Max

/-- The digits of `v` are sixteen bytes, and the two halves read from them have the value `v`. -/
structure EncodedExactly (v : ℤ) : Prop where
  digits : (int128Hex v).length = 32 ∧ IsHex (int128Hex v)
  bytes : (toBytes (int128Hex v)).length = 16
  parts : ∃ parts, encodeScI128 v = .ok parts ∧ parts.hi.toInt * 2 ^ 64 + parts.lo.toNat = v

variable {v : ℤ} {parts parts' : Int128Parts} {bytes : List UInt8}

/-! ## The two halves -/

/-- Two halves stand for a number in range. -/
theorem Int128Parts.isInt128_value (parts : Int128Parts) : IsInt128 parts.value := by
  have hlow := parts.hi.le_toInt
  have hhigh := parts.hi.toInt_lt
  have hlo := parts.lo.toNat_lt
  simp only [IsInt128, i128Min, i128Max, value]
  omega

/-- A number determines its halves. -/
theorem Int128Parts.value_injective (h : parts.value = parts'.value) : parts = parts' := by
  have hlo := parts.lo.toNat_lt
  have hlo' := parts'.lo.toNat_lt
  simp only [value] at h
  have hhi : parts.hi = parts'.hi := Int64.toInt_inj.mp (by omega)
  have hlow : parts.lo = parts'.lo := UInt64.toNat_inj.mp (by omega)
  cases parts
  cases parts'
  rw [Int128Parts.mk.injEq]
  exact ⟨hhi, hlow⟩

/-- Sixteen bytes are read as the signed number of 128 bits that they are. -/
theorem Int128Parts.value_fromXDR (h : bytes.length = 16) :
    ∃ parts, fromXDR bytes = .ok parts ∧ parts.value = (bigEndian bytes : ℤ).bmod (2 ^ 128) := by
  have hfront : bigEndian (bytes.take 8) < 2 ^ 64 := by
    have hlt := bigEndian_lt (bytes.take 8)
    rwa [List.length_take, h] at hlt
  have hback : bigEndian (bytes.drop 8) < 2 ^ 64 := by
    have hlt := bigEndian_lt (bytes.drop 8)
    rwa [List.length_drop, h] at hlt
  have hsplit : bigEndian bytes = 2 ^ 64 * bigEndian (bytes.take 8) + bigEndian (bytes.drop 8) := by
    have happend := bigEndian_append (bytes.take 8) (bytes.drop 8)
    rwa [List.take_append_drop, List.length_drop, h] at happend
  refine ⟨_, if_pos h, ?_⟩
  rw [hsplit, value, Int64.toInt_ofNat', UInt64.toNat_ofNat_of_lt' hback]
  generalize bigEndian (bytes.take 8) = a at hfront ⊢
  generalize bigEndian (bytes.drop 8) = b at hback ⊢
  simp only [Int.bmod_def, Int64.size]
  omega

/-! ## The digits -/

/-- The 32 hex digits are the number in two's complement. -/
theorem int128Hex_spec (h : IsInt128 v) : (int128Hex v).length = 32 ∧ IsHex (int128Hex v) ∧
    (numeral (int128Hex v) : ℤ).bmod (2 ^ 128) = v := by
  simp only [IsInt128, i128Min, i128Max] at h
  obtain ⟨n, hn⟩ : ∃ n : ℕ, (if v ≥ 0 then v else 2 ^ 128 + v) = n :=
    Int.eq_ofNat_of_zero_le (by split <;> omega)
  have hlt : n < 16 ^ 32 := by
    split at hn <;> omega
  obtain ⟨hhex, hvalue⟩ := toDigits_spec n
  have hlength : (Nat.toDigits 16 n).length ≤ 32 :=
    (Nat.length_toDigits_le_iff (by omega) (by omega)).mpr hlt
  rw [int128Hex, hn, Int.toNat_natCast, numeral_padStart, hvalue]
  refine ⟨Decimals.length_padStart hlength, isHex_padStart hhex, ?_⟩
  -- a negative number is its residue, one turn lower
  rw [Int.bmod_def]
  split at hn <;> omega

/-- Within the range the reader gets its sixteen bytes, and they are `v`. -/
theorem encodedExactly (h : IsInt128 v) : EncodedExactly v := by
  obtain ⟨hlength, hhex, hvalue⟩ := int128Hex_spec h
  obtain ⟨hbytes, hbig⟩ := toBytes_spec (k := 16) hlength hhex
  obtain ⟨parts, hparts, hread⟩ := Int128Parts.value_fromXDR hbytes
  rw [hbig, hvalue] at hread
  refine ⟨⟨hlength, hhex⟩, hbytes, parts, ?_, hread⟩
  simp only [IsInt128, i128Min, i128Max] at h
  rw [encodeScI128, if_neg (by omega), hparts]

/-- A number out of range is refused. -/
theorem encodeScI128_of_not_isInt128 (h : ¬ IsInt128 v) : encodeScI128 v =
    .error (.sdk ⟨"INVALID_INPUT", "Value must be a 128-bit signed integer", some (.bigint v)⟩) := by
  simp only [IsInt128, i128Min, i128Max] at h
  rw [encodeScI128, if_pos (by omega)]

/-- Every pair of halves is the encoding of its value. -/
theorem encodeScI128_value (parts : Int128Parts) : encodeScI128 parts.value = .ok parts := by
  obtain ⟨parts', hparts, hvalue⟩ := (encodedExactly parts.isInt128_value).parts
  rw [hparts, Int128Parts.value_injective hvalue]

/-- The encoding is a bijection between the integers of 128 bits and the pairs of halves, each of which has
the value it was made from, and every other integer is refused. -/
theorem encodeScI128_bijective :
    (∀ v, IsInt128 v → EncodedExactly v) ∧
    (∀ v w, IsInt128 v → IsInt128 w → encodeScI128 v = encodeScI128 w → v = w) ∧
    (∀ parts, ∃ v, IsInt128 v ∧ encodeScI128 v = .ok parts) ∧
    ∀ v, ¬ IsInt128 v → encodeScI128 v =
      .error (.sdk ⟨"INVALID_INPUT", "Value must be a 128-bit signed integer", some (.bigint v)⟩) := by
  refine ⟨fun v => encodedExactly, ?_, ?_, fun v => encodeScI128_of_not_isInt128⟩
  · intro v w hv hw h
    obtain ⟨parts, hparts, hvalue⟩ := (encodedExactly hv).parts
    obtain ⟨parts', hparts', hvalue'⟩ := (encodedExactly hw).parts
    have heq : parts = parts' := Except.ok.inj (hparts.symm.trans (h.trans hparts'))
    rw [← hvalue, ← hvalue', heq]
  · intro parts
    exact ⟨parts.value, parts.isInt128_value, encodeScI128_value parts⟩

example : encodeScI128 (-1) = .ok ⟨-1, 18446744073709551615⟩ := by rfl

end LineProof.Sdk
