import Mathlib.Algebra.Order.Field.Rat
import LineProof.Soroban.Contract

/-!
# JavaScript values

The values the SDK gets from `scValToNative`, and the conversions of the language it applies to them.
Conversions whose result depends on the text format of the language are parameters (`Conversions`).
-/

namespace LineProof.Sdk

open Soroban

/-- A number: a double is a rational, an infinity or `NaN`. -/
inductive JsNumber
  | finite (q : ℚ)
  | infinite (negative : Bool)
  | nan
deriving DecidableEq

/-- `n` as a number. -/
def JsNumber.ofNat (n : ℕ) : JsNumber := .finite n

/-- `a < b`, which nothing satisfies with `NaN`. -/
def JsNumber.lt : JsNumber → JsNumber → Bool
  | .finite a, .finite b => a < b
  | .infinite true, .finite _ | .infinite true, .infinite false | .finite _, .infinite false => true
  | _, _ => false

/-- `a <= b`. -/
def JsNumber.le (a b : JsNumber) : Bool := a.lt b ∨ (a = b ∧ a ≠ .nan)

/-- No number is less than itself. -/
theorem JsNumber.lt_irrefl (a : JsNumber) : a.lt a = false := by
  cases a with
  | finite q => simp [lt]
  | infinite negative => cases negative <;> rfl
  | nan => rfl

/-- The order is transitive, also around `NaN`. -/
theorem JsNumber.lt_trans {a b c : JsNumber} (hab : a.lt b = true) (hbc : b.lt c = true) :
    a.lt c = true := by
  rcases a with q | negative | _
  · rcases b with q' | negative' | _
    · rcases c with q'' | negative'' | _
      · simp only [lt, decide_eq_true_eq] at hab hbc ⊢
        exact hab.trans hbc
      · cases negative'' <;> simp_all [lt]
      · simp [lt] at hbc
    · cases negative' <;> rcases c with q'' | (_ | _) | _ <;> simp_all [lt]
    · simp [lt] at hab
  · cases negative
    · simp [lt] at hab
    · rcases b with q' | (_ | _) | _ <;> rcases c with q'' | (_ | _) | _ <;> simp_all [lt]
  · simp [lt] at hab

/-- A value of the types `scValToNative` produces, or an `xdr.ScVal` left as it is. -/
inductive Native
  | null
  | string (s : String)
  | number (x : JsNumber)
  | bigint (z : ℤ)
  | bytes (b : Bytes32)
  | array (vs : List Native)
  | scVal (v : EventData)

/-- The length of a text, in UTF-16 units. -/
def utf16Length (s : String) : ℕ := (s.toList.map fun c => if c.toNat < 2 ^ 16 then 1 else 2).sum

/-- What the language throws. -/
inductive JsError
  | typeError
  | rangeError
deriving DecidableEq

/-- The conversions between texts and numbers. -/
structure Conversions where
  /-- `String(value)` -/
  toString : Native → String
  /-- `Number(s)` of a string -/
  number : String → JsNumber
  /-- `Number(z)` of a bigint, the nearest double -/
  ofBigInt : ℤ → JsNumber
  /-- `s.trim()` -/
  trim : String → String

instance : Inhabited Conversions where
  default := ⟨fun _ => "", fun _ => .nan, fun z => .finite z, id⟩

/-- Is a value taken for true in a condition. -/
def Native.truthy : Native → Bool
  | .null => false
  | .string s => s ≠ ""
  | .number x => x ≠ .finite 0 ∧ x ≠ .nan
  | .bigint z => z ≠ 0
  | .bytes _ | .array _ | .scVal _ => true

/-- The white space and line terminators of the language. -/
def isWhiteSpace (c : Char) : Bool :=
  let n := c.toNat
  (9 ≤ n ∧ n ≤ 13) ∨ n = 0x20 ∨ n = 0xA0 ∨ n = 0x1680 ∨ (0x2000 ≤ n ∧ n ≤ 0x200A) ∨ n = 0x2028 ∨
    n = 0x2029 ∨ n = 0x202F ∨ n = 0x205F ∨ n = 0x3000 ∨ n = 0xFEFF

/-- A digit is no white space. -/
theorem isWhiteSpace_of_isDigit {c : Char} (h : c.isDigit = true) : isWhiteSpace c = false := by
  have hrange := Char.isDigit_iff_toNat.mp h
  simp only [Char.reduceToNat] at hrange
  simp only [isWhiteSpace, decide_eq_false_iff_not]
  omega

/-- The value of a run of decimal digits, `\d+`. -/
def digits? (cs : List Char) : Option ℕ :=
  if cs ≠ [] ∧ cs.all Char.isDigit then
    some (cs.foldl (fun n c => 10 * n + (c.toNat - '0'.toNat)) 0)
  else none

/-- The value of a text that matches `/^-?\d+$/`. -/
def decimal? (s : String) : Option ℤ :=
  match s.toList with
  | '-' :: cs => (digits? cs).map fun n => -(n : ℤ)
  | cs => (digits? cs).map fun n => (n : ℤ)

variable (J : Conversions)

/-! ## The coercions of `events.ts`, where `none` is `undefined` -/

/-- The text of a value, or the empty text for an object. -/
def asString : Option Native → String
  | some (.string s) => s
  | some value =>
    if value.truthy ∧ J.toString value ≠ "[object Object]" then J.toString value else ""
  | none => ""

/-- The number of a value, or 0. -/
def asNumber : Option Native → JsNumber
  | some (.number x) => x
  | some (.bigint z) => J.ofBigInt z
  | some (.string s) =>
    if J.trim s ≠ "" ∧ J.number s ≠ .nan then J.number s else .finite 0
  | _ => .finite 0

/-- The integer of a value, or 0; only a number that is none throws. -/
def asBigInt : Option Native → Except JsError ℤ
  | some (.bigint z) => .ok z
  -- `Math.trunc` rounds towards zero, and `BigInt` refuses what is not an integer then
  | some (.number (.finite q)) => .ok (q.num.tdiv q.den)
  | some (.number _) => .error .rangeError
  | some (.string s) => .ok ((decimal? s).getD 0)
  | _ => .ok 0

end LineProof.Sdk
