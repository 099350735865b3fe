import Mathlib.Data.List.Basic
import Mathlib.Data.Nat.Notation

/-!
# Bytes in base64

Three bytes are four digits of six bits (`sextets`). The encoder writes them in the alphabet of RFC 4648
and pads the text to a multiple of four characters. The forgiving decoder ignores white space and takes the
padding or leaves it; the lenient one stops at the padding, ignores every other character that is not a
digit, and knows the digits of the URL alphabet as well. Both give the bytes of an encoded text back (`forgiving_encode`,
`lenient_encode`).
-/

namespace Radix64

variable {bytes : List UInt8} {ds : List ℕ} {n : ℕ}

/-! ## Digits -/

/-- The digit of the alphabet for a number below 64. -/
def digitChar (n : ℕ) : Char :=
  if n < 26 then Char.ofNat (65 + n)
  else if n < 52 then Char.ofNat (71 + n)
  else if n < 62 then Char.ofNat (n - 4)
  else if n = 62 then '+' else '/'

/-- The number a character of the standard alphabet stands for. -/
def digit? (c : Char) : Option ℕ :=
  let n := c.toNat
  if 65 ≤ n ∧ n ≤ 90 then some (n - 65)
  else if 97 ≤ n ∧ n ≤ 122 then some (n - 71)
  else if 48 ≤ n ∧ n ≤ 57 then some (n + 4)
  else if c = '+' then some 62
  else if c = '/' then some 63
  else none

/-- With the last two digits of the URL alphabet. -/
def urlDigit? (c : Char) : Option ℕ :=
  if c = '-' then some 62 else if c = '_' then some 63 else digit? c

/-- The white space that the forgiving decoder ignores. -/
def isAsciiWhitespace (c : Char) : Bool := c ∈ ['\t', '\n', '\x0c', '\r', ' ']

/-- The characters that are written are read back. -/
theorem digit?_digitChar (h : n < 64) : digit? (digitChar n) = some n := by
  have hall : ∀ n < 64, digit? (digitChar n) = some n := by decide
  exact hall n h

/-- They are read back in the alphabet for URLs as well. -/
theorem urlDigit?_digitChar (h : n < 64) : urlDigit? (digitChar n) = some n := by
  have hall : ∀ n < 64, urlDigit? (digitChar n) = some n := by decide
  exact hall n h

/-- None of them is white space. -/
theorem not_isAsciiWhitespace_digitChar (h : n < 64) : isAsciiWhitespace (digitChar n) = false := by
  have hall : ∀ n < 64, isAsciiWhitespace (digitChar n) = false := by decide
  exact hall n h

/-- None of them is the padding. -/
theorem digitChar_ne_pad (h : n < 64) : digitChar n ≠ '=' := by
  have hall : ∀ n < 64, digitChar n ≠ '=' := by decide
  exact hall n h

/-! ## Bytes and digits -/

/-- The digits of a run of bytes. The last one is filled up with zero bits. -/
def sextets : List UInt8 → List ℕ
  | a :: b :: c :: rest =>
    let n := a.toNat * 65536 + b.toNat * 256 + c.toNat
    n / 262144 :: n / 4096 % 64 :: n / 64 % 64 :: n % 64 :: sextets rest
  | [a, b] =>
    let n := a.toNat * 1024 + b.toNat * 4
    [n / 4096, n / 64 % 64, n % 64]
  | [a] => [a.toNat * 16 / 64, a.toNat * 16 % 64]
  | [] => []

/-- The bytes of a run of digits. What is left of the last ones is dropped. -/
def fromSextets : List ℕ → List UInt8
  | p :: q :: r :: s :: rest =>
    let n := p * 262144 + q * 4096 + r * 64 + s
    UInt8.ofNat (n / 65536) :: UInt8.ofNat (n / 256 % 256) :: UInt8.ofNat (n % 256) :: fromSextets rest
  | [p, q, r] =>
    let n := p * 4096 + q * 64 + r
    [UInt8.ofNat (n / 1024), UInt8.ofNat (n / 4 % 256)]
  | [p, q] => [UInt8.ofNat ((p * 64 + q) / 16)]
  | _ => []

/-- The groups of six bits are below 64. -/
theorem lt_of_mem_sextets (h : n ∈ sextets bytes) : n < 64 := by
  induction bytes using sextets.induct with
  | case1 a b c rest ih =>
    have ha := a.toNat_lt
    have hb := b.toNat_lt
    have hc := c.toNat_lt
    simp only [sextets, List.mem_cons] at h
    rcases h with rfl | rfl | rfl | rfl | h
    · omega
    · omega
    · omega
    · omega
    · exact ih h
  | case2 a b =>
    have ha := a.toNat_lt
    have hb := b.toNat_lt
    simp only [sextets, List.mem_cons, List.not_mem_nil, or_false] at h
    omega
  | case3 a =>
    have ha := a.toNat_lt
    simp only [sextets, List.mem_cons, List.not_mem_nil, or_false] at h
    omega
  | case4 => exact absurd h List.not_mem_nil

/-- A single digit is no byte. -/
theorem length_sextets (bytes : List UInt8) : (sextets bytes).length % 4 ≠ 1 := by
  induction bytes using sextets.induct with
  | case1 a b c rest ih =>
    simp only [sextets, List.length_cons]
    omega
  | case2 | case3 | case4 => simp [sextets]

/-- A byte is its value. -/
theorem byte_eq {b : UInt8} (h : n = b.toNat) : UInt8.ofNat n = b := by
  rw [h, UInt8.ofNat_toNat]

/-- The groups of six bits are read back as the bytes. -/
theorem fromSextets_sextets (bytes : List UInt8) : fromSextets (sextets bytes) = bytes := by
  induction bytes using sextets.induct with
  | case1 a b c rest ih =>
    have ha := a.toNat_lt
    have hb := b.toNat_lt
    have hc := c.toNat_lt
    simp only [sextets, fromSextets, ih, List.cons.injEq, and_true]
    refine ⟨byte_eq ?_, byte_eq ?_, byte_eq ?_⟩ <;> omega
  | case2 a b =>
    have ha := a.toNat_lt
    have hb := b.toNat_lt
    simp only [sextets, fromSextets, List.cons.injEq, and_true]
    refine ⟨byte_eq ?_, byte_eq ?_⟩ <;> omega
  | case3 a =>
    have ha := a.toNat_lt
    simp only [sextets, fromSextets, List.cons.injEq, and_true]
    exact byte_eq (by omega)
  | case4 => rfl

/-! ## Texts -/

/-- The text of the bytes, padded to a multiple of four. -/
def encode (bytes : List UInt8) : List Char :=
  let cs := (sextets bytes).map digitChar
  cs ++ List.replicate ((4 - cs.length % 4) % 4) '='

/-- Take one or two pads away from the end. -/
def dropPads (cs : List Char) : List Char :=
  match cs.reverse with
  | '=' :: '=' :: rest => rest.reverse
  | '=' :: rest => rest.reverse
  | _ => cs

/-- The forgiving decoder. -/
def forgiving (cs : List Char) : Option (List UInt8) :=
  let cs := cs.filter fun c => !isAsciiWhitespace c
  let cs := if cs.length % 4 = 0 then dropPads cs else cs
  if cs.length % 4 = 1 then none else (cs.mapM digit?).map fromSextets

/-- The lenient decoder. -/
def lenient (cs : List Char) : List UInt8 :=
  fromSextets ((cs.takeWhile (· ≠ '=')).filterMap urlDigit?)

/-- The length of an encoded text is a multiple of four. -/
theorem length_encode (bytes : List UInt8) : (encode bytes).length % 4 = 0 := by
  simp only [encode, List.length_append, List.length_replicate]
  omega

/-- Only nothing is written as nothing. -/
theorem encode_ne_nil (h : bytes ≠ []) : encode bytes ≠ [] := by
  have hdigits : sextets bytes ≠ [] := by
    match bytes, h with
    | [a], _ => simp [sextets]
    | [a, b], _ => simp [sextets]
    | a :: b :: c :: rest, _ => simp [sextets]
  exact List.append_ne_nil_of_left_ne_nil (fun hnil => hdigits (List.map_eq_nil_iff.mp hnil)) _

/-- The characters of an encoded text before its padding. -/
theorem mem_digits {c : Char} (h : c ∈ (sextets bytes).map digitChar) : ∃ n < 64, c = digitChar n := by
  obtain ⟨n, hn, rfl⟩ := List.mem_map.mp h
  exact ⟨n, lt_of_mem_sextets hn, rfl⟩

/-- The digits of an encoded text end where its padding begins. -/
theorem takeWhile_encode (bytes : List UInt8) :
    (encode bytes).takeWhile (· ≠ '=') = (sextets bytes).map digitChar := by
  have hdigits : ∀ c ∈ (sextets bytes).map digitChar, decide (c ≠ '=') = true := by
    intro c hc
    obtain ⟨n, hn, rfl⟩ := mem_digits hc
    exact decide_eq_true (digitChar_ne_pad hn)
  rw [encode, List.takeWhile_append_of_pos hdigits]
  cases (4 - ((sextets bytes).map digitChar).length % 4) % 4 with
  | zero => exact List.append_nil _
  | succ k => exact List.append_nil _

/-- The reader that skips what it does not know reads back what was written. -/
theorem lenient_encode (bytes : List UInt8) : lenient (encode bytes) = bytes := by
  have hdigits : ((sextets bytes).map digitChar).filterMap urlDigit? = sextets bytes := by
    rw [List.filterMap_map]
    refine (List.filterMap_congr fun n hn => ?_).trans List.filterMap_some
    exact urlDigit?_digitChar (lt_of_mem_sextets hn)
  rw [lenient, takeWhile_encode, hdigits, fromSextets_sextets]

/-- At most two pads at the end are dropped. -/
theorem dropPads_append {cs : List Char} {k : ℕ} (hk : k ≤ 2) (hlast : ∀ c ∈ cs, c ≠ '=') :
    dropPads (cs ++ List.replicate k '=') = cs := by
  have hhead : ∀ rest, cs.reverse ≠ '=' :: rest := by
    intro rest h
    exact hlast '=' (List.mem_reverse.mp (h ▸ List.mem_cons_self)) rfl
  rw [dropPads, List.reverse_append, List.reverse_replicate]
  match k, hk with
  | 0, _ =>
    rw [List.replicate_zero, List.nil_append, List.append_nil]
    split
    next h => exact absurd h (hhead _)
    next h => exact absurd h (hhead _)
    next => rfl
  | 1, _ =>
    simp only [List.replicate_one, List.singleton_append]
    exact List.reverse_reverse cs
  | 2, _ => exact List.reverse_reverse cs

/-- A run of characters is read back. -/
theorem mapM_digit? (h : ∀ n ∈ ds, n < 64) : (ds.map digitChar).mapM digit? = some ds := by
  induction ds with
  | nil => rfl
  | cons n ds ih =>
    obtain ⟨hn, hds⟩ := List.forall_mem_cons.mp h
    rw [List.map_cons, List.mapM_cons, digit?_digitChar hn, ih hds]
    rfl

/-- The reader that refuses what it does not know reads back what was written. -/
theorem forgiving_encode (bytes : List UInt8) : forgiving (encode bytes) = some bytes := by
  have hfilter : (encode bytes).filter (fun c => !isAsciiWhitespace c) = encode bytes := by
    rw [List.filter_eq_self]
    intro c hc
    rcases List.mem_append.mp hc with hc | hc
    · obtain ⟨n, hn, rfl⟩ := mem_digits hc
      rw [not_isAsciiWhitespace_digitChar hn]
      rfl
    · rw [List.eq_of_mem_replicate hc]
      rfl
  have hlength := length_sextets bytes
  have hdrop : dropPads (encode bytes) = (sextets bytes).map digitChar := by
    refine dropPads_append ?_ ?_
    · rw [List.length_map]
      omega
    · intro c hc
      obtain ⟨n, hn, rfl⟩ := mem_digits hc
      exact digitChar_ne_pad hn
  have hread : ((sextets bytes).map digitChar).mapM digit? = some (sextets bytes) :=
    mapM_digit? fun n => lt_of_mem_sextets
  rw [forgiving, hfilter]
  simp only [if_pos (length_encode bytes), hdrop, List.length_map, if_neg hlength, hread]
  rw [Option.map_some, fromSextets_sextets]

end Radix64
