import LineProof.Lib.Radix64
import LineProof.Sdk.Pagination

/-!
# Which cursors are accepted

`encodeCursor` is undone by `decodeCursor`, but `decodeCursor` accepts more than what `encodeCursor` makes:
`parseInt` reads the number a text begins with, what comes after a second colon is dropped, and `atob` takes
a text without padding or with spaces. Exactly the cursors that cannot be read at all and those that
`encodeCursor` makes are treated as documented (`cursors_exact`).
-/

namespace LineProof.Sdk

open Decimals

/-- `btoa`, which takes characters of one byte, and `atob`. -/
def standardBase64 : Base64 where
  btoa s := String.ofList (Radix64.encode (s.toList.map fun c => UInt8.ofNat c.toNat))
  atob s := (Radix64.forgiving s.toList).map fun bytes =>
    String.ofList (bytes.map fun b => Char.ofNat b.toNat)

/-- The cursor is rejected, or it is the encoding of the two natural numbers it decodes to. -/
def CursorExact (c : String) : Prop :=
  decodeCursor standardBase64 c = none ∨
    ∃ ledger index : ℕ, decodeCursor standardBase64 c = some ⟨.finite ledger, .finite index⟩ ∧
      encodeCursor standardBase64 ⟨.finite ledger, .finite index⟩ = c

/-- White space, at most one sign, and a digit. -/
def startsWithInteger (field : List Char) : Bool :=
  let unsigned :=
    match field.dropWhile isWhiteSpace with
    | '-' :: cs => cs
    | '+' :: cs => cs
    | cs => cs
  unsigned.head?.any Char.isDigit

/-- The cursor is not base64, or one of the first two fields of its text is missing or does not start with
an integer. -/
def Unreadable (c : String) : Prop :=
  match standardBase64.atob c with
  | none => True
  | some raw =>
    match raw.toList.splitOn ':' with
    | ledger :: index :: _ => ¬ (startsWithInteger ledger = true ∧ startsWithInteger index = true)
    | _ => True

/-- Decimal digits without a zero in front, of a number that is the shortest of those with its nearest
double. Below `2 ^ 53` every number is. -/
def IsNumeral (field : List Char) : Prop :=
  ∃ n < 10 ^ 21, shortest (nearestDouble n) = n ∧ field = Nat.toDigits 10 n

/-- Two numerals with a colon between them, in base64 with its padding. -/
def Canonical (c : String) : Prop :=
  ∃ ledger index, IsNumeral ledger ∧ IsNumeral index ∧
    c = standardBase64.btoa (String.ofList (ledger ++ ':' :: index))

variable {cs : List Char} {x n : ℕ}

/-! ## Base64 -/

/-- Base64 of bytes is read back. -/
theorem atob_btoa (h : ∀ c ∈ cs, c.toNat < 256) :
    standardBase64.atob (standardBase64.btoa (String.ofList cs)) = some (String.ofList cs) := by
  have hchars : (cs.map fun c => UInt8.ofNat c.toNat).map (fun b => Char.ofNat b.toNat) = cs := by
    rw [List.map_map]
    refine (List.map_congr_left fun c hc => ?_).trans cs.map_id
    have hbyte : (UInt8.ofNat c.toNat).toNat = c.toNat := UInt8.toNat_ofNat_of_lt' (h c hc)
    rw [Function.comp_apply, hbyte, Char.ofNat_toNat]
    rfl
  simp only [standardBase64, String.toList_ofList, Radix64.forgiving_encode, Option.map_some, hchars]

/-! ## Numbers at the start of a field -/

/-- Without a sign `parseInt` reads the digits at the front. -/
theorem parseInt_unsigned {c : Char} {rest : List Char} (htrim : cs.dropWhile isWhiteSpace = c :: rest)
    (hminus : c ≠ '-') (hplus : c ≠ '+') :
    parseInt cs = (digits? ((c :: rest).takeWhile Char.isDigit)).map .ofNat := by
  rw [parseInt, htrim]
  split
  next heq => exact absurd (List.cons.inj heq).1 hminus
  next heq => exact absurd (List.cons.inj heq).1 hplus
  next => rfl

/-- The digits a field starts with are its number, if no digit follows. -/
theorem parseInt_digits (ds rest : List Char) (hne : ds ≠ []) (hds : IsDigits ds)
    (hrest : ∀ c ∈ rest.head?, c.isDigit = false) :
    parseInt (ds ++ rest) = some (.ofNat (numeral ds)) := by
  have htake : (ds ++ rest).takeWhile Char.isDigit = ds := by
    rw [List.takeWhile_append_of_pos hds]
    cases rest with
    | nil => exact List.append_nil ds
    | cons c rest =>
      have hc : c.isDigit = false := hrest c rfl
      rw [List.takeWhile_cons_of_neg (by simp [hc]), List.append_nil]
  obtain ⟨d, tail, rfl⟩ := List.exists_cons_of_ne_nil hne
  have hd : d.isDigit = true := hds d List.mem_cons_self
  have hminus : d ≠ '-' := by
    rintro rfl
    exact absurd hd (by decide)
  have hplus : d ≠ '+' := by
    rintro rfl
    exact absurd hd (by decide)
  have htrim : (d :: tail ++ rest).dropWhile isWhiteSpace = d :: (tail ++ rest) :=
    List.dropWhile_cons_of_neg (by simp [isWhiteSpace_of_isDigit hd])
  rw [parseInt_unsigned htrim hminus hplus, ← List.cons_append, htake, digits?_eq hne hds, Option.map_some]

/-- There are no digits at the front of a text that starts with none. -/
theorem digits?_takeWhile_eq_none :
    digits? (cs.takeWhile Char.isDigit) = none ↔ cs.head?.any Char.isDigit = false := by
  cases cs with
  | nil => exact ⟨fun _ => rfl, fun _ => rfl⟩
  | cons d cs =>
    rw [List.head?_cons, Option.any_some]
    cases hd : d.isDigit with
    | false => simp [hd, digits?]
    | true =>
      have hdigits : IsDigits ((d :: cs).takeWhile Char.isDigit) := fun c hc => List.mem_takeWhile_imp hc
      rw [digits?_eq (by simp [hd]) hdigits]
      simp

/-- A field is not a number exactly if it does not start with one. -/
theorem parseInt_eq_none : parseInt cs = none ↔ startsWithInteger cs = false := by
  have hdigits {α : Type} (f : ℕ → α) (ds : List Char) :
      (digits? (ds.takeWhile Char.isDigit)).map f = none ↔ ds.head?.any Char.isDigit = false := by
    rw [Option.map_eq_none_iff, digits?_takeWhile_eq_none]
  cases htrim : cs.dropWhile isWhiteSpace with
  | nil =>
    simp only [parseInt, startsWithInteger, htrim]
    exact hdigits _ []
  | cons c rest =>
    by_cases hminus : c = '-'
    · subst hminus
      simp only [parseInt, startsWithInteger, htrim]
      exact hdigits _ rest
    · by_cases hplus : c = '+'
      · subst hplus
        simp only [parseInt, startsWithInteger, htrim]
        exact hdigits _ rest
      · have hstarts : startsWithInteger cs = (c :: rest).head?.any Char.isDigit := by
          rw [startsWithInteger, htrim]
          split
          next heq => exact absurd (List.cons.inj heq).1 hminus
          next heq => exact absurd (List.cons.inj heq).1 hplus
          next => rfl
        rw [parseInt_unsigned htrim hminus hplus, hstarts]
        exact hdigits _ (c :: rest)

/-- What `parseInt` reads, it reads off an integer at the front. -/
theorem startsWithInteger_of_some {i : JsInteger} (h : parseInt cs = some i) :
    startsWithInteger cs = true := by
  rw [← Bool.not_eq_false, ← parseInt_eq_none, h]
  nofun

/-- What cannot be read is rejected, and nothing else. -/
theorem decodeCursor_eq_none {c : String} :
    decodeCursor standardBase64 c = none ↔ Unreadable c := by
  rw [decodeCursor, Unreadable]
  cases standardBase64.atob c with
  | none => exact ⟨fun _ => trivial, fun _ => rfl⟩
  | some raw =>
    rw [Option.bind_eq_bind, Option.bind_some]
    rcases hfields : raw.toList.splitOn ':' with _ | ⟨ledger, _ | ⟨index, tail⟩⟩
    · simp only [hfields]
    · simp only [hfields]
    · simp only [hfields]
      cases hledger : parseInt ledger with
      | none => simp [parseInt_eq_none.mp hledger]
      | some x =>
        cases hindex : parseInt index with
        | none => simp [parseInt_eq_none.mp hindex]
        | some y => simp [startsWithInteger_of_some hledger, startsWithInteger_of_some hindex]

/-! ## Two fields -/

/-- A text of one-byte characters without a colon. -/
def IsField (cs : List Char) : Prop := ∀ c ∈ cs, c.toNat < 256 ∧ c ≠ ':'

/-- Digits are a field of a cursor. -/
theorem isField_of_isDigits (h : IsDigits cs) : IsField cs := by
  intro c hc
  have hrange := Char.isDigit_iff_toNat.mp (h c hc)
  simp only [Char.reduceToNat] at hrange
  refine ⟨by omega, ?_⟩
  rintro rfl
  exact absurd (h _ hc) (by decide)

/-- A printed number is a field of a cursor. -/
theorem isField_naturalText (x : ℕ) : IsField (naturalText x) := by
  intro c hc
  rcases mem_naturalText hc with hdigit | rfl | rfl | rfl
  · have hfield : IsField [c] := isField_of_isDigits (by simpa [IsDigits] using hdigit)
    exact hfield c (List.mem_singleton_self c)
  · decide
  · decide
  · decide

/-- The encoding of two fields is read back as the two of them. -/
theorem decodeCursor_fields {ledger index : List Char} (hledger : IsField ledger) (hindex : IsField index) :
    decodeCursor standardBase64 (standardBase64.btoa (String.ofList (ledger ++ ':' :: index))) =
      (parseInt ledger).bind fun l => (parseInt index).map fun i => ⟨l, i⟩ := by
  have hbytes : ∀ c ∈ ledger ++ ':' :: index, c.toNat < 256 := by
    intro c hc
    rcases List.mem_append.mp hc with hc | hc
    · exact (hledger c hc).1
    · rcases List.mem_cons.mp hc with rfl | hc
      · decide
      · exact (hindex c hc).1
  have hsplit : (ledger ++ ':' :: index).splitOn ':' = [ledger, index] := by
    rw [List.splitOn_append_cons_self, List.splitOn_eq_singleton fun hc => (hledger _ hc).2 rfl,
      List.splitOn_eq_singleton fun hc => (hindex _ hc).2 rfl]
    rfl
  rw [decodeCursor, atob_btoa hbytes, Option.bind_eq_bind, Option.bind_some, String.toList_ofList]
  simp only [hsplit]
  cases parseInt ledger <;> cases parseInt index <;> rfl

@[simp] theorem text_natCast (n : ℕ) : (JsInteger.finite n).text = naturalText n := by
  rw [JsInteger.text, if_neg (Int.not_lt.mpr (Int.natCast_nonneg n)), Int.toNat_natCast]

/-- The number of a numeral is written as that numeral. -/
theorem IsNumeral.parse {field : List Char} (h : IsNumeral field) :
    ∃ x : ℕ, parseInt field = some (.finite x) ∧ naturalText x = field := by
  obtain ⟨n, hn, hshortest, rfl⟩ := h
  have hlength : (Nat.toDigits 10 n).length ≤ 21 :=
    (Nat.length_toDigits_le_iff (by omega) (by omega)).mpr hn
  refine ⟨nearestDouble n, ?_, ?_⟩
  · have hparse := parseInt_digits _ [] Nat.toDigits_ne_nil (isDigits_toDigits n) nofun
    rwa [List.append_nil, numeral_toDigits, JsInteger.ofNat_of_lt hn] at hparse
  · simp only [naturalText, hshortest, if_pos hlength]

/-- A text that is read as the number it was made from is a numeral: with an exponent only the first digit
is read. -/
theorem isNumeral_naturalText (h : parseInt (naturalText x) = some (.finite x)) :
    IsNumeral (naturalText x) := by
  by_cases hlength : (Nat.toDigits 10 (shortest x)).length ≤ 21
  · have hlt : shortest x < 10 ^ 21 := (Nat.length_toDigits_le_iff (by omega) (by omega)).mp hlength
    have htext : naturalText x = Nat.toDigits 10 (shortest x) := by
      simp only [naturalText, if_pos hlength]
    have hparse := parseInt_digits _ [] Nat.toDigits_ne_nil (isDigits_toDigits (shortest x))
      (by simp)
    rw [List.append_nil, numeral_toDigits, JsInteger.ofNat_of_lt hlt, ← htext, h] at hparse
    have hround : x = nearestDouble (shortest x) := by simpa using hparse
    exact ⟨shortest x, hlt, congrArg shortest hround.symm, htext⟩
  · obtain ⟨d, c, rest, htext, hd, hc⟩ := naturalText_of_long (Nat.lt_of_not_le hlength)
    have hdigit := numeral_digit_lt hd
    have hparse := parseInt_digits [d] (c :: rest) (List.cons_ne_nil _ _)
      (by simpa [IsDigits] using hd) (by simpa using hc)
    rw [List.singleton_append, ← htext, h, JsInteger.ofNat_of_lt (by omega),
      nearestDouble_of_lt (by omega)] at hparse
    have hx : x = numeral [d] := by simpa using hparse
    -- below ten the text is one digit
    rw [shortest_of_lt (by omega)] at hlength
    exact absurd ((Nat.length_toDigits_le_iff (by omega) (by omega)).mpr (by omega)) hlength

/-! ## Which cursors are exact -/

/-- The safe integers, encoded and decoded, are the same again. -/
theorem decodeCursor_encodeCursor {ledger index : ℕ} (hledger : ledger < 2 ^ 53) (hindex : index < 2 ^ 53) :
    decodeCursor standardBase64 (encodeCursor standardBase64 ⟨.finite ledger, .finite index⟩) =
      some ⟨.finite ledger, .finite index⟩ := by
  have hparse {k : ℕ} (hk : k < 2 ^ 53) : parseInt (naturalText k) = some (.finite k) := by
    have hdigits := parseInt_digits _ [] Nat.toDigits_ne_nil (isDigits_toDigits k) nofun
    rwa [List.append_nil, numeral_toDigits, JsInteger.ofNat_of_lt (by omega), nearestDouble_of_lt hk,
      ← naturalText_of_lt hk] at hdigits
  rw [encodeCursor, text_natCast, text_natCast,
    decodeCursor_fields (isField_naturalText _) (isField_naturalText _), hparse hledger, hparse hindex]
  rfl

/-- A cursor is exact exactly when nothing reads it, or it is written as the encoder writes it. -/
theorem cursorExact_iff (c : String) : CursorExact c ↔ Unreadable c ∨ Canonical c := by
  rw [CursorExact, decodeCursor_eq_none]
  refine or_congr_right ?_
  constructor
  · intro h
    obtain ⟨ledger, index, hdecode, rfl⟩ := h
    rw [encodeCursor, text_natCast, text_natCast,
      decodeCursor_fields (isField_naturalText _) (isField_naturalText _)] at hdecode
    obtain ⟨l, hl, hrest⟩ := Option.bind_eq_some_iff.mp hdecode
    obtain ⟨i, hi, hpair⟩ := Option.map_eq_some_iff.mp hrest
    obtain ⟨rfl, rfl⟩ := Cursor.mk.inj hpair
    refine ⟨_, _, isNumeral_naturalText hl, isNumeral_naturalText hi, ?_⟩
    rw [encodeCursor, text_natCast, text_natCast]
  · intro h
    obtain ⟨ledger, index, hledger, hindex, rfl⟩ := h
    obtain ⟨l, hl, hltext⟩ := hledger.parse
    obtain ⟨i, hi, hitext⟩ := hindex.parse
    have hfields := decodeCursor_fields (isField_naturalText l) (isField_naturalText i)
    rw [hltext, hitext, hl, hi] at hfields
    refine ⟨l, i, hfields, ?_⟩
    rw [encodeCursor, text_natCast, text_natCast, hltext, hitext]

/-- Every pair of safe integers survives, and a cursor is treated as documented exactly if it cannot be
read at all or is the encoding of two numerals. -/
theorem cursors_exact (ledger index : Fin (2 ^ 53)) (c : String) :
    decodeCursor standardBase64 (encodeCursor standardBase64 ⟨.finite ledger, .finite index⟩) =
        some ⟨.finite ledger, .finite index⟩ ∧
      (CursorExact c ↔ Unreadable c ∨ Canonical c) := by
  constructor
  · exact decodeCursor_encodeCursor ledger.isLt index.isLt
  · exact cursorExact_iff c

/-- The base64 text of `12abc:7` is accepted, and read as 12 and 7. -/
theorem trailing_garbage_accepted : ¬ ∀ c, CursorExact c := by
  intro h
  have hledger : parseInt ['1', '2', 'a', 'b', 'c'] = some (.finite 12) := by
    refine (parseInt_digits ['1', '2'] ['a', 'b', 'c'] nofun (by simp [IsDigits]) (by simp)).trans ?_
    rw [JsInteger.ofNat_of_lt (by decide), nearestDouble_of_lt (by decide)]
    rfl
  have hindex : parseInt ['7'] = some (.finite 7) := by
    refine (parseInt_digits ['7'] [] nofun (by simp [IsDigits]) (by simp)).trans ?_
    rw [JsInteger.ofNat_of_lt (by decide), nearestDouble_of_lt (by decide)]
    rfl
  have hread : decodeCursor standardBase64 "MTJhYmM6Nw==" = some ⟨.finite 12, .finite 7⟩ := by
    have hcursor : standardBase64.btoa (String.ofList (['1', '2', 'a', 'b', 'c'] ++ ':' :: ['7'])) =
        "MTJhYmM6Nw==" := by decide
    rw [← hcursor, decodeCursor_fields (by simp [IsField]) (by simp [IsField]), hledger, hindex]
    rfl
  rcases h "MTJhYmM6Nw==" with hnone | ⟨ledger, index, hdecode, hencode⟩
  · rw [hread] at hnone
    exact absurd hnone nofun
  · rw [hread] at hdecode
    obtain ⟨hledger, hindex⟩ := Cursor.mk.inj (Option.some.inj hdecode)
    rw [← hledger, ← hindex] at hencode
    exact absurd hencode (by decide)

end LineProof.Sdk
