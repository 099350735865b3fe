import LineProof.Sdk.Integers

/-!
# Pages and cursors

Reference: `sdk/src/pagination.ts`.
-/

namespace LineProof.Sdk

/-- Some items and where the next ones start. -/
structure Page (α : Type*) where
  items : List α
  /-- present when more items are available -/
  nextCursor : Option String
  count : ℕ

/-- `btoa` and `atob`, the second of which may throw. -/
structure Base64 where
  btoa : String → String
  atob : String → Option String

instance : Inhabited Base64 := ⟨⟨id, some⟩⟩

/-- Where a page starts. -/
structure Cursor where
  ledger : JsInteger
  index : JsInteger
deriving DecidableEq

/-- `parseInt(s, 10)`, where `none` is `NaN`. -/
def parseInt (s : List Char) : Option JsInteger :=
  match s.dropWhile isWhiteSpace with
  | '-' :: cs => (digits? (cs.takeWhile Char.isDigit)).map fun n => (JsInteger.ofNat n).neg
  | '+' :: cs => (digits? (cs.takeWhile Char.isDigit)).map JsInteger.ofNat
  | cs => (digits? (cs.takeWhile Char.isDigit)).map JsInteger.ofNat

variable (B : Base64)

/-- `encodeCursor`, for numbers without a fraction. -/
def encodeCursor (cursor : Cursor) : String :=
  B.btoa (String.ofList (cursor.ledger.text ++ ':' :: cursor.index.text))

/-- `decodeCursor`, whose only error is `Invalid cursor: "…"`. -/
def decodeCursor (cursor : String) : Option Cursor := do
  match (← B.atob cursor).toList.splitOn ':' with
  | ledgerStr :: indexStr :: _ => return ⟨← parseInt ledgerStr, ← parseInt indexStr⟩
  -- `parseInt(undefined, 10)` is `NaN`
  | _ => none

/-- `paginate`, with `options.limit`. -/
def paginate {α : Type*} (items : List α) (limit : Option ℕ) (getCursor : α → ℕ → Cursor) : Page α :=
  let limit := min (limit.getD 50) 200
  let sliced := items.take limit
  let page : Page α := ⟨sliced, none, sliced.length⟩
  if limit < items.length then
    match sliced.getLast? with
    | some lastItem =>
      let cursor := getCursor lastItem (sliced.length - 1)
      { page with nextCursor := some (encodeCursor B { cursor with index := cursor.index.succ }) }
    | none => page
  else page

/-- There is no next page after items that fit into one. -/
theorem paginate_of_length_le {α : Type*} {items : List α} {limit : Option ℕ}
    (h : items.length ≤ min (limit.getD 50) 200) (getCursor : α → ℕ → Cursor) :
    paginate B items limit getCursor = ⟨items, none, items.length⟩ := by
  unfold paginate
  rw [if_neg (by omega), List.take_of_length_le h]

end LineProof.Sdk
