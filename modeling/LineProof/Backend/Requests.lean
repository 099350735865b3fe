import LineProof.Backend.EventIndexer

/-!
# Bodies and queries of requests

What the schemas of the routes look at: the fields of a JSON object, which is a body or a parsed query
string.
-/

namespace LineProof.Backend

/-- A JSON object. -/
abbrev JsonObject := InsertionMap String JsValue

/-- `.strict()`: the object has no other keys. -/
def hasOnly (keys : List String) (body : JsonObject) : Bool := body.entries.all fun e => e.1 ∈ keys

/-- `z.string()` on a field of the body. -/
def stringField (key : String) (body : JsonObject) : Option String :=
  match body.get key with
  | some (.string s) => some s
  | _ => none

/-- `.optional()`, `none` if the field is there and not of the kind that `read` accepts. -/
def optionalField {α : Type} (read : JsValue → Option α) (key : String) (body : JsonObject) :
    Option (Option α) :=
  match body.get key with
  | none | some .undefined => some none
  | some value => (read value).map some

/-- `typeof value === "string"`. -/
def asText : JsValue → Option String
  | .string s => some s
  | _ => none

/-- `typeof value === "boolean"`. -/
def asBoolean : JsValue → Option Bool
  | .boolean b => some b
  | _ => none

/-- `z.number().int().positive()`. -/
def asPositiveInt : JsValue → Option ℤ
  | .number (.finite q) => if q.den = 1 ∧ 0 < q then some q.num else none
  | _ => none

end LineProof.Backend
