import LineProof.Factory.Defs
import LineProof.Sdk.Calls

/-!
# Slugs

Reference: `validateSlug` of `sdk/src/utils.ts`, and the functions of the factory that take a slug.
-/

namespace LineProof.Sdk

open Soroban

/-- `/[a-z0-9]/`. -/
def isWordChar (c : Char) : Bool := ('a' ≤ c ∧ c ≤ 'z') ∨ ('0' ≤ c ∧ c ≤ '9')

/-- `/^[a-z0-9]+(?:-[a-z0-9]+)*$/`: words between single hyphens. -/
def isHyphenated (cs : List Char) : Bool :=
  (cs.splitOn '-').all fun word => word ≠ [] ∧ word.all isWordChar

/-- `SLUG_PATTERN`. -/
def slugPattern (slug : String) : Bool := isHyphenated slug.toList

/-- `MAX_SLUG_LENGTH`. -/
def maxSlugLength : ℕ := 64

/-- `validateSlug` of a string. -/
def validateSlug (slug : String) : Except SDKError Unit :=
  if utf16Length slug = 0 then
    .error ⟨"INVALID_SLUG", "Slug must be a non-empty string", some (.string slug)⟩
  else if maxSlugLength < utf16Length slug then
    .error ⟨"INVALID_SLUG", "Slug must be at most " ++ toString maxSlugLength ++ " characters",
      some (.string slug)⟩
  else if ¬ slugPattern slug then
    .error ⟨"INVALID_SLUG",
      "Slug must be lowercase alphanumeric words separated by single hyphens (e.g. \"sneaker-drop-001\")",
      some (.string slug)⟩
  else .ok ()

/-! ## Arguments of the factory -/

/-- The host's conversion of an argument of type `BytesN<32>`. -/
def decodeBytes32 : EventData → Option Bytes32
  | .val (.bytes b) => some b
  | _ => none

/-- `trait QueueFactory`, for the functions that make a slug known. -/
def decodeFactory : String → List EventData → Option Factory.Entrypoint
  | "deploy_queue", [deployer, slug, name, version, wasmHash] => do
    return .deployQueue (← decodeAddress deployer) (← decodeSymbol slug) (← decodeSymbol name)
      (← decodeU32 version) (← decodeBytes32 wasmHash)
  | "register_queue", [admin, slug, contractId, version] => do
    return .registerQueue (← decodeAddress admin) (← decodeSymbol slug) (← decodeAddress contractId)
      (← decodeU32 version)
  | _, _ => none

end LineProof.Sdk
