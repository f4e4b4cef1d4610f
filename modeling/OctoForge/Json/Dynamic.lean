import OctoForge.Json

/-!
# Fields of any type

What Python code makes of a parsed document whose fields may be of any type: `x or default` takes
the default for everything that is false.
-/

namespace OctoForge
namespace Json

/-- `bool(value)`. -/
def truthy : Json → Bool
  | .null => false
  | .bool value => value
  | .number value => value ≠ 0
  | .float digits => digits ≠ "0.0".toList && digits ≠ "-0.0".toList
  | .string value => value ≠ ""
  | .array items => !items.isEmpty
  | .object members => !members.isEmpty

/-- A field that counts only when it is true. -/
def field (members : List (String × Json)) (name : String) : Option Json :=
  (lookup members name).filter truthy

/-- `isinstance(value, int)`; a bool is an integer. -/
def int? : Json → Option Int
  | .bool true => some 1
  | .bool false => some 0
  | .number value => some value
  | _ => none

end Json
end OctoForge
