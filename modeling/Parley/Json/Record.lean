import Parley.Json.Value

/-! # Records in JSON

  A record with known fields is given as an object, where fields may be missing
  and others may be there as well, or as an array of its fields in their order,
  where the last ones may be missing and no other may be there.
-/

namespace Parley.Json

/-- The values of the named fields of a record, in the order of the names. -/
def record? (names : List String) : Json → Option (List (Option Json))
  | .object fields => some (names.map fun name => fields.lookup name)
  | .array items =>
    if items.length ≤ names.length then
      some (items.map some ++ List.replicate (names.length - items.length) none)
    else none
  | _ => none

/-- The text of a value that is one. -/
def asString? : Json → Option String
  | .string s => some s
  | _ => none

end Parley.Json
