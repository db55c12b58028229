import Parley.Json.Magnitude

/-! # Reading JSON values

  A value is a term of which every part is judged: its strings are UTF-8, its
  numbers lie within range, and no more than `maxDepth` arrays and objects lie
  inside one another. Of several fields with one key the last wins.
-/

namespace Parley

namespace Json

/-- How many arrays and objects may lie inside one another. -/
def maxDepth : Nat := 127

mutual

/-- The value of a term in which at most `depth` arrays and objects lie inside
    one another. -/
def Term.value? (depth : Nat) : Term → Option Json
  | .null => some .null
  | .bool b => some (.bool b)
  | .number n => n.number?.map .number
  | .string raw => (Text.ofBytes? raw).map .string
  | .array ts => if depth = 0 then none else (Term.values? (depth - 1) ts).map .array
  | .object fs => if depth = 0 then none else (Term.fieldValues? (depth - 1) fs).map ofFields

/-- The values of some terms. -/
def Term.values? (depth : Nat) : List Term → Option (List Json)
  | [] => some []
  | t :: ts => do
    let v ← Term.value? depth t
    let vs ← Term.values? depth ts
    some (v :: vs)

/-- The values of some fields. -/
def Term.fieldValues? (depth : Nat) : List (Bytes × Term) → Option (List (String × Json))
  | [] => some []
  | (raw, t) :: fs => do
    let key ← Text.ofBytes? raw
    let v ← Term.value? depth t
    let vs ← Term.fieldValues? depth fs
    some ((key, v) :: vs)

end

/-- Reads a value from bytes. -/
def parse? (bs : Bytes) : Option Json := (Term.parse? bs).bind (Term.value? maxDepth)

/-- Reads a value from text. -/
def read? (s : String) : Option Json := parse? (Text.bytes s)

end Json

end Parley
