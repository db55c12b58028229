import Parley.Number.Binary
import Parley.Table

/-! # JSON values

  A JSON value as this library holds it. Numbers are **integers that fit 64
  bits**, signed or unsigned, and otherwise finite floating-point numbers; so
  the readings of a number as a word ask only for its range.

  An object is a list of fields. Fields are put into it one by one, which keeps
  the keys in ascending order and lets the last field of a key win; the order of
  keys is the order of their UTF-8 bytes, which is that of their code points.
-/

namespace Parley

/-- An integer that fits 64 bits, signed or unsigned. -/
abbrev Json.Integer := { n : Int // -9223372036854775808 ≤ n ∧ n < 18446744073709551616 }

/-- A finite floating-point number. -/
abbrev Json.Real := { x : Double // x.isFinite = true }

/-- A JSON number. -/
inductive Json.Number where
  /-- An integer that fits 64 bits. -/
  | integer (n : Json.Integer)
  /-- Any other number. -/
  | real (x : Json.Real)
deriving DecidableEq

/-- A JSON value. -/
inductive Json where
  /-- The value `null`. -/
  | null
  /-- A truth value. -/
  | bool (b : Bool)
  /-- A number. -/
  | number (n : Json.Number)
  /-- A text. -/
  | string (s : String)
  /-- A sequence of values. -/
  | array (items : List Json)
  /-- Values under keys. -/
  | object (fields : List (String × Json))
deriving Inhabited

namespace Json

/-! ### Fields -/

/-- The object of some fields, the last one of each key. -/
def ofFields (fields : List (String × Json)) : Json :=
  .object (fields.foldl (fun acc field => Entries.insert field.1 field.2 acc) [])

/-- The value under a key. -/
def field? (fields : List (String × Json)) (key : String) : Option Json := fields.lookup key

/-! ### Making numbers -/

/-- The number of a signed word. -/
def ofInt64 (n : Int64) : Json :=
  .number (.integer ⟨n.toInt, by have := n.le_toInt; have := n.toInt_lt; omega⟩)

/-- The number of an unsigned word. -/
def ofUInt64 (n : UInt64) : Json :=
  .number (.integer ⟨n.toNat, by have := n.toNat_lt; omega⟩)

/-- The number of a floating-point number, if it is one. -/
def ofDouble? (x : Double) : Option Json :=
  if h : x.isFinite = true then some (.number (.real ⟨x, h⟩)) else none

/-! ### Reading a value as something -/

/-- The truth value. -/
def asBool? : Json → Option Bool
  | .bool b => some b
  | _ => none

/-- The integer, whatever its size. -/
def asInteger? : Json → Option Int
  | .number (.integer n) => some n.1
  | _ => none

/-- The number as a signed 64-bit word. -/
def asInt64? (v : Json) : Option Int64 :=
  v.asInteger?.bind fun n =>
    if n < 9223372036854775808 then some (Int64.ofInt n) else none

/-- The number as an unsigned 64-bit word. -/
def asUInt64? (v : Json) : Option UInt64 :=
  v.asInteger?.bind fun n => if 0 ≤ n then some (UInt64.ofNat n.toNat) else none

/-- The number as a signed 32-bit word. -/
def asInt32? (v : Json) : Option Int32 :=
  v.asInteger?.bind fun n =>
    if -2147483648 ≤ n ∧ n < 2147483648 then some (Int32.ofInt n) else none

/-- The number as an unsigned 32-bit word. -/
def asUInt32? (v : Json) : Option UInt32 :=
  v.asInteger?.bind fun n =>
    if 0 ≤ n ∧ n < 4294967296 then some (UInt32.ofNat n.toNat) else none

/-- The number as the nearest floating-point number. -/
def asDouble? : Json → Option Double
  | .number (.integer n) => some (Double.ofInt n.1)
  | .number (.real x) => some x.1
  | _ => none

end Json

end Parley
