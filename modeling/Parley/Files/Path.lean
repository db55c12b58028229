/-! # Paths

  A path is a text of components between slashes. Empty components and `.` are
  void, they mean nothing; `..` leads to the parent. The **name** of a path is its
  last component that means something, unless that is `..`; a path of void
  components has none.

  Parts of a path are spelled as they are in the path: void components inside
  them stay, those at their end go.
-/

namespace Parley.Path

/-! ### Components -/

/-- The stretches between slashes, from left to right. -/
def pieces : List Char → List (List Char)
  | [] => [[]]
  | '/' :: cs => [] :: pieces cs
  | c :: cs =>
    match pieces cs with
    | [] => [[c]]
    | piece :: rest => (c :: piece) :: rest

/-- The text of components. -/
def spell (cs : List (List Char)) : String := String.ofList (['/'].intercalate cs)

/-- The component that leads to the parent. -/
def up : List Char := ['.', '.']

/-- Whether a component means nothing. -/
def isVoid (c : List Char) : Bool := c == [] || c == ['.']

/-- The components that mean something. -/
def components (path : String) : List String :=
  ((pieces path.toList).filter fun c => !isVoid c).map String.ofList

/-- Whether a path starts at the root. -/
def isAbsolute (path : String) : Bool := path.toList.head? = some '/'

/-- Whether a path ends in `.`, slashes apart. -/
def endsInPoint (path : String) : Bool :=
  ((pieces path.toList).reverse.dropWhile (· = [])).head? = some ['.']

/-- Whether a path can only lead to a directory, because it ends in a slash, in `.`
    or in `..`. -/
def endsInDirectory (path : String) : Bool :=
  match (pieces path.toList).getLast? with
  | some last => isVoid last || last == up
  | none => false

/-! ### Parts of a path -/

/-- A path cut at its last component that means something. -/
structure Cut where
  /-- The components before it. -/
  above : List (List Char)
  /-- The component. -/
  last : List Char
  /-- The void components after it. -/
  trailing : List (List Char)
deriving DecidableEq, Repr

/-- Cuts a path. -/
def cut? (path : String) : Option Cut :=
  let backwards := (pieces path.toList).reverse
  match backwards.dropWhile isVoid with
  | [] => none
  | last :: above =>
    some { above := above.reverse, last, trailing := (backwards.takeWhile isVoid).reverse }

/-- The name of a path. -/
def fileName? (path : String) : Option String :=
  match cut? path with
  | none => none
  | some cut => if cut.last = up then none else some (String.ofList cut.last)

/-- Components without the void ones at the end. The first stays, since it says
    where the path starts. -/
def trimEnd : List (List Char) → List (List Char)
  | [] => []
  | first :: rest => first :: (rest.reverse.dropWhile isVoid).reverse

/-- The path of the directory that a path lies in, where it is spelled out. -/
def parent? (path : String) : Option String :=
  match cut? path with
  | none => none
  | some cut =>
    match trimEnd cut.above with
    | [] => none
    | [[]] => some "/"
    | cs => some (spell cs)

/-- A path and a path from there on; one that starts at the root stands for
    itself. -/
def join (dir name : String) : String :=
  if dir = "" ∨ isAbsolute name then name
  else if dir.toList.getLast? = some '/' then dir ++ name
  else dir ++ "/" ++ name

/-! ### Temporary names -/

/-- The part of a name before its last point; a point in front begins no
    extension. -/
def stem (name : List Char) : List Char :=
  match name.reverse.dropWhile (· ≠ '.') with
  | [] => name
  | _ :: before => if before = [] then name else before.reverse

/-- The name with `tmp` for its extension. -/
def tempName (name : List Char) : List Char := stem name ++ ".tmp".toList

/-- The path beside a path that its content is written to first. A path without a
    name is its own. Where the name stands at the very end, and nothing but a point
    is left of it without its extension, taking the extension off leaves the point
    before it, and so the name of the parent. -/
def temp (path : String) : String :=
  match cut? path with
  | none => path
  | some cut =>
    if cut.last = up then path
    else if stem cut.last = ['.'] ∧ cut.trailing = [] then spell (cut.above ++ [up])
    else spell (cut.above ++ [tempName cut.last])

end Parley.Path
