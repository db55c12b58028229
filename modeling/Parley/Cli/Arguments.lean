import Parley.Text.Integer

/-! # Arguments

  The arguments of a command are **options** and **operands**. An option is
  `--name`, and one that takes a value has it either attached, `--name=value`,
  or in the argument behind it. An option may have a letter too: `-c value`,
  `-cvalue` and `-c=value` are the same. All that begins with a hyphen is an
  option, a single hyphen apart, so no value behind an option can begin with
  one. After `--` all arguments are operands.

  Arguments are read from left to right, and the first thing that is wrong, or
  the first call for help, ends the reading. A value that stands in an argument
  of its own **waits** until the next option, operand or the end; only then is
  it looked at.
-/

namespace Parley.Cli

/-! ### What may be given -/

/-- What a value can be. -/
inductive ValueKind where
  /-- Any text. -/
  | text
  /-- A path; it is not empty. -/
  | path
  /-- An unsigned 64-bit integer. -/
  | number
deriving DecidableEq, Repr

/-- Whether a text is a value. -/
def ValueKind.accepts : ValueKind → String → Bool
  | .text, _ => true
  | .path, s => s ≠ ""
  | .number, s => (Text.uint64? s).isSome

/-- What an option or an operand takes. -/
inductive Arity where
  /-- No value; at most once. -/
  | switch
  /-- One value; at most once. -/
  | single (kind : ValueKind)
  /-- One value each time. -/
  | repeated (kind : ValueKind)
deriving DecidableEq, Repr

/-- An option or an operand. -/
structure Slot where
  /-- Its name. -/
  name : String
  /-- A letter for it; only an option with a value has one. -/
  letter : Option Char := none
  /-- What it takes. -/
  arity : Arity
deriving DecidableEq, Repr

/-- What the arguments of a command can be. -/
structure Form where
  /-- The options. -/
  options : List Slot := []
  /-- The operands, in order. -/
  operands : List Slot := []
  /-- The commands that may follow. -/
  commands : List String := []
deriving DecidableEq, Repr

/-! ### What can be wrong -/

/-- Why arguments are refused. -/
inductive UsageError where
  /-- An argument has no meaning here. -/
  | unexpected (argument : String)
  /-- An option is without its value. -/
  | noValue (name : String)
  /-- A switch has a value. -/
  | needlessValue (name : String)
  /-- A value is not of its kind. -/
  | badValue (name value : String)
  /-- Something is given more than once. -/
  | givenTwice (name : String)
  /-- Something that is needed is missing. -/
  | missing (name : String)
  /-- There is no command. -/
  | noCommand
deriving DecidableEq, Repr

/-- The message of an error. -/
def UsageError.message : UsageError → String
  | .unexpected argument => "unexpected argument '" ++ argument ++ "'"
  | .noValue name => "a value is required for '" ++ name ++ "'"
  | .needlessValue name => "no value can be given for '" ++ name ++ "'"
  | .badValue name value => "invalid value '" ++ value ++ "' for '" ++ name ++ "'"
  | .givenTwice name => "'" ++ name ++ "' cannot be given more than once"
  | .missing name => "'" ++ name ++ "' is missing"
  | .noCommand => "a command is required"

/-- Why the reading of arguments ended early. -/
inductive Refusal where
  /-- Help was called for. -/
  | help
  /-- The arguments are wrong. -/
  | usage (e : UsageError)
deriving DecidableEq, Repr

/-! ### What was given -/

/-- A slot that waits for its value, or whose value waits to be looked at. -/
structure Waiting where
  /-- The slot. -/
  slot : Slot
  /-- Its value. -/
  value : Option String
deriving DecidableEq, Repr

/-- The arguments read so far. -/
structure Given where
  /-- The values by name, in order; a switch has an empty one. -/
  values : List (String × String) := []
  /-- What waits. -/
  waiting : Option Waiting := none
deriving DecidableEq, Repr

namespace Given

/-- The values under a name. -/
def all (g : Given) (name : String) : List String :=
  (g.values.filter fun v => v.1 == name).map Prod.snd

/-- The first value under a name. -/
def get? (g : Given) (name : String) : Option String := g.values.lookup name

/-- Whether a name was given. -/
def has (g : Given) (name : String) : Bool := (g.get? name).isSome

/-- The number under a name. -/
def number? (g : Given) (name : String) : Option UInt64 := (g.get? name).bind Text.uint64?

/-- Adds a value once it has been looked at. -/
def add (g : Given) (slot : Slot) (value : String) : Except Refusal Given :=
  let added : Given := { g with values := g.values ++ [(slot.name, value)] }
  let once (kind : ValueKind) : Except Refusal Given :=
    if g.has slot.name then .error (.usage (.givenTwice slot.name))
    else if kind.accepts value then .ok added
    else .error (.usage (.badValue slot.name value))
  match slot.arity with
  | .switch => once .text
  | .single kind => once kind
  | .repeated kind =>
    if kind.accepts value then .ok added else .error (.usage (.badValue slot.name value))

/-- Looks at what waits. -/
def settle (g : Given) : Except Refusal Given :=
  match g.waiting with
  | none => .ok g
  | some { slot, value := none } => .error (.usage (.noValue slot.name))
  | some { slot, value := some value } => ({ g with waiting := none } : Given).add slot value

/-- Whether an option waits for its value. -/
def expectsValue (g : Given) : Bool :=
  match g.waiting with
  | some { value := none, .. } => true
  | _ => false

/-- Settles what waits, and lets something else wait. -/
def await (g : Given) (slot : Slot) (value : Option String) : Except Refusal Given :=
  g.settle.map fun g => { g with waiting := some { slot, value } }

/-- Settles what waits, and calls for help. -/
def callHelp (g : Given) : Except Refusal Given :=
  match g.settle with
  | .error e => .error e
  | .ok _ => .error .help

end Given

/-! ### Reading -/

/-- The part before the first `=`, and the part behind it if there is one. -/
def cutAtEquals : List Char → List Char × Option (List Char)
  | [] => ([], none)
  | '=' :: cs => ([], some cs)
  | c :: cs =>
    let (before, behind) := cutAtEquals cs
    (c :: before, behind)

namespace Form

/-- Reads an option by its name; the characters stand behind the two hyphens. -/
def readLong (form : Form) (g : Given) (cs : List Char) : Except Refusal Given :=
  let (name, attached) := cutAtEquals cs
  let name := String.ofList name
  match form.options.find? fun slot => slot.name == name, attached with
  | some slot, some value =>
    match slot.arity with
    | .switch => .error (.usage (.needlessValue name))
    | _ => g.settle.bind fun g => g.add slot (String.ofList value)
  | some slot, none =>
    match slot.arity with
    | .switch => g.settle.bind fun g => g.add slot ""
    | _ => g.await slot none
  | none, some _ => .error (.usage (.unexpected ("--" ++ name)))
  | none, none =>
    if name = "help" then g.callHelp else .error (.usage (.unexpected ("--" ++ name)))

/-- Reads an option by its letter; the characters stand behind the letter. -/
def readShort (form : Form) (g : Given) (letter : Char) (cs : List Char) : Except Refusal Given :=
  match form.options.find? fun slot => slot.letter == some letter with
  | some slot =>
    match cs with
    | [] => g.await slot none
    | '=' :: value => g.settle.bind fun g => g.add slot (String.ofList value)
    | value => g.settle.bind fun g => g.add slot (String.ofList value)
  | none =>
    if letter = 'h' then g.callHelp
    else .error (.usage (.unexpected ("-" ++ String.ofList [letter])))

/-- Reads an operand, of which so many came before. -/
def readOperand (form : Form) (g : Given) (place : Nat) (argument : String) :
    Except Refusal Given :=
  match form.operands[place]? with
  | some slot => g.await slot (some argument)
  | none => .error (.usage (.unexpected argument))

/-- Whether an argument names a command. -/
def isCommand (form : Form) (argument : String) : Bool := form.commands.contains argument

/-- Reads arguments, of which so many operands came before, up to a command or the
    end: what was given, and the command with what follows it. At the end
    nothing waits any more. -/
def read (form : Form) (g : Given) (place : Nat) :
    List String → Except Refusal (Given × Option (String × List String))
  | [] => g.settle.map fun g => (g, none)
  | argument :: rest =>
    if g.expectsValue = false ∧ form.isCommand argument then .ok (g, some (argument, rest))
    else
      match argument.toList with
      | ['-', '-'] =>
        match g.settle with
        | .error e => .error e
        | .ok g => readOperands form g place rest
      | '-' :: '-' :: cs =>
        match form.readLong g cs with
        | .error e => .error e
        | .ok g => form.read g place rest
      | '-' :: letter :: cs =>
        match form.readShort g letter cs with
        | .error e => .error e
        | .ok g => form.read g place rest
      | _ =>
        match g.waiting with
        | some { slot, value := none } =>
          form.read { g with waiting := some { slot, value := some argument } } place rest
        | _ =>
          match form.readOperand g place argument with
          | .error e => .error e
          | .ok g => form.read g (place + 1) rest
where
  /-- Reads arguments all of which are operands. -/
  readOperands (form : Form) (g : Given) (place : Nat) :
      List String → Except Refusal (Given × Option (String × List String))
    | [] => g.settle.map fun g => (g, none)
    | argument :: rest =>
      match form.readOperand g place argument with
      | .error e => .error e
      | .ok g => readOperands form g (place + 1) rest

end Form

end Parley.Cli
