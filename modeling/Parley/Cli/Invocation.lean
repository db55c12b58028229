import Parley.Cli.Arguments
import Parley.Config

/-! # Invocations

  The program has four commands, and one option that every command shares: the
  configuration file. That option may be given before the command or behind it;
  **behind it wins**.
-/

namespace Parley.Cli

/-! ### Commands -/

/-- Settings that go into a new configuration file. -/
structure InitOptions where
  /-- The size of fragments of files that are sent. -/
  chunkSize : UInt64 := Chunk.defaultLength
  /-- The greatest number of workers for actions. -/
  maxWorkers : UInt64 := Dispatcher.defaultWorkers
  /-- More bytes in the fragment cache than this call for an eviction. -/
  clearThreshold : UInt64 := ChunkCache.defaultThreshold
deriving DecidableEq, Repr

/-- An action that is to be shown. -/
structure EncodeOptions where
  /-- The name of the action. -/
  action : String
  /-- Its parameters, each as `name=value`. -/
  params : List String := []
  /-- Its tracker. -/
  tracker : String := defaultTracker
  /-- Whether it is shown as a document. -/
  json : Bool := false
deriving DecidableEq, Repr

/-- A file that is to be sent. -/
structure TransferOptions where
  /-- The file. -/
  input : String
  /-- The directory it is received in. -/
  out : String
  /-- The size of fragments, if it is not that of the configuration. -/
  chunkSize : Option UInt64 := none
deriving DecidableEq, Repr

/-- A command. -/
inductive Command where
  /-- Write a configuration file. -/
  | init (o : InitOptions)
  /-- Show an action. -/
  | encode (o : EncodeOptions)
  /-- Read a primitive from the input and show its other form; `json` tells that
      the input is a document. -/
  | decode (json : Bool)
  /-- Send a file through two nuclei. -/
  | transfer (o : TransferOptions)
deriving DecidableEq, Repr

/-- A command with the configuration file that was given. -/
structure Invocation where
  /-- The configuration file. -/
  config : Option String
  /-- The command. -/
  command : Command
deriving DecidableEq, Repr

/-! ### Forms -/

/-- The option that every command shares. -/
def configSlot : Slot := { name := "config", letter := some 'c', arity := .single .path }

/-- The names of the commands. -/
def commandNames : List String := ["init", "encode", "decode", "transfer"]

/-- The command that calls for help. -/
def helpName : String := "help"

/-- What may be given before the command. -/
def rootForm : Form := { options := [configSlot], commands := helpName :: commandNames }

/-- What may be given behind a command. -/
def commandForm : String → Form
  | "init" =>
    { options :=
        [configSlot, { name := "chunk-size", arity := .single .number },
          { name := "max-workers", arity := .single .number },
          { name := "clear-threshold", arity := .single .number }] }
  | "encode" =>
    { options :=
        [configSlot, { name := "action", arity := .single .text },
          { name := "param", arity := .repeated .text },
          { name := "tracker", arity := .single .text }, { name := "json", arity := .switch }] }
  | "decode" => { options := [configSlot, { name := "json", arity := .switch }] }
  | "transfer" =>
    { options :=
        [configSlot, { name := "out", arity := .single .path },
          { name := "chunk-size", arity := .single .number }]
      operands := [{ name := "input", arity := .single .path }] }
  | _ => { options := [configSlot] }

/-! ### Reading -/

/-- Refuses what is needed and missing. -/
def needed (g : Given) (name : String) : Except Refusal String :=
  match g.get? name with
  | some value => .ok value
  | none => .error (.usage (.missing name))

/-- The command of a name with what was given. -/
def commandOf (name : String) (g : Given) : Except Refusal Command :=
  match name with
  | "init" =>
    let usual : InitOptions := {}
    .ok
      (.init
        { chunkSize := (g.number? "chunk-size").getD usual.chunkSize
          maxWorkers := (g.number? "max-workers").getD usual.maxWorkers
          clearThreshold := (g.number? "clear-threshold").getD usual.clearThreshold })
  | "encode" => do
    let action ← needed g "action"
    .ok
      (.encode
        { action, params := g.all "param", tracker := (g.get? "tracker").getD defaultTracker
          json := g.has "json" })
  | "decode" => .ok (.decode (g.has "json"))
  | "transfer" => do
    let out ← needed g "out"
    let input ← needed g "input"
    .ok (.transfer { input, out, chunkSize := g.number? "chunk-size" })
  | name => .error (.usage (.unexpected name))

/-- What a call for help about some command comes to: help is there for every
    command, itself included. -/
def helpAbout : List String → Refusal
  | [] => .help
  | [name] => if rootForm.isCommand name then .help else .usage (.unexpected name)
  | name :: next :: _ => .usage (.unexpected (if rootForm.isCommand name then next else name))

/-- Reads an invocation from arguments. -/
def Invocation.read (arguments : List String) : Except Refusal Invocation :=
  match rootForm.read {} 0 arguments with
  | .error e => .error e
  | .ok (_, none) => .error (.usage .noCommand)
  | .ok (before, some (name, rest)) =>
    if name = helpName then .error (helpAbout rest)
    else do
      let (behind, _) ← (commandForm name).read {} 0 rest
      let command ← commandOf name behind
      let before ← before.settle
      let config := match behind.get? configSlot.name with
        | some path => some path
        | none => before.get? configSlot.name
      return { config, command }

end Parley.Cli
