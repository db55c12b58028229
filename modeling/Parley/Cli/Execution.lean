import Parley.Cli.Invocation
import Parley.Text.Ascii
import Parley.Transfer.Exchange

/-! # Executing invocations

  What an invocation prints and does to the disk. Nothing is printed unless the
  command succeeds, so a caller finds either the whole output or a reason.

  The two forms that `encode` prints are the two that `decode` reads: the wire
  form, and a JSON document.
-/

namespace Parley.Cli

/-! ### Failures -/

/-- Why a command failed. -/
inductive Failure where
  /-- A configuration could not be loaded. -/
  | loading (path : String) (e : StorageError)
  /-- A configuration could not be written. -/
  | writing (path : String) (e : StorageError)
  /-- A parameter has no `=`. -/
  | noParameter (param : String)
  /-- The name of the action is empty. -/
  | noAction
  /-- A document is not UTF-8. -/
  | notText
  /-- A primitive could not be read. -/
  | protocol (e : ProtocolError)
  /-- A nucleus failed. -/
  | nucleus (e : NucleusError)
  /-- All was sent, but no file was put together. -/
  | unfinished (input : String)
deriving DecidableEq, Repr

/-- The message of a failure. -/
def Failure.message : Failure → String
  | .loading path e => StorageError.loading path ++ ": " ++ e.message
  | .writing path e => StorageError.writing path ++ ": " ++ e.message
  | .noParameter param => "parameter '" ++ param ++ "' is not name=value"
  | .noAction => "action dialect has no action"
  | .notText => "JSON input is not UTF-8"
  | .protocol e => e.message
  | .nucleus e => e.message
  | .unfinished input => "transfer of " ++ Text.quoted input ++ " did not complete"

/-- What a command prints, or why it failed, and the disk after it. -/
abbrev Execution := Except Failure Bytes × Disk

/-- A text on a line of its own. -/
def line (s : String) : Bytes := Text.bytes (s ++ "\n")

/-! ### Configurations -/

/-- Where a configuration is written if nothing else is said. -/
def defaultPath : String := "nucleus.json"

/-- The configuration of an invocation. -/
def loadConfig : Option String → Disk → Except Failure Config × Disk
  | none, d => (.ok {}, d)
  | some path, d =>
    let (read, d) := Storage.readConfig path d
    (read.mapError (.loading path), d)

/-- Writes a configuration file. -/
def runInit (config : Option String) (o : InitOptions) (d : Disk) : Execution :=
  let path := config.getD defaultPath
  let written : Config :=
    { maxWorkers := o.maxWorkers, chunkSize := o.chunkSize, clearThreshold := o.clearThreshold }
  match Storage.saveConfig path written d with
  | (some e, d) => (.error (.writing path e), d)
  | (none, d) => (.ok (line ("Wrote nucleus config to " ++ Text.quoted path)), d)

/-! ### Showing an action -/

/-- The literal that the value of a parameter stands for: a truth value, a 64-bit
    integer, or else itself. -/
def paramLiteral (value : String) : Literal :=
  if value = Literal.boolText true then .ofBool true
  else if value = Literal.boolText false then .ofBool false
  else
    match Text.int64? value with
    | some n => .ofInt64 n
    | none => .ofString value

/-- A parameter taken apart at its first `=`. -/
def param? (param : String) : Option (String × Literal) :=
  match cutAtEquals param.toList with
  | (_, none) => none
  | (name, some value) => some (String.ofList name, paramLiteral (String.ofList value))

/-- The parameters of an action. -/
def params : List String → Except Failure (List (String × Literal))
  | [] => .ok []
  | param :: rest =>
    match param? param with
    | none => .error (.noParameter param)
    | some p => (params rest).map fun ps => p :: ps

/-- The primitive of an action. -/
def actionPrimitive (o : EncodeOptions) : Except Failure (Primitive Empty) := do
  let params ← params o.params
  let action : Action := { info := { tracker := o.tracker }, action := o.action, params }
  match Primitive.ofDialect? (.action action) with
  | some p => .ok p
  | none => .error .noAction

/-- The wire form of a primitive on a line of its own. -/
def wireLine (p : Primitive Empty) : Bytes := Wire.serialize p ++ [Ascii.lineFeed]

/-- The document of a primitive on lines of its own. -/
def documentLines (p : Primitive Empty) : Bytes := line (Document.text p)

/-- Shows an action. -/
def runEncode (o : EncodeOptions) : Except Failure Bytes :=
  (actionPrimitive o).map fun p => if o.json then documentLines p else wireLine p

/-! ### Reading a primitive -/

/-- Shows the other form of a primitive. -/
def showOther (n : Nucleus Empty) (json : Bool) (input : Bytes) : Except Failure Bytes :=
  let finish (r : Received Empty) (form : Primitive Empty → Bytes) : Except Failure Bytes :=
    match r.error with
    | some e => .error (.protocol e)
    | none => .ok (form r.primitive)
  if json then
    match Text.ofBytes? input with
    | none => .error .notText
    | some text => finish (n.codec.parse text none) wireLine
  else finish (n.codec.deserialize (Ascii.trimEnd input) none) documentLines

/-- Reads a primitive with a configuration, and shows its other form. -/
def runDecode (config : Option String) (json : Bool) (input : Bytes) (tag : Uuid) (d : Disk) :
    Execution :=
  match loadConfig config d with
  | (.error e, d) => (.error e, d)
  | (.ok config, d) =>
    match Nucleus.create config tag {} with
    | .error e => (.error (.nucleus e), d)
    | .ok n => (showOther n json input, d)

/-! ### Sending a file -/

/-- The cellet on both sides. -/
def transferCellet : String := "transfer"

/-- What is said of a file that was sent. -/
def summary (count : UInt32) (report : Transfer.Report) : Bytes :=
  line ("Sent " ++ toString count.toNat ++ " fragments") ++
    line ("Wrote " ++ toString report.bytes ++ " bytes to " ++ Text.quoted report.path) ++
    line ("BLAKE3 " ++ report.digest)

/-- Hands everything that was sent over to the receiver. -/
def handOver (x : Transfer.Exchange Empty) (o : TransferOptions) (count : UInt32) (d : Disk) :
    Execution :=
  let (frames, x) := x.drain
  let arrived := x.target.arriveAll x.source.tag.text d frames
  match arrived.error, arrived.host.reports.getLast? with
  | some e, _ => (.error (.nucleus e), arrived.disk)
  | none, none => (.error (.unfinished o.input), arrived.disk)
  | none, some report => (.ok (summary count report), arrived.disk)

/-- Sends a file through two nuclei. -/
def runTransfer (config : Option String) (o : TransferOptions) (sourceTag targetTag : Uuid)
    (d : Disk) : Execution :=
  match loadConfig config d with
  | (.error e, d) => (.error e, d)
  | (.ok config, d) =>
    let config := { config with chunkSize := o.chunkSize.getD config.chunkSize }
    match Transfer.Exchange.start config sourceTag targetTag transferCellet o.out with
    | .error e => (.error (.nucleus e), d)
    | .ok x =>
      let (sent, x, d) :=
        x.send transferCellet x.target.nucleus.tag.text o.input config.chunkSize.toNat d
      match sent with
      | .error e => (.error (.nucleus e), d)
      | .ok count => handOver x o count d

/-! ### Invocations -/

/-- Executes an invocation. The two tags are for nuclei whose configuration has
    none. -/
def Invocation.run (i : Invocation) (input : Bytes) (sourceTag targetTag : Uuid) (d : Disk) :
    Execution :=
  match i.command with
  | .init o => runInit i.config o d
  | .encode o => (runEncode o, d)
  | .decode json => runDecode i.config json input sourceTag d
  | .transfer o => runTransfer i.config o sourceTag targetTag d

/-- Whether an invocation reads its input. -/
def Invocation.readsInput (i : Invocation) : Bool :=
  match i.command with
  | .decode _ => true
  | _ => false

/-- The paths that an invocation may look at or change. -/
def Invocation.paths (i : Invocation) : List String :=
  match i.command with
  | .init _ =>
    let path := i.config.getD defaultPath
    [path, Path.temp path]
  | .encode _ => []
  | .decode _ => i.config.toList
  | .transfer o =>
    let received := match Path.fileName? o.input with
      | none => []
      | some name =>
        [Path.join o.out name, Path.join o.out (Transfer.Receiver.partName name)]
    i.config.toList ++ o.input :: received

/-! ### Ends -/

/-- How the program ends. -/
structure End where
  /-- The exit code: zero for success, one for a failure, two for wrong
      arguments. -/
  code : UInt32
  /-- What is printed. -/
  output : Bytes := []
  /-- What is reported. -/
  report : String := ""

/-- How to call the program. -/
def helpText : String :=
  "Usage: parley [--config FILE] COMMAND\n\nCommands:\n" ++
    "  init      Write a configuration file\n" ++
    "  encode    Print the primitive of an action\n" ++
    "  decode    Read a primitive and print its other form\n" ++
    "  transfer  Send a file through two nuclei\n"

/-- The end after a failure, or after what was to be printed. -/
def endOf : Except Failure Bytes → End
  | .ok output => { code := 0, output }
  | .error e => { code := 1, report := "Error: " ++ e.message ++ "\n" }

/-- The end when arguments are refused. -/
def Refusal.ending : Refusal → End
  | .help => { code := 0, output := Text.bytes helpText }
  | .usage e => { code := 2, report := "error: " ++ e.message ++ "\n\n" ++ helpText }

end Parley.Cli
