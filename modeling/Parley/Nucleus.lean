import Parley.Codec
import Parley.Error

/-! # The nucleus

  A nucleus hosts cellets and talks for them. What a cellet says to a peer goes
  out over the link; bytes that come in from a peer are read, and the primitive
  is delivered to the cellet they are meant for.

  Whenever a primitive has a dialect whose factory is registered, the factory
  takes part:

  - on the way out it is asked **before** anything is sent, and told after;
  - on the way in it is told that the dialect was built, then asked before the
    delivery, and told after it. A dialect that is not let in is dropped, which
    is no error.

  Every call tells its **events** in the order in which they happened: hooks,
  frames that went out, primitives that were delivered.
-/

namespace Parley

variable {κ : Type}

/-! ### The link -/

/-- What went out to a peer. -/
structure Frame where
  /-- The peer. -/
  peer : String
  /-- The bytes. -/
  payload : Bytes
deriving DecidableEq, Repr

/-- The way out: it keeps the frames that it took. -/
structure Link where
  /-- The frames, the oldest first. -/
  frames : List Frame := []
  /-- How often something was sent. -/
  attempts : Nat := 0
  /-- Whether the attempt of a number fails, and why. -/
  faults : Nat → Option String := fun _ => none

namespace Link

/-- Sends bytes to a peer: why it failed, if it did, and the link after it. -/
def transmit (l : Link) (peer : String) (payload : Bytes) : Option String × Link :=
  let next := { l with attempts := l.attempts + 1 }
  match l.faults l.attempts with
  | some reason => (some reason, next)
  | none => (none, { next with frames := l.frames ++ [{ peer, payload }] })

/-- Takes all frames off the link. -/
def drain (l : Link) : List Frame × Link := (l.frames, { l with frames := [] })

end Link

/-! ### Events -/

/-- What is seen to happen. -/
inductive Event (κ : Type) where
  /-- A hook was called. -/
  | hook (call : HookCall κ)
  /-- Bytes went out to a peer. -/
  | transmitted (peer : String) (payload : Bytes)
  /-- A primitive of a peer was delivered to a cellet. -/
  | delivered (cellet peer : String) (p : Primitive κ)
  /-- A cellet was told that a peer has come. -/
  | contacted (cellet peer : String)
  /-- A cellet was told that a peer has gone. -/
  | quitted (cellet peer : String)

/-! ### The nucleus -/

/-- A host of cellets. -/
structure Nucleus (κ : Type) where
  /-- The settings. -/
  config : Config
  /-- The tag, made up if the settings have none. -/
  tag : Uuid
  /-- The factories of dialects, and the fragment cache. -/
  registry : Registry κ
  /-- The workers for actions. -/
  dispatcher : Dispatcher Action
  /-- The names of the cellets, ascending. -/
  cellets : List String := []
  /-- The way out. -/
  link : Link := {}

/-- What a call came to. -/
structure Outcome (κ : Type) where
  /-- Why it failed, if it did. -/
  error : Option NucleusError
  /-- The nucleus after it. -/
  nucleus : Nucleus κ
  /-- What happened. -/
  events : List (Event κ) := []

namespace Nucleus

/-- A nucleus with the built-in factories. The tag `fresh` is taken where the
    settings have none. -/
def create (config : Config) (fresh : Uuid) (link : Link) : Except NucleusError (Nucleus κ) :=
  if config.chunkSize = 0 then .error (.config "chunk_size must be positive")
  else
    let registry : Registry κ := { cache := .new config.clearThreshold config.readOrder }
    .ok
      { config
        tag := config.tag.getD fresh
        registry := (registry.add .action).add .chunk
        dispatcher := .new config.maxWorkers.toNat
        link }

/-- The settings with the tag filled in. -/
def savedConfig (n : Nucleus κ) : Config := { n.config with tag := some n.tag }

/-- Stores the settings with the tag filled in. -/
def saveConfig (n : Nucleus κ) (path : String) (d : Disk) : Option NucleusError × Disk :=
  let (error, d) := Storage.saveConfig path n.savedConfig d
  (error.map .storage, d)

/-- Why a nucleus could not be made from a file. -/
def load (path : String) (fresh : Uuid) (link : Link) (d : Disk) :
    Except NucleusError (Nucleus κ) × Disk :=
  match Storage.readConfig path d with
  | (.error e, d) => (.error (.storage e), d)
  | (.ok config, d) => (create config fresh link, d)

/-- How inbound primitives are read. -/
def codec (n : Nucleus κ) : Codec κ := { mode := n.config.mode, registry := some n.registry }

/-! ### Cellets -/

/-- Whether a cellet is hosted. -/
def hosts (n : Nucleus κ) (cellet : String) : Bool := n.cellets.contains cellet

/-- Puts a name among ascending names. -/
def insertName (name : String) : List String → List String
  | [] => [name]
  | other :: rest =>
    if name < other then name :: other :: rest else other :: insertName name rest

/-- Hosts a cellet. -/
def register (n : Nucleus κ) (cellet : String) : Outcome κ :=
  if n.hosts cellet then { error := some (.duplicateCellet cellet), nucleus := n }
  else { error := none, nucleus := { n with cellets := insertName cellet n.cellets } }

/-- Stops hosting a cellet. -/
def unregister (n : Nucleus κ) (cellet : String) : Nucleus κ :=
  { n with cellets := n.cellets.erase cellet }

/-! ### Talking -/

/-- Asks the factory of a bound dialect whether the primitive may go out. -/
def askTalk (n : Nucleus κ) (cellet : String) (p : Primitive κ) :
    Bool × Nucleus κ × List (Event κ) :=
  match p.dialect with
  | none => (true, n, [])
  | some d =>
    let (allowed, registry, calls) := n.registry.doTalk cellet d
    (allowed, { n with registry }, calls.map .hook)

/-- Tells the factory of a bound dialect that the primitive went out. -/
def tellTalked (n : Nucleus κ) (cellet : String) (p : Primitive κ) : List (Event κ) :=
  match p.dialect with
  | none => []
  | some d => (n.registry.didTalk cellet d).map .hook

/-- The name of a bound dialect. -/
def dialectName (p : Primitive κ) : String := ((p.dialect.map Dialect.name).getD "")

/-- Sends a primitive from a cellet to a peer. -/
def talk (n : Nucleus κ) (cellet peer : String) (p : Primitive κ) : Outcome κ :=
  if n.hosts cellet = false then { error := some (.celletNotFound cellet), nucleus := n }
  else
    let p := p.setOwner peer
    match n.askTalk cellet p with
    | (false, n, asked) =>
      { error := some (.vetoed (dialectName p)), nucleus := n, events := asked }
    | (true, n, asked) =>
      let payload := Wire.serialize p
      match n.link.transmit peer payload with
      | (some reason, link) =>
        { error := some (.transport reason), nucleus := { n with link }, events := asked }
      | (none, link) =>
        { error := none
          nucleus := { n with link }
          events := asked ++ .transmitted peer payload :: n.tellTalked cellet p }

/-- Sends a dialect from a cellet to a peer. -/
def talkDialect [Content κ] (n : Nucleus κ) (cellet peer : String) (d : Dialect κ) : Outcome κ :=
  let d := (d.setCellet cellet).setOwner peer
  match Primitive.ofDialect? d with
  | none => { error := some (.untranslatable d.name), nucleus := n }
  | some p => n.talk cellet peer p

/-! ### Arriving -/

/-- Delivers a primitive that has been read. -/
def deliver (n : Nucleus κ) (cellet peer : String) (p : Primitive κ) : Outcome κ :=
  match p.dialect with
  | none => { error := none, nucleus := n, events := [.delivered cellet peer p] }
  | some d =>
    let d := d.setCellet cellet
    let p := p.capture d
    match n.registry.doDialogue cellet d with
    | (false, registry, calls) =>
      { error := none, nucleus := { n with registry }, events := calls.map .hook }
    | (true, registry, calls) =>
      { error := none
        nucleus := { n with registry }
        events := calls.map .hook ++
          .delivered cellet peer p :: (registry.didDialogue cellet d).map .hook }

/-- Reads bytes that a peer sent to a cellet, and delivers the primitive. -/
def arrive [Content κ] (n : Nucleus κ) (cellet peer : String) (raw : Bytes) : Outcome κ :=
  if n.hosts cellet = false then { error := some (.celletNotFound cellet), nucleus := n }
  else
    let r := n.codec.deserialize raw (some peer)
    let n := { n with registry := r.codec.registry.getD n.registry }
    match r.error with
    | some e => { error := some (.protocol e), nucleus := n, events := r.calls.map .hook }
    | none =>
      let delivered := n.deliver cellet peer r.primitive
      { delivered with events := r.calls.map .hook ++ delivered.events }

/-! ### Peers and the end -/

/-- Tells every cellet that a peer has come. -/
def contacted (n : Nucleus κ) (peer : String) : List (Event κ) :=
  n.cellets.map fun cellet => .contacted cellet peer

/-- Tells every cellet that a peer has gone. -/
def quitted (n : Nucleus κ) (peer : String) : List (Event κ) :=
  n.cellets.map fun cellet => .quitted cellet peer

/-- Submits an action to the workers: whether it was accepted, which actions were
    started, and the nucleus when the workers have come to rest. Actions return
    at once. -/
def act (n : Nucleus κ) (a : Action) : Bool × List Action × Nucleus κ :=
  let (d, _) := n.dispatcher.submit a
  let (d, events) := d.settle fun _ => .returns
  let started := events.filterMap fun
    | .started a => some a
    | _ => none
  (!n.dispatcher.closed, started, { n with dispatcher := d })

/-- Drops a sign of a peer from the fragment cache: the bytes that were freed, and
    the nucleus after it. -/
def clearSign (n : Nucleus κ) (peer sign : String) : Nat × Nucleus κ :=
  let (freed, cache) := n.registry.cache.clear peer sign
  (freed, { n with registry := { n.registry with cache } })

/-- Lets every factory let go. -/
def shutdown (n : Nucleus κ) : Nucleus κ × List (Event κ) :=
  let (registry, calls) := n.registry.shutdown
  let dispatcher := if n.registry.hasActions then n.dispatcher.shutdown.1 else n.dispatcher
  ({ n with registry, dispatcher }, calls.map .hook)

end Nucleus

end Parley
