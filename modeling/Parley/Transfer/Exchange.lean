import Parley.Transfer.Fragments
import Parley.Transfer.Host

/-! # Two nuclei that exchange files

  An exchange is a nucleus that sends and a host that receives, with the same
  settings and a cellet of the same name. What the one sent stays on its link
  until it is handed over to the other.
-/

namespace Parley.Transfer

variable {κ : Type}

/-- A sender and a receiver. -/
structure Exchange (κ : Type) where
  /-- The nucleus that sends. -/
  source : Nucleus κ
  /-- The host that receives. -/
  target : Host κ

namespace Exchange

/-- Sets up both sides; the receiver writes to a directory. -/
def start (config : Config) (sourceTag targetTag : Uuid) (cellet dir : String) :
    Except NucleusError (Exchange κ) := do
  let source ← Nucleus.create config sourceTag {}
  let target ← Nucleus.create config targetTag {}
  let host ← Host.start target cellet dir
  return { source := (source.register cellet).nucleus, target := host }

/-- Sends a file from a cellet to a peer: how many chunks it took, or why it
    failed, and both sides and the disk after it. -/
def send [Content κ] (x : Exchange κ) (cellet peer path : String) (chunkSize : Nat) (d : Disk) :
    Except NucleusError UInt32 × Exchange κ × Disk :=
  let (result, source, d) := sendFile x.source cellet peer path chunkSize d
  (result, { x with source }, d)

/-- Takes what was sent off the link. -/
def drain (x : Exchange κ) : List Frame × Exchange κ :=
  let (frames, link) := x.source.link.drain
  (frames, { x with source := { x.source with link } })

end Exchange

end Parley.Transfer
