import Parley.Storage
import Parley.Text.Quoted
import Parley.Wire.Error

/-! # What can go wrong

  The causes for which a nucleus, a transfer or a store can fail, and the
  messages about them. What comes from the disk or from the text of a document
  has no wording of its own.
-/

namespace Parley

/-! ### Transfers -/

/-- Why a file could not be sent or received. -/
inductive TransferError where
  /-- The disk failed. -/
  | disk
  /-- Not all fragments that a fragment announces have arrived. -/
  | incomplete (sign : String) (received expected : Nat)
  /-- A fragment is not there. -/
  | missingFragment (sign : String) (index : Nat)
  /-- A sign does not name a file. -/
  | invalidSign (sign : String)
  /-- A file needs more fragments than can be counted. -/
  | tooManyFragments (length chunkSize : Nat)
deriving DecidableEq, Repr

/-- The message of an error. -/
def TransferError.message : TransferError → String
  | .disk => "IO error"
  | .incomplete sign received expected =>
    "Transfer '" ++ sign ++ "' incomplete: " ++ toString received ++ " of " ++ toString expected ++
      " fragments"
  | .missingFragment sign index =>
    "Transfer '" ++ sign ++ "' is missing fragment " ++ toString index
  | .invalidSign sign => "Invalid transfer sign: " ++ sign
  | .tooManyFragments length chunkSize =>
    toString length ++ " bytes need too many fragments of " ++ toString chunkSize ++ " bytes"

/-! ### Stores -/

/-- The message of an error. -/
def StorageError.message : StorageError → String
  | .disk => "IO error"
  | .document => "JSON error"
  | .notCreated path => "Atomic write failed for " ++ path ++ ": create " ++ Path.temp path
  | .notRenamed path => "Atomic write failed for " ++ path ++ ": rename from " ++ Path.temp path

/-- What is said of a configuration that could not be loaded. -/
def StorageError.loading (path : String) : String := "Failed to load config: " ++ Text.quoted path

/-- What is said of a configuration that could not be written. -/
def StorageError.writing (path : String) : String := "Failed to write config: " ++ Text.quoted path

/-! ### The nucleus -/

/-- Why a call of a nucleus failed. -/
inductive NucleusError where
  /-- A primitive could not be read. -/
  | protocol (e : ProtocolError)
  /-- A file could not be sent. -/
  | transfer (e : TransferError)
  /-- Something could not be stored or loaded. -/
  | storage (e : StorageError)
  /-- No cellet of this name is hosted. -/
  | celletNotFound (cellet : String)
  /-- A cellet of this name is hosted already. -/
  | duplicateCellet (cellet : String)
  /-- The factory of a dialect did not allow the talk. -/
  | vetoed (dialect : String)
  /-- The link failed. -/
  | transport (reason : String)
  /-- A dialect cannot be sent. -/
  | untranslatable (dialect : String)
  /-- A configuration cannot be used. -/
  | config (reason : String)
deriving DecidableEq, Repr

/-- The message of an error. -/
def NucleusError.message : NucleusError → String
  | .protocol e => "Protocol error: " ++ e.message
  | .transfer e => "Transfer error: " ++ e.message
  | .storage e => "Storage error: " ++ e.message
  | .celletNotFound cellet => "Cellet '" ++ cellet ++ "' not found"
  | .duplicateCellet cellet => "Cellet '" ++ cellet ++ "' already registered"
  | .vetoed dialect => "Talk vetoed by " ++ dialect
  | .transport reason => "Transport error: " ++ reason
  | .untranslatable dialect => "Dialect " ++ dialect ++ " could not be translated"
  | .config reason => "Configuration error: " ++ reason

end Parley
