import Parley.Main
import Parley.Proofs.Cache.Isolation
import Parley.Proofs.Cli.Conversion
import Parley.Proofs.Codec.Failures
import Parley.Proofs.Dialect.Shape
import Parley.Proofs.Dispatch.Ledger
import Parley.Proofs.Document.Acceptance
import Parley.Proofs.Document.Canonical
import Parley.Proofs.Nucleus.Inbound
import Parley.Proofs.Nucleus.Outbound
import Parley.Proofs.Storage.Saving
import Parley.Proofs.Text.Numerals
import Parley.Proofs.Transfer.Confinement
import Parley.Proofs.Transfer.Reassembly
import Parley.Proofs.Transfer.Receipts
import Parley.Proofs.Transfer.Retries
import Parley.Proofs.Transfer.Splitting
import Parley.Proofs.Wire.Chunks
import Parley.Proofs.Wire.Framing
import Parley.Proofs.Wire.JsonValues
import Parley.Proofs.Wire.Reordering
import Parley.Proofs.Wire.Truncation
