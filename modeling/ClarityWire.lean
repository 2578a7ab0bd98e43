import ClarityWire.Item
import ClarityWire.Proofs.WireTree
import ClarityWire.TextForm
import ClarityWire.Value.Parts
import ClarityWire.Value.Signature
import ClarityWire.Value.Summary
import ClarityWire.Wire.ByteStream
import ClarityWire.Proofs.TreeReading
import ClarityWire.Proofs.TreeValue
import ClarityWire.Proofs.Grammar
import ClarityWire.Proofs.Parts
import ClarityWire.Proofs.ValueTree
import ClarityWire.Proofs.Ranges
import ClarityWire.Proofs.RoundTrip
import ClarityWire.Proofs.UniqueTree
import ClarityWire.Proofs.Reordering
import ClarityWire.Proofs.Offsets
import ClarityWire.Proofs.Spans
import ClarityWire.Proofs.Base58
import ClarityWire.Proofs.Base58Checked
import ClarityWire.Proofs.Packing
import ClarityWire.Proofs.C32
import ClarityWire.Proofs.C32Checked
import ClarityWire.Proofs.Demand
import ClarityWire.Proofs.Streams
import ClarityWire.Proofs.Capture
import ClarityWire.Proofs.Truncation
import ClarityWire.Proofs.BitcoinText
import ClarityWire.Proofs.StacksText
import ClarityWire.Proofs.Records
import ClarityWire.Proofs.FixedLayout
import ClarityWire.Proofs.Readability
import ClarityWire.Proofs.Summaries
import ClarityWire.Proofs.Openings
import ClarityWire.Proofs.Repair
import ClarityWire.Proofs.NameReading
import ClarityWire.Proofs.Capacity
import ClarityWire.Proofs.Positional
import ClarityWire.Proofs.Scalars
import ClarityWire.Proofs.Signatures
import ClarityWire.Proofs.Tuples
import ClarityWire.Proofs.Shapes
import ClarityWire.Proofs.Precision
import ClarityWire.Proofs.Observers
import ClarityWire.Proofs.Scanning
import ClarityWire.Proofs.Contracts
import ClarityWire.Proofs.GuardedReading
