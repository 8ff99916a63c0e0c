import PartRelay.Main
import PartRelay.Store.Listing
import PartRelay.Proofs.Text.Numerals
import PartRelay.Proofs.Bytes.Base64Text
import PartRelay.Proofs.Json.ReadBack
import PartRelay.Proofs.Table
import PartRelay.Proofs.Reassembly.StoredBuffer
import PartRelay.Proofs.Bytes.BigEndian
import PartRelay.Proofs.Part.ReadBack
import PartRelay.Proofs.Part.SplitParts
import PartRelay.Proofs.Part.Grammar
import PartRelay.Proofs.Part.Canonical
import PartRelay.Proofs.Part.Partition
import PartRelay.Proofs.Fragment
import PartRelay.Proofs.Reassembly.SoundBuffer
import PartRelay.Proofs.Reassembly.Slots
import PartRelay.Proofs.Reassembly.Failures
import PartRelay.Proofs.Reassembly.Window
import PartRelay.Proofs.Reassembly.Tracking
import PartRelay.Proofs.Reassembly.Invariant
import PartRelay.Proofs.Reassembly.Openings
import PartRelay.Proofs.Reassembly.Expiry
import PartRelay.Proofs.Reassembly.Keys
import PartRelay.Proofs.Reassembly.Isolation
import PartRelay.Proofs.Reassembly.Outcomes
import PartRelay.Proofs.Reassembly.Answers
import PartRelay.Proofs.Intake
import PartRelay.Proofs.Http.Runs
import PartRelay.Proofs.Http.Decisions
import PartRelay.Proofs.Reassembly.Transfer
import PartRelay.Proofs.Reassembly.RoundTrip
import PartRelay.Proofs.Http.Posting
import PartRelay.Proofs.Http.Headers
import PartRelay.Proofs.Command.RoundTrip
import PartRelay.Proofs.Store.Accesses
import PartRelay.Proofs.Json.ReadNumbers
import PartRelay.Proofs.Reassembly.Reloading
import PartRelay.Proofs.Reassembly.Restarts
import PartRelay.Proofs.Reassembly.Dormancy
import PartRelay.Proofs.Reassembly.Headings
import PartRelay.Proofs.Overrides
import PartRelay.Proofs.Story
import PartRelay.Proofs.Part.Limits
import PartRelay.Proofs.Command.SplitFaults
import PartRelay.Proofs.Reassembly.Capacity
import PartRelay.Proofs.Reassembly.CanonicalBuffer
import PartRelay.Proofs.Reassembly.ArrivalOrder
import PartRelay.Proofs.Json.Grammar
import PartRelay.Proofs.Requests
import PartRelay.Proofs.Config.PrimeText
import PartRelay.Proofs.SenderText
import PartRelay.Proofs.Config.Fields
import PartRelay.Proofs.Config.Loading
import PartRelay.Proofs.Json.Lines
import PartRelay.Proofs.Config.Saving
import PartRelay.Proofs.Bytes.Base64Language
import PartRelay.Proofs.Reassembly.Persistence
import PartRelay.Proofs.Config.Overriding
import PartRelay.Proofs.LogFile
